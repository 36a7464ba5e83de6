import PpcaNetwork.TcpStack.Transitions

/-!
# The end of `TimeWait`

One field serves as retransmission deadline and as the end of `TimeWait`.

* `Tcb.FinWait2Fresh` — a connection comes to `TimeWait` without retransmissions.
* `Tcb.Waits` — nothing changes until the time is over.
* `ExpiresAt` — what is asked of the polls.
* `timeWait_expires_iff` — the first poll after the end does not meet it.
-/

namespace PpcaNetwork.TcpStack

namespace Tcb

/-! ## Coming to `TimeWait` -/

/-- In `FinWait2` the timer is off and nothing has been retransmitted. -/
def FinWait2Fresh (t : Tcb) : Prop :=
  t.state = .finWait2 → t.retransmitAt = none ∧ t.retransmitCount = 0

/-- The connection waits for `deadline` in `TimeWait`. -/
structure Waits (t : Tcb) (deadline : Instant) : Prop where
  state_eq : t.state = .timeWait
  retransmitAt_eq : t.retransmitAt = some deadline
  retransmitCount_eq : t.retransmitCount = 0

theorem finWait2Fresh_of_ne {t : Tcb} (h : t.state ≠ .finWait2) : t.FinWait2Fresh :=
  fun hst => absurd hst h

/-- Data does not touch the timer. -/
theorem timer_bufferData (t : Tcb) (header : TcpHeader) (payload : List UInt8) :
    (t.bufferData header payload).retransmitAt = t.retransmitAt ∧
      (t.bufferData header payload).retransmitCount = t.retransmitCount := by
  unfold bufferData
  split <;> exact ⟨rfl, rfl⟩

/-- Only the states after our FIN lead to `FinWait2` and `TimeWait`. -/
theorem state_processExistingTcb_of_ne {t : Tcb} (hst1 : t.state ≠ .finWait1)
    (hst2 : t.state ≠ .finWait2) (hst3 : t.state ≠ .closing) (header : TcpHeader)
    (payload : List UInt8) (now : Instant) :
    (t.processExistingTcb header payload now).1.state ≠ .finWait2 ∧
      ((t.processExistingTcb header payload now).1.state = .timeWait → t.state = .timeWait) := by
  cases hst : t.state with
  | established =>
    have hnext := state_processEstablished hst header payload
    simp only [processExistingTcb, hst]
    rcases hnext with hnext | hnext <;> simp [hnext]
  | closeWait =>
    simp only [processExistingTcb, hst, processCloseWait]
    split_ifs <;> simp [hst]
  | lastAck =>
    simp only [processExistingTcb, hst, processLastAck]
    split_ifs <;> simp [hst]
  | synSent =>
    simp only [processExistingTcb, hst, processSynSent]
    split_ifs <;> simp [hst]
  | synReceived =>
    simp only [processExistingTcb, hst, processSynReceived]
    split_ifs <;> simp [hst]
  | closed => simp [processExistingTcb, hst]
  | listen => simp [processExistingTcb, hst]
  | timeWait => simp [processExistingTcb, hst]
  | finWait1 => exact absurd hst hst1
  | finWait2 => exact absurd hst hst2
  | closing => exact absurd hst hst3

/-- A connection comes to `FinWait2` and to `TimeWait` with its timer set anew. -/
theorem onEvent_segment_timers {t : Tcb} (h : t.FinWait2Fresh) (hne : t.state ≠ .timeWait)
    (header : TcpHeader) (payload : List UInt8) (now : Instant) :
    let t' := t.onEvent (.segment header payload now)
    t'.FinWait2Fresh ∧ (t'.state = .timeWait → t'.Waits (now + timeWaitPeriod)) := by
  by_cases hst : t.state = .finWait1 ∨ t.state = .finWait2 ∨ t.state = .closing
  · simp only [onEvent]
    rcases hst with hst | hst | hst
    · simp only [processExistingTcb, hst, processFinWait1]
      split_ifs
      · rw [afterSending_singleton, recordSent_of_isSome rfl]
        exact ⟨finWait2Fresh_of_ne (by simp), fun _ => ⟨rfl, rfl, rfl⟩⟩
      · rw [afterSending_nil]
        refine ⟨fun _ => timer_bufferData .., ?_⟩
        simp
      · rw [afterSending_nil]
        exact ⟨finWait2Fresh_of_ne (by simp [hst]), by simp [hst]⟩
      · obtain ⟨r, hr⟩ := exists_afterSending [ackSegment { t with
          rcvNxt := header.seq + (segLen payload + 1), state := .closing }] now { t with
          rcvNxt := header.seq + (segLen payload + 1), state := .closing }
        rw [hr]
        exact ⟨finWait2Fresh_of_ne (by simp), by simp⟩
      · rw [afterSending_nil]
        exact ⟨finWait2Fresh_of_ne (by simp [hst]), by simp [hst]⟩
    · obtain ⟨hoff, hcount⟩ := h hst
      simp only [processExistingTcb, hst, processFinWait2]
      split_ifs
      · rw [afterSending_singleton, recordSent_of_isSome rfl]
        exact ⟨finWait2Fresh_of_ne (by simp), fun _ => ⟨rfl, rfl, hcount⟩⟩
      · rw [afterSending_nil]
        obtain ⟨hat, hn⟩ := t.timer_bufferData header payload
        exact ⟨fun _ => ⟨hat.trans hoff, hn.trans hcount⟩, by simp [hst]⟩
    · simp only [processExistingTcb, hst, processClosing]
      split_ifs
      · rw [afterSending_nil]
        exact ⟨finWait2Fresh_of_ne (by simp), fun _ => ⟨rfl, rfl, rfl⟩⟩
      · rw [afterSending_nil]
        exact ⟨finWait2Fresh_of_ne (by simp [hst]), by simp [hst]⟩
  · push Not at hst
    obtain ⟨hst1, hst2, hst3⟩ := hst
    obtain ⟨hnot, hwait⟩ :=
      state_processExistingTcb_of_ne hst1 hst2 hst3 header payload now
    obtain ⟨r, hr⟩ := exists_afterSending (t.processExistingTcb header payload now).2 now
      (t.processExistingTcb header payload now).1
    simp only [onEvent, hr]
    exact ⟨finWait2Fresh_of_ne hnot, fun hst => absurd (hwait hst) hne⟩

theorem FinWait2Fresh.afterSending {t : Tcb} (h : t.state ≠ .finWait2)
    (segs : List OutgoingSegment) (now : Instant) : (t.afterSending segs now).FinWait2Fresh := by
  obtain ⟨r, hr⟩ := exists_afterSending segs now t
  rw [hr]
  exact finWait2Fresh_of_ne h

/-- In `TimeWait` segments are ignored. -/
theorem onEvent_segment_of_timeWait {t : Tcb} (h : t.state = .timeWait) (header : TcpHeader)
    (payload : List UInt8) (now : Instant) : t.onEvent (.segment header payload now) = t := by
  simp [onEvent, processExistingTcb, h]

/-- **The step** of the invariant. -/
theorem FinWait2Fresh.onEvent {t : Tcb} (h : t.FinWait2Fresh) (e : ConnEvent) :
    (t.onEvent e).FinWait2Fresh := by
  cases e with
  | send data now =>
    simp only [Tcb.onEvent, send]
    split
    · exact h
    · rename_i hst
      have hopen : t.state = .established := not_not.mp hst
      exact .afterSending (by simp [hopen]) _ now
  | recv => exact h
  | close now =>
    cases hst : t.state with
    | closed | timeWait | listen =>
      simp only [Tcb.onEvent, close, hst, afterSending_nil]
      exact h
    | _ =>
      simp only [Tcb.onEvent, close, hst, sendFin]
      exact .afterSending (by simp) _ now
  | segment header payload now =>
    by_cases hst : t.state = .timeWait
    · rw [onEvent_segment_of_timeWait hst]
      exact h
    · exact (onEvent_segment_timers h hst header payload now).1
  | poll now =>
    by_cases hst : t.state = .finWait2
    · obtain ⟨hoff, -⟩ := h hst
      have hquiet : t.timerFired now = false := by simp [timerFired, hoff]
      simp only [Tcb.onEvent, retransmit_of_not_fired hquiet]
      exact h
    · obtain ⟨st, r, rto, n, rfl | rfl, heq⟩ := t.exists_retransmit now
      · simp only [Tcb.onEvent, heq]
        exact finWait2Fresh_of_ne hst
      · simp only [Tcb.onEvent, heq]
        exact finWait2Fresh_of_ne (by simp)

/-! ## Waiting -/

/-- A poll before the deadline does nothing. -/
theorem Waits.retransmit_early {t : Tcb} {deadline now : Instant} (h : t.Waits deadline)
    (hlt : now < deadline) : t.retransmit now = (t, none) := by
  apply retransmit_of_not_fired
  simp [timerFired, h.retransmitAt_eq, hlt]

/-- The first poll from the deadline on retransmits. -/
theorem Waits.retransmit_late {t : Tcb} {deadline now : Instant} (h : t.Waits deadline)
    (hle : deadline ≤ now) : ∃ seg, (t.retransmit now).2 = some seg := by
  have hfired : t.timerFired now = true := by simp [timerFired, h.retransmitAt_eq, hle]
  have hcount : ¬ maxRetransmits ≤ t.retransmitCount := by
    rw [h.retransmitCount_eq]
    decide
  exact ⟨_, by simp [retransmit, hfired, hcount]; rfl⟩

/-- Before the deadline a waiting connection is left alone by everything. -/
theorem Waits.onEvent {t : Tcb} {deadline : Instant} (h : t.Waits deadline) (e : ConnEvent)
    (hpoll : ∀ now, e = .poll now → now < deadline) : (t.onEvent e).Waits deadline := by
  cases e with
  | send data now =>
    have hst : t.state ≠ .established := by simp [h.state_eq]
    simp only [Tcb.onEvent, send, if_pos hst, afterSending_nil]
    exact h
  | recv => exact ⟨h.state_eq, h.retransmitAt_eq, h.retransmitCount_eq⟩
  | close now =>
    simp only [Tcb.onEvent, close, h.state_eq, afterSending_nil]
    exact h
  | segment header payload now =>
    rw [onEvent_segment_of_timeWait h.state_eq]
    exact h
  | poll now =>
    simp only [Tcb.onEvent, h.retransmit_early (hpoll now rfl)]
    exact h

end Tcb

/-! ## Every run -/

/-- A poll retransmits nothing for the entry. -/
def PollsSilently (entry : Option Tcb) (now : Instant) : Prop :=
  ∀ t ∈ entry, (t.retransmit now).2 = none

/-- The entry is there, silently, at all polls before the deadline, and the first poll
from the deadline on removes it, silently. -/
def ExpiresAt (deadline : Instant) : Option Tcb → List ConnEvent → Prop
  | _, [] => True
  | entry, .poll now :: es =>
    PollsSilently entry now ∧
      if now < deadline then
        (Tcb.stepConn entry (.poll now)).isSome = true ∧
          ExpiresAt deadline (Tcb.stepConn entry (.poll now)) es
      else Tcb.stepConn entry (.poll now) = none
  | entry, e :: es => ExpiresAt deadline (Tcb.stepConn entry e) es

instance (entry : Option Tcb) (now : Instant) : Decidable (PollsSilently entry now) :=
  inferInstanceAs (Decidable (∀ t ∈ entry, (t.retransmit now).2 = none))

instance decidableExpiresAt (deadline : Instant) :
    (entry : Option Tcb) → (es : List ConnEvent) → Decidable (ExpiresAt deadline entry es)
  | _, [] => inferInstanceAs (Decidable True)
  | entry, .poll now :: es =>
    have := decidableExpiresAt deadline (Tcb.stepConn entry (.poll now)) es
    inferInstanceAs (Decidable (PollsSilently entry now ∧
      if now < deadline then
        (Tcb.stepConn entry (.poll now)).isSome = true ∧
          ExpiresAt deadline (Tcb.stepConn entry (.poll now)) es
      else Tcb.stepConn entry (.poll now) = none))
  | entry, .send data now :: es =>
    decidableExpiresAt deadline (Tcb.stepConn entry (.send data now)) es
  | entry, .recv :: es => decidableExpiresAt deadline (Tcb.stepConn entry .recv) es
  | entry, .close now :: es => decidableExpiresAt deadline (Tcb.stepConn entry (.close now)) es
  | entry, .segment header payload now :: es =>
    decidableExpiresAt deadline (Tcb.stepConn entry (.segment header payload now)) es

/-- In every state of a connection's run, `FinWait2` is fresh. -/
theorem finWait2Fresh_run (key : ConnKey) (iss : UInt32) (start : Instant) (es : List ConnEvent)
    {t : Tcb} (ht : run Tcb.stepConn (some (key.opened iss start)) es = some t) :
    t.FinWait2Fresh := by
  have hinv : ∀ t ∈ run Tcb.stepConn (some (key.opened iss start)) es, t.FinWait2Fresh := by
    apply Run.invariant (fun entry : Option Tcb => ∀ t ∈ entry, t.FinWait2Fresh)
    · intro entry e h t' ht'
      cases entry with
      | none =>
        rw [Tcb.stepConn_none] at ht'
        exact absurd ht' (by simp)
      | some t =>
        obtain rfl := Tcb.eq_onEvent_of_stepConn ht'
        exact (h t rfl).onEvent e
    · intro t ht
      obtain rfl : key.opened iss start = t := Option.some.inj ht
      exact Tcb.finWait2Fresh_of_ne (by simp [ConnKey.opened, Tcb.opened])
  exact hinv t ht

theorem Tcb.Waits.stepConn_early {t : Tcb} {deadline now : Instant} (h : t.Waits deadline)
    (hlt : now < deadline) : Tcb.stepConn (some t) (.poll now) = some t := by
  have hkept : t.isRetained now = true := by
    simp [Tcb.isRetained, h.state_eq, Tcb.timerFired, h.retransmitAt_eq, hlt]
  simp [Tcb.stepConn, Tcb.onEvent, h.retransmit_early hlt, hkept]

/-- The deadline is kept as long as no poll comes that late. -/
theorem Tcb.Waits.expiresAt_iff {t : Tcb} {deadline : Instant} (h : t.Waits deadline)
    (es : List ConnEvent) :
    ExpiresAt deadline (some t) es ↔ ∀ now, ConnEvent.poll now ∈ es → now < deadline := by
  induction es generalizing t with
  | nil => exact iff_of_true trivial fun _ hmem => absurd hmem (by simp)
  | cons e es ih =>
    have hnext : ∀ e : ConnEvent, (∀ now, e ≠ .poll now) →
        (ExpiresAt deadline (some (t.onEvent e)) es ↔
          ∀ now, ConnEvent.poll now ∈ e :: es → now < deadline) := by
      intro e hne
      rw [ih (h.onEvent e fun now heq => absurd heq (hne now))]
      constructor
      · intro hall now hmem
        rcases List.mem_cons.mp hmem with heq | hmem
        · exact absurd heq.symm (hne now)
        · exact hall now hmem
      · intro hall now hmem
        exact hall now (List.mem_cons_of_mem _ hmem)
    cases e with
    | poll now =>
      rw [ExpiresAt]
      by_cases hlt : now < deadline
      · rw [if_pos hlt, h.stepConn_early hlt, ih h]
        have hsilent : PollsSilently (some t) now := by
          intro t' ht'
          obtain rfl : t = t' := Option.some.inj ht'
          rw [h.retransmit_early hlt]
        constructor
        · rintro ⟨-, -, hall⟩ now' hmem
          rcases List.mem_cons.mp hmem with heq | hmem
          · obtain rfl : now' = now := ConnEvent.poll.inj heq
            exact hlt
          · exact hall now' hmem
        · intro hall
          exact ⟨hsilent, rfl, fun now' hmem => hall now' (List.mem_cons_of_mem _ hmem)⟩
      · -- the poll restarts the timer and retransmits, before `retain` looks at it
        refine iff_of_false ?_ fun hall => hlt (hall now (by simp))
        rintro ⟨hsilent, -⟩
        obtain ⟨seg, hseg⟩ := h.retransmit_late (not_lt.mp hlt)
        rw [hsilent t rfl] at hseg
        exact absurd hseg (by simp)
    | send data now => exact hnext (.send data now) (by simp)
    | recv => exact hnext .recv (by simp)
    | close now => exact hnext (.close now) (by simp)
    | segment header payload now => exact hnext (.segment header payload now) (by simp)

/-- **How long `TimeWait` lasts.**  For every run of a connection that comes to
`TimeWait` with a segment, and every continuation: the connection is there, silently,
at all polls of the next 60 seconds, and the first later poll removes it silently,
exactly if there is no later poll. -/
theorem timeWait_expires_iff (key : ConnKey) (iss : UInt32) (start now : Instant)
    (es fs : List ConnEvent) (t : Tcb) (header : TcpHeader) (payload : List UInt8)
    (ht : run Tcb.stepConn (some (key.opened iss start)) es = some t)
    (hne : t.state ≠ .timeWait)
    (henters : (t.onEvent (.segment header payload now)).state = .timeWait) :
    ExpiresAt (now + timeWaitPeriod)
        (run Tcb.stepConn (some (key.opened iss start)) (es ++ [.segment header payload now])) fs ↔
      ∀ later, ConnEvent.poll later ∈ fs → later < now + timeWaitPeriod := by
  have hfresh : t.FinWait2Fresh := finWait2Fresh_run key iss start es ht
  have hwaits : (t.onEvent (.segment header payload now)).Waits (now + timeWaitPeriod) :=
    (Tcb.onEvent_segment_timers hfresh hne header payload now).2 henters
  rw [Run.run_append, ht]
  exact hwaits.expiresAt_iff fs

/-- A header of the demo's peer, which has counted our FIN. -/
def demoClosingHeader (seq : UInt32) (flags : UInt8) : TcpHeader where
  srcPort := 9999
  dstPort := 40000
  seq := seq
  ack := 1002
  dataOffset := 5
  flags := flags
  window := 65535
  checksum := 0
  urgent := 0

/-- The demo connection is opened and closed, and the peer acknowledges our FIN. -/
def demoFinAcked : List ConnEvent :=
  [.segment { demoClosingHeader 5000 (tcpSyn ||| tcpAck) with ack := 1001 } [] 0, .close 0,
    .segment (demoClosingHeader 5001 tcpAck) [] 0]

/-- Its control block then. -/
def demoFinWait2Tcb : Tcb :=
  { demoKey.opened 1000 0 with
    state := .finWait2, irs := 5000, rcvNxt := 5001, sndUna := 1002, sndNxt := 1002
    sndWnd := 65535, retransmitAt := none }

/-- After the peer's FIN it is left alone for 59 seconds. -/
theorem demo_timeWait_kept :
    ExpiresAt timeWaitPeriod
      (run Tcb.stepConn (some (demoKey.opened 1000 0))
        (demoFinAcked ++ [.segment (demoClosingHeader 5001 (tcpFin ||| tcpAck)) [] 0]))
      [.poll (Duration.fromSecs 1), .poll (Duration.fromSecs 59)] := by
  have h := timeWait_expires_iff demoKey 1000 0 0 demoFinAcked
    [.poll (Duration.fromSecs 1), .poll (Duration.fromSecs 59)] demoFinWait2Tcb
    (demoClosingHeader 5001 (tcpFin ||| tcpAck)) [] (by decide) (by decide) (by decide)
  rw [show (0 : Instant) + timeWaitPeriod = timeWaitPeriod from Nat.zero_add _] at h
  refine h.mpr ?_
  intro later hlater
  simp only [List.mem_cons, ConnEvent.poll.injEq, List.not_mem_nil, or_false] at hlater
  rcases hlater with rfl | rfl
  · decide
  · decide

/-- **The poll after 60 seconds sends an acknowledgement** and keeps the connection. -/
theorem demo_timeWait_retransmits :
    let entry := run Tcb.stepConn (some (demoKey.opened 1000 0))
      (demoFinAcked ++ [.segment (demoClosingHeader 5001 (tcpFin ||| tcpAck)) [] 0])
    entry.map (fun t => (t.state, t.retransmitAt)) = some (.timeWait, some timeWaitPeriod) ∧
      entry.bind (fun t => (t.retransmit timeWaitPeriod).2) =
        some { flags := tcpAck, seq := 1002, ack := 5002, payload := [], dstPort := 9999 } ∧
      (Tcb.stepConn entry (.poll timeWaitPeriod)).map (·.state) = some .timeWait ∧
      ¬ ExpiresAt timeWaitPeriod entry [.poll timeWaitPeriod] := by
  decide

end PpcaNetwork.TcpStack
