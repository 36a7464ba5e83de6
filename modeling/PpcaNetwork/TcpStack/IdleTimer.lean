import PpcaNetwork.TcpStack.Transitions

/-!
# The retransmission timer of an idle connection

`record_sent` starts the timer for every segment sent under a connection, pure
acknowledgements included, and only an acknowledgement of new data stops it.  An
`Established` connection with nothing outstanding is therefore safe from
`poll_retransmit` only as long as its timer has not been started for anything.

* `TcpCore.PollsQuietly` — whenever the next poll comes, it neither retransmits
  for the connection nor removes it.
* `Tcb.Idle` — `Established`, nothing outstanding, timer off; `TcpCore.idle_step`
  says which events keep it so.
* `idle_quiet_iff` — from an idle moment on, polls stay quiet exactly if the
  timer is off and nothing of what follows starts it.
-/

namespace PpcaNetwork.TcpStack

/-- Whenever the next poll comes, `poll_retransmit` emits nothing for `k` and
leaves its connection in the table. -/
def TcpCore.PollsQuietly (c : TcpCore) (k : ConnKey) : Prop :=
  ∀ elapsed : Duration,
    (∀ seg, (k, seg) ∉ (c.tcp.pollRetransmit (c.now + elapsed)).2) ∧
      ((c.tcp.pollRetransmit (c.now + elapsed)).1.get k).isSome

/-- The event makes the stack send something under `k`, other than data: a close,
or a segment that occupies sequence space at the expected number `rcvNxt` and is
acknowledged. -/
def Event.Arms (ourIp : Ipv4Addr) (k : ConnKey) (rcvNxt : UInt32) : Event → Prop
  | .close key => key = k
  | .segment remoteIp header payload =>
    TcpManager.segmentKey ourIp remoteIp header = k ∧ header.Occupies payload ∧
      header.seq = rcvNxt
  | _ => False

/-! ## One control block -/

namespace Tcb

/-- `Established` with nothing outstanding and the timer off, expecting `rcvNxt`. -/
structure Idle (t : Tcb) (rcvNxt : UInt32) : Prop where
  state_eq : t.state = .established
  sndUna_eq : t.sndUna = t.sndNxt
  timer_off : t.retransmitAt = none
  rcvNxt_eq : t.rcvNxt = rcvNxt

variable {t : Tcb} {rcvNxt : UInt32}

theorem recordSent_isSome (t : Tcb) (now : Instant) : (t.recordSent now).retransmitAt.isSome := by
  unfold recordSent
  split
  · rfl
  · rename_i h
    simpa [Option.isSome_iff_ne_none] using h

/-- A segment that is not the next one, or occupies nothing, leaves an idle
connection as it is. -/
theorem Idle.processExistingTcb_ignored (h : t.Idle rcvNxt) {header : TcpHeader}
    {payload : List UInt8} (hign : ¬ (header.Occupies payload ∧ header.seq = rcvNxt))
    (now : Instant) : t.processExistingTcb header payload now = (t, []) := by
  rw [processExistingTcb, h.state_eq]
  simp only [processEstablished, processAck_of_idle h.sndUna_eq]
  exact processData_ignored (by rwa [h.rcvNxt_eq])

/-- The next segment, if it occupies anything, is acknowledged, and that starts
the timer. -/
theorem Idle.onEvent_accepted (h : t.Idle rcvNxt) {header : TcpHeader} {payload : List UInt8}
    (hocc : header.Occupies payload) (hseq : header.seq = rcvNxt) (now : Instant) :
    (t.onEvent (.segment header payload now)).retransmitAt.isSome := by
  have hproc : t.processExistingTcb header payload now =
      (t.accepted header payload, [(t.accepted header payload).ackSegment]) := by
    rw [processExistingTcb, h.state_eq]
    simp only [processEstablished, processAck_of_idle h.sndUna_eq]
    exact processData_accepted hocc (by rw [hseq, h.rcvNxt_eq])
  rw [onEvent, hproc]
  exact recordSent_isSome _ now

theorem Idle.timerFired (h : t.Idle rcvNxt) (now : Instant) : t.timerFired now = false := by
  simp [Tcb.timerFired, h.timer_off]

/-- A poll does nothing to an idle connection. -/
theorem Idle.stepConn_poll (h : t.Idle rcvNxt) (now : Instant) :
    stepConn (some t) (.poll now) = some t := by
  have hkeep : t.isRetained now = true := by simp [isRetained, h.state_eq]
  simp [stepConn, onEvent, retransmit_of_not_fired (h.timerFired now), hkeep]

end Tcb

/-! ## The stack -/

namespace TcpCore

/-- A connection whose timer is running is retransmitted for or removed by a
poll that comes late enough. -/
theorem not_pollsQuietly {c : TcpCore} {k : ConnKey} {t : Tcb} (hget : c.get k = some t)
    (htimer : t.retransmitAt.isSome) : ¬ c.PollsQuietly k := by
  intro hquiet
  obtain ⟨deadline, hdl⟩ := Option.isSome_iff_exists.mp htimer
  obtain ⟨hnone, hkept⟩ := hquiet deadline
  have hfired : t.timerFired (c.now + deadline) = true := by
    simp [Tcb.timerFired, hdl]
  rcases Tcb.retransmit_of_fired hfired with hclosed | ⟨seg, hseg⟩
  · rw [TcpManager.get_pollRetransmit] at hkept
    have hentry : c.tcp.get k = some t := hget
    simp [hentry, Tcb.isRetained, hclosed, Option.filter] at hkept
  · exact hnone seg ((TcpManager.mem_pollRetransmit ..).mpr ⟨t, hget, hseg⟩)

/-- The connection under `k` is idle, on a stack with address `ourIp`. -/
def IdleAt (k : ConnKey) (ourIp : Ipv4Addr) (rcvNxt : UInt32) (c : TcpCore) : Prop :=
  c.ourIp = ourIp ∧ ∃ t, c.get k = some t ∧ t.Idle rcvNxt

variable {k : ConnKey} {ourIp : Ipv4Addr} {rcvNxt : UInt32}

theorem IdleAt.pollsQuietly {c : TcpCore} (h : IdleAt k ourIp rcvNxt c) : c.PollsQuietly k := by
  obtain ⟨-, t, hget, hidle⟩ := h
  have hentry : c.tcp.get k = some t := hget
  intro elapsed
  have hstay := Tcb.retransmit_of_not_fired (hidle.timerFired (c.now + elapsed))
  constructor
  · intro seg hseg
    obtain ⟨u, hu, hret⟩ := (TcpManager.mem_pollRetransmit ..).mp hseg
    obtain rfl : u = t := Option.some.inj (hu.symm.trans hentry)
    rw [hstay] at hret
    exact absurd hret (by simp)
  · have hpoll := hidle.stepConn_poll (c.now + elapsed)
    rw [TcpManager.get_pollRetransmit, hentry]
    simp only [Tcb.stepConn, Tcb.onEvent] at hpoll
    rw [hpoll]
    rfl

/-- **The step.**  An idle connection stays idle through every event that does
not send data on it and does not start its timer. -/
theorem idle_step {c : TcpCore} (h : IdleAt k ourIp rcvNxt c) {e : Event}
    (hsend : ∀ data, e ≠ .send k data) (harms : ¬ e.Arms ourIp k rcvNxt) :
    IdleAt k ourIp rcvNxt (c.step e) := by
  obtain ⟨hip, t, hget, hidle⟩ := h
  refine ⟨by rw [step_ourIp, hip], ?_⟩
  rw [get_step, hget]
  cases e with
  | connect remoteIp remotePort iss =>
    -- a connection in `Established` is handed back, never replaced
    have hreused : (c.get k).any TcpManager.isReused = true := by
      simp [hget, TcpManager.isReused, hidle.state_eq]
    refine ⟨t, ?_, hidle⟩
    simp [observe, hreused]
  | send key data =>
    have hne : key ≠ k := fun hk => hsend data (hk ▸ rfl)
    exact ⟨t, by simp [observe, hne], hidle⟩
  | recv key =>
    by_cases hk : key = k
    · refine ⟨t.drainData.1, ?_, hidle.1, hidle.2, hidle.3, hidle.4⟩
      simp [observe, hk, Tcb.stepKey, Tcb.stepConn, Tcb.onEvent]
    · exact ⟨t, by simp [observe, hk], hidle⟩
  | close key =>
    have hne : key ≠ k := harms
    exact ⟨t, by simp [observe, hne], hidle⟩
  | segment remoteIp header payload =>
    by_cases hk : TcpManager.segmentKey c.ourIp remoteIp header = k
    · have hign : ¬ (header.Occupies payload ∧ header.seq = rcvNxt) := by
        rintro ⟨hocc, hseq⟩
        exact harms ⟨hip ▸ hk, hocc, hseq⟩
      refine ⟨t, ?_, hidle⟩
      simp [observe, hk, Tcb.stepKey, Tcb.stepConn, Tcb.onEvent,
        hidle.processExistingTcb_ignored hign]
    · exact ⟨t, by simp [observe, hk], hidle⟩
  | poll elapsed =>
    exact ⟨t, hidle.stepConn_poll _, hidle⟩

/-- An event that starts the timer of an idle connection leaves it running. -/
theorem timer_of_arms {c : TcpCore} (h : IdleAt k ourIp rcvNxt c) {e : Event}
    (harms : e.Arms ourIp k rcvNxt) :
    ∃ t, (c.step e).get k = some t ∧ t.retransmitAt.isSome := by
  obtain ⟨hip, t, hget, hidle⟩ := h
  rw [get_step, hget]
  cases e with
  | close key =>
    have hk : key = k := harms
    refine ⟨t.onEvent (.close c.now), by simp [observe, hk, Tcb.stepKey, Tcb.stepConn], ?_⟩
    simp [Tcb.onEvent, Tcb.close, hidle.state_eq, Tcb.sendFin,
      Tcb.recordSent_of_isSome]
  | segment remoteIp header payload =>
    obtain ⟨hk, hocc, hseq⟩ := harms
    rw [← hip] at hk
    exact ⟨t.onEvent (.segment header payload c.now),
      by simp [observe, hk, Tcb.stepKey, Tcb.stepConn], hidle.onEvent_accepted hocc hseq _⟩
  | connect remoteIp remotePort iss => exact harms.elim
  | send key data => exact harms.elim
  | recv key => exact harms.elim
  | poll elapsed => exact harms.elim

/-- Polls that stay quiet throughout `fs` rule out every event that starts the timer. -/
theorem not_arms_of_quiet {c : TcpCore} (h : IdleAt k ourIp rcvNxt c) {fs : List Event}
    (hsend : ∀ e ∈ fs, ∀ data, e ≠ .send k data)
    (hquiet : ∀ p, p <+: fs → (run step c p).PollsQuietly k) :
    ∀ e ∈ fs, ¬ e.Arms ourIp k rcvNxt := by
  induction fs generalizing c with
  | nil => simp
  | cons f fs ih =>
    have hf : ¬ f.Arms ourIp k rcvNxt := by
      intro harms
      obtain ⟨t, hget, htimer⟩ := timer_of_arms h harms
      exact not_pollsQuietly hget htimer (hquiet [f] (by simp))
    have hnext := idle_step h (hsend f (by simp)) hf
    have htail := ih hnext (fun e he => hsend e (List.mem_cons_of_mem _ he)) fun p hp =>
      hquiet (f :: p) (by simpa using hp)
    intro e he
    rcases List.mem_cons.mp he with rfl | he
    · exact hf
    · exact htail e he

end TcpCore

/-- **When an idle connection is left alone.**  Take any run of the stack after
which the connection under `k` is `Established` with nothing outstanding, and
any further events without a `send` on it.  At every moment of them the next
poll, whenever it comes, neither retransmits for the connection nor removes it,
exactly if the timer is off at the start and none of the events is a close of
the connection or a segment that the stack accepts and acknowledges. -/
theorem idle_quiet_iff (ourIp : Ipv4Addr) (start : Instant) (es fs : List Event) (k : ConnKey)
    (t : Tcb) (hget : (run TcpCore.step (.new ourIp start) es).get k = some t)
    (hst : t.state = .established) (hidle : t.sndUna = t.sndNxt)
    (hsend : ∀ e ∈ fs, ∀ data, e ≠ .send k data) :
    (∀ p, p <+: fs → (run TcpCore.step (.new ourIp start) (es ++ p)).PollsQuietly k) ↔
      t.retransmitAt = none ∧ ∀ e ∈ fs, ¬ e.Arms ourIp k t.rcvNxt := by
  have hip : (run TcpCore.step (.new ourIp start) es).ourIp = ourIp := TcpCore.run_ourIp ..
  simp only [Run.run_append]
  constructor
  · intro hquiet
    have htimer : t.retransmitAt = none := by
      by_contra hne
      have hsome := Option.isSome_iff_ne_none.mpr hne
      exact TcpCore.not_pollsQuietly hget hsome (hquiet [] List.nil_prefix)
    exact ⟨htimer, TcpCore.not_arms_of_quiet ⟨hip, t, hget, hst, hidle, htimer, rfl⟩ hsend hquiet⟩
  · rintro ⟨htimer, harms⟩ p hp
    have hguard : Run.Guarded TcpCore.step
        (fun _ e => (∀ data, e ≠ .send k data) ∧ ¬ e.Arms ourIp k t.rcvNxt)
        (run TcpCore.step (.new ourIp start) es) p :=
      Run.guarded_of_forall (fun _ e he => ⟨hsend e (hp.subset he), harms e (hp.subset he)⟩) _
    have hstart : TcpCore.IdleAt k ourIp t.rcvNxt (run TcpCore.step (.new ourIp start) es) :=
      ⟨hip, t, hget, hst, hidle, htimer, rfl⟩
    have hend := Run.invariant_of_guarded (TcpCore.IdleAt k ourIp t.rcvNxt)
      (fun _ _ h hg => TcpCore.idle_step h hg.1 hg.2) hstart hguard
    exact hend.pollsQuietly

/-- The demo connection after its two bytes have been acknowledged. -/
def demoAcked : List Event :=
  demoHandshake ++ [.send demoKey [104, 105], demoSegment 5001 1003 tcpAck []]

/-- That acknowledgement stopped the timer, so the connection is left alone. -/
theorem demo_acked_quiet :
    (run TcpCore.step demoStack (demoAcked ++ [.recv demoKey, .poll 1000000000])).PollsQuietly
      demoKey :=
  (idle_quiet_iff demoKey.localIp 0 demoAcked [.recv demoKey, .poll 1000000000] demoKey
    { demoKey.opened 1000 0 with
      state := .established, irs := 5000, rcvNxt := 5001, sndUna := 1003, sndNxt := 1003
      sndWnd := 65535, retransmitAt := none }
    (by decide) (by decide) (by decide) (by simp)).mpr
    ⟨by decide, by simp [Event.Arms]⟩ _ (List.prefix_refl _)

/-- The polls of an idle connection on which nothing else happens. -/
def demoIdlePolls : List Event :=
  [1, 1, 2, 4, 8, 16].map fun seconds => .poll (Duration.fromSecs seconds)

/-- The acknowledgement that completes the handshake starts the timer, and
nothing stops it: the connection is `Established` with nothing outstanding, its
first poll retransmits, and its sixth removes it. -/
theorem demo_idle_timed_out :
    ((run TcpCore.step demoStack demoHandshake).get demoKey).map
        (fun t => (t.state, t.sndUna, t.sndNxt)) = some (.established, 1001, 1001) ∧
      ((run TcpCore.step demoStack demoHandshake).tcp.pollRetransmit (Duration.fromSecs 1)).2 =
        [(demoKey, { flags := tcpAck, seq := 1001, ack := 5001, payload := []
                     dstPort := 9999 })] ∧
      (run TcpCore.step demoStack (demoHandshake ++ demoIdlePolls)).get demoKey = none := by
  decide

end PpcaNetwork.TcpStack
