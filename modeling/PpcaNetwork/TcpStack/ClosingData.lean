import PpcaNetwork.TcpStack.SendSide

/-!
# Data that is unacknowledged at a close

A connection that is closed while bytes are still unacknowledged, until the end of
its run.

* `Tcb.AwaitsFinAck` — the states in which our FIN is unacknowledged.
* `Tcb.onEvent_isClosed` — a closed connection stays closed; in these states it has kept `snd_una`
  and `snd_nxt` since.
* `Conn.ClosedEarly` — the bytes stay unacknowledged in these states.
* `retransmits_data_iff` — what is retransmitted for them.
-/

namespace PpcaNetwork.TcpStack

namespace Tcb

/-! ## The states after a close -/

/-- Our FIN is sent and not acknowledged. -/
def AwaitsFinAck (t : Tcb) : Prop :=
  t.state = .finWait1 ∨ t.state = .lastAck ∨ t.state = .closing

instance (t : Tcb) : Decidable t.AwaitsFinAck := inferInstanceAs (Decidable (_ ∨ _))

/-- The application has closed the connection. -/
def IsClosed (t : Tcb) : Prop :=
  t.AwaitsFinAck ∨ t.state = .finWait2 ∨ t.state = .timeWait ∨ t.state = .closed

/-- While our FIN is unacknowledged, the counters stay. -/
def SameCounters (t t' : Tcb) : Prop :=
  t'.AwaitsFinAck → t.AwaitsFinAck ∧ t'.sndUna = t.sndUna ∧ t'.sndNxt = t.sndNxt

theorem isClosed_afterSending {t : Tcb} (segs : List OutgoingSegment) (now : Instant) :
    (t.afterSending segs now).IsClosed ↔ t.IsClosed := by
  obtain ⟨r, hr⟩ := exists_afterSending segs now t
  rw [hr]
  exact Iff.rfl

theorem sameCounters_afterSending {t t' : Tcb} (segs : List OutgoingSegment) (now : Instant) :
    t.SameCounters (t'.afterSending segs now) ↔ t.SameCounters t' := by
  obtain ⟨r, hr⟩ := exists_afterSending segs now t'
  rw [hr]
  exact Iff.rfl

theorem counters_bufferData (t : Tcb) (header : TcpHeader) (payload : List UInt8) :
    (t.bufferData header payload).sndUna = t.sndUna ∧
      (t.bufferData header payload).sndNxt = t.sndNxt := by
  unfold bufferData
  split <;> exact ⟨rfl, rfl⟩

/-- Any other state than these three is out of the question for our FIN. -/
theorem sameCounters_of_ne {t t' : Tcb} (h : ¬ t'.AwaitsFinAck) : t.SameCounters t' :=
  fun h' => absurd h' h

theorem sameCounters_bufferData {t : Tcb} (h : t.AwaitsFinAck) (header : TcpHeader)
    (payload : List UInt8) : t.SameCounters (t.bufferData header payload) :=
  fun _ => ⟨h, t.counters_bufferData header payload⟩

/-- A segment does not move a closed connection back, and the counters only when our
FIN is acknowledged. -/
theorem processExistingTcb_isClosed {t : Tcb} (h : t.IsClosed) (header : TcpHeader)
    (payload : List UInt8) (now : Instant) :
    (t.processExistingTcb header payload now).1.IsClosed ∧
      t.SameCounters (t.processExistingTcb header payload now).1 := by
  rcases h with (hst | hst | hst) | hst | hst | hst
  · have hawaits : t.AwaitsFinAck := .inl hst
    have hbuffer : (t.bufferData header payload).IsClosed :=
      .inl (.inl ((state_bufferData ..).trans hst))
    simp only [processExistingTcb, hst, processFinWait1]
    split_ifs
    · exact ⟨.inr (.inr (.inl rfl)), sameCounters_of_ne (by simp [AwaitsFinAck])⟩
    · exact ⟨.inr (.inl (state_bufferData ..)), sameCounters_of_ne (by simp [AwaitsFinAck])⟩
    · exact ⟨hbuffer, sameCounters_bufferData hawaits header payload⟩
    · exact ⟨.inl (.inr (.inr rfl)), fun _ => ⟨hawaits, rfl, rfl⟩⟩
    · exact ⟨hbuffer, sameCounters_bufferData hawaits header payload⟩
  · have hawaits : t.AwaitsFinAck := .inr (.inl hst)
    simp only [processExistingTcb, hst, processLastAck]
    split_ifs
    · exact ⟨.inr (.inr (.inr rfl)), sameCounters_of_ne (by simp [AwaitsFinAck])⟩
    · exact ⟨.inl hawaits, fun _ => ⟨hawaits, rfl, rfl⟩⟩
  · have hawaits : t.AwaitsFinAck := .inr (.inr hst)
    simp only [processExistingTcb, hst, processClosing]
    split_ifs
    · exact ⟨.inr (.inr (.inl rfl)), sameCounters_of_ne (by simp [AwaitsFinAck])⟩
    · exact ⟨.inl hawaits, fun _ => ⟨hawaits, rfl, rfl⟩⟩
  · simp only [processExistingTcb, hst, processFinWait2]
    split_ifs
    · exact ⟨.inr (.inr (.inl rfl)), sameCounters_of_ne (by simp [AwaitsFinAck])⟩
    · exact ⟨.inr (.inl ((state_bufferData ..).trans hst)),
        sameCounters_of_ne (by simp [AwaitsFinAck, hst])⟩
  · simp only [processExistingTcb, hst]
    exact ⟨.inr (.inr (.inl hst)), sameCounters_of_ne (by simp [AwaitsFinAck, hst])⟩
  · simp only [processExistingTcb, hst]
    exact ⟨.inr (.inr (.inr hst)), sameCounters_of_ne (by simp [AwaitsFinAck, hst])⟩

theorem IsClosed.ne_established {t : Tcb} (h : t.IsClosed) : t.state ≠ .established := by
  rcases h with (h | h | h) | h | h | h <;> simp [h]

/-- Closing a connection once more aborts it or does nothing. -/
theorem close_isClosed {t : Tcb} (h : t.IsClosed) (now : Instant) :
    (t.close now).1.IsClosed ∧ t.SameCounters (t.close now).1 := by
  rcases h with (hst | hst | hst) | hst | hst | hst <;> simp only [close, hst]
  · exact ⟨.inr (.inr (.inr rfl)), sameCounters_of_ne (by simp [AwaitsFinAck])⟩
  · exact ⟨.inr (.inr (.inr rfl)), sameCounters_of_ne (by simp [AwaitsFinAck])⟩
  · exact ⟨.inr (.inr (.inr rfl)), sameCounters_of_ne (by simp [AwaitsFinAck])⟩
  · exact ⟨.inr (.inr (.inr rfl)), sameCounters_of_ne (by simp [AwaitsFinAck])⟩
  · exact ⟨.inr (.inr (.inl hst)), sameCounters_of_ne (by simp [AwaitsFinAck, hst])⟩
  · exact ⟨.inr (.inr (.inr hst)), sameCounters_of_ne (by simp [AwaitsFinAck, hst])⟩

/-- **The step.**  A closed connection stays closed, and keeps its counters while our
FIN is unacknowledged. -/
theorem onEvent_isClosed {t : Tcb} (h : t.IsClosed) (e : ConnEvent) :
    (t.onEvent e).IsClosed ∧ t.SameCounters (t.onEvent e) := by
  cases e with
  | send data now =>
    simp only [onEvent, send, if_pos h.ne_established, afterSending_nil]
    exact ⟨h, fun h' => ⟨h', rfl, rfl⟩⟩
  | recv => exact ⟨h, fun h' => ⟨h', rfl, rfl⟩⟩
  | close now =>
    simp only [onEvent, isClosed_afterSending, sameCounters_afterSending]
    exact close_isClosed h now
  | segment header payload now =>
    simp only [onEvent, isClosed_afterSending, sameCounters_afterSending]
    exact processExistingTcb_isClosed h header payload now
  | poll now =>
    obtain ⟨st, r, rto, n, hst | rfl, heq⟩ := t.exists_retransmit now
    · simp only [onEvent, heq, hst]
      exact ⟨h, fun h' => ⟨h', rfl, rfl⟩⟩
    · simp only [onEvent, heq]
      exact ⟨.inr (.inr (.inr rfl)), sameCounters_of_ne (by simp [AwaitsFinAck])⟩

/-! ## Retransmissions -/

/-- A poll retransmits for the connection. -/
def Retransmits (t : Tcb) (now : Instant) : Prop :=
  t.timerFired now = true ∧ t.retransmitCount < maxRetransmits

instance (t : Tcb) (now : Instant) : Decidable (t.Retransmits now) :=
  inferInstanceAs (Decidable (_ ∧ _))

theorem retransmits_iff {t : Tcb} {now : Instant} :
    t.Retransmits now ↔ ∃ seg, (t.retransmit now).2 = some seg := by
  unfold Retransmits retransmit
  split
  · rename_i hfired
    split
    · rename_i hmax
      simp only [hfired, true_and, reduceCtorEq, exists_false, iff_false]
      omega
    · rename_i hmax
      simp only [hfired, true_and, Option.some.injEq, exists_eq', iff_true]
      omega
  · rename_i hfired
    simp [hfired]

/-- While our FIN is unacknowledged, it is what is retransmitted, and it alone. -/
theorem retransmit_of_awaitsFinAck {t : Tcb} (h : t.AwaitsFinAck) {now : Instant}
    {seg : OutgoingSegment} (hseg : (t.retransmit now).2 = some seg) :
    seg.seq = t.sndNxt - 1 ∧ seg.payload = [] := by
  unfold retransmit at hseg
  split at hseg
  · split at hseg
    · exact absurd hseg (by simp)
    · obtain rfl := Option.some.inj hseg
      rcases h with hst | hst | hst <;> simp [buildRetransmit, hst]
  · exact absurd hseg (by simp)

end Tcb

/-! ## The run after the close -/

namespace Conn

/-- The connection has been closed, and as long as our FIN is unacknowledged, so are
bytes before it. -/
def ClosedEarly (c : Conn) : Prop :=
  ∀ t, c.tcb = some t → t.IsClosed ∧
    (t.AwaitsFinAck → t.sndUna ≠ t.sndNxt - 1 ∧ c.unacked ≠ [])

/-- What is retransmitted at a poll starts at `snd_una` and carries all that is
unacknowledged. -/
def RetransmitsData (c : Conn) : ConnEvent → Prop
  | .poll now => ∀ t ∈ c.tcb, t.AwaitsFinAck → ∀ seg ∈ (t.retransmit now).2,
      seg.seq = t.sndUna ∧ c.unacked <+: seg.payload
  | _ => True

/-- Nothing is retransmitted at a poll while our FIN is unacknowledged. -/
def RetransmitsNothing (c : Conn) : ConnEvent → Prop
  | .poll now => ∀ t ∈ c.tcb, t.AwaitsFinAck → ¬ t.Retransmits now
  | _ => True

instance (c : Conn) : (e : ConnEvent) → Decidable (c.RetransmitsData e)
  | .poll now => inferInstanceAs (Decidable (∀ t ∈ c.tcb, t.AwaitsFinAck →
      ∀ seg ∈ (t.retransmit now).2, seg.seq = t.sndUna ∧ c.unacked <+: seg.payload))
  | .send .. | .recv | .close _ | .segment .. => inferInstanceAs (Decidable True)

instance (c : Conn) : (e : ConnEvent) → Decidable (c.RetransmitsNothing e)
  | .poll now => inferInstanceAs (Decidable (∀ t ∈ c.tcb, t.AwaitsFinAck → ¬ t.Retransmits now))
  | .send .. | .recv | .close _ | .segment .. => inferInstanceAs (Decidable True)

/-- Only `Established` adds to the history of what is sent and acknowledged. -/
theorem unacked_record {t : Tcb} (h : t.state ≠ .established) (c : Conn) (e : ConnEvent) :
    (c.record t e).unacked = c.unacked := by
  cases e with
  | send data now => simp [record, unacked, h]
  | segment header payload now => simp [record, unacked, h]
  | _ => rfl

theorem ClosedEarly.step {c : Conn} (h : c.ClosedEarly) (e : ConnEvent) :
    (c.step e).ClosedEarly := by
  intro t' ht'
  unfold Conn.step at ht' ⊢
  cases ht : c.tcb with
  | none =>
    simp only [ht] at ht'
    exact absurd ht' (by simp)
  | some t =>
    obtain ⟨hclosed, hkept⟩ := h t ht
    simp only [ht] at ht' ⊢
    obtain rfl := Tcb.eq_onEvent_of_stepConn ht'
    obtain ⟨hclosed', hsame⟩ := Tcb.onEvent_isClosed hclosed e
    refine ⟨hclosed', ?_⟩
    intro hawaits
    obtain ⟨hbefore, huna, hnxt⟩ := hsame hawaits
    obtain ⟨hne, hdata⟩ := hkept hbefore
    have hhistory := unacked_record hclosed.ne_established c e
    exact ⟨by rw [huna, hnxt]; exact hne, fun hnil => hdata (hhistory.symm.trans hnil)⟩

/-- What the code retransmits is never the data, so the two agree. -/
theorem ClosedEarly.retransmits_iff {c : Conn} (h : c.ClosedEarly) (e : ConnEvent) :
    c.RetransmitsData e ↔ c.RetransmitsNothing e := by
  cases e with
  | poll now =>
    constructor
    · intro hdata t ht hawaits hfires
      obtain ⟨seg, hseg⟩ := Tcb.retransmits_iff.mp hfires
      obtain ⟨hseq, -⟩ := hdata t ht hawaits seg hseg
      obtain ⟨hfin, -⟩ := Tcb.retransmit_of_awaitsFinAck hawaits hseg
      exact ((h t ht).2 hawaits).1 (hseq.symm.trans hfin)
    · intro hnothing t ht hawaits seg hseg
      exact absurd (Tcb.retransmits_iff.mpr ⟨seg, hseg⟩) (hnothing t ht hawaits)
  | _ => exact Iff.rfl

/-- A close with bytes outstanding. -/
theorem closedEarly_close {c : Conn} (hinv : c.SendInv) {t : Tcb} (ht : c.tcb = some t)
    (hst : t.state = .established ∨ t.state = .closeWait) (hdata : t.sndUna ≠ t.sndNxt)
    (now : Instant) : (c.step (.close now)).ClosedEarly := by
  have hwin : SendWindow t c.sent c.acked := (hinv t ht).window hst
  have hunacked : c.unacked ≠ [] := by
    rw [unacked, ← hwin.sendBuffer_eq]
    exact hwin.sendBuffer_ne_nil hdata
  intro t' ht'
  simp only [Conn.step, ht] at ht' ⊢
  obtain rfl := Tcb.eq_onEvent_of_stepConn ht'
  simp only [Tcb.onEvent, Tcb.isClosed_afterSending]
  obtain ⟨r, hr⟩ := Tcb.exists_afterSending (t.close now).2 now (t.close now).1
  rw [hr]
  rcases hst with hst | hst
  · simp only [Tcb.close, hst, Tcb.sendFin]
    exact ⟨.inl (.inl rfl), fun _ => ⟨by simpa using hdata, hunacked⟩⟩
  · simp only [Tcb.close, hst, Tcb.sendFin]
    exact ⟨.inl (.inr (.inl rfl)), fun _ => ⟨by simpa using hdata, hunacked⟩⟩

end Conn

/-- **What is retransmitted after an early close.**  For every run of a connection
that is closed while bytes are unacknowledged, and every continuation: all
retransmissions made while our FIN is unacknowledged start at `snd_una` and carry
the unacknowledged bytes, exactly if there are none. -/
theorem retransmits_data_iff (key : ConnKey) (iss : UInt32) (start closing : Instant)
    (es fs : List ConnEvent) (t : Tcb)
    (ht : (run Conn.step (Conn.opened key iss start) es).tcb = some t)
    (hst : t.state = .established ∨ t.state = .closeWait) (hdata : t.sndUna ≠ t.sndNxt) :
    let c := run Conn.step (Conn.opened key iss start) (es ++ [.close closing])
    Run.Guarded Conn.step Conn.RetransmitsData c fs ↔
      Run.Guarded Conn.step Conn.RetransmitsNothing c fs := by
  intro c
  have hinv : (run Conn.step (Conn.opened key iss start) es).SendInv :=
    Conn.sendInv_run key iss start es
  have hearly : c.ClosedEarly := by
    show (run Conn.step (Conn.opened key iss start) (es ++ [.close closing])).ClosedEarly
    rw [Run.run_append]
    exact Conn.closedEarly_close hinv ht hst hdata closing
  apply Run.guarded_congr Conn.ClosedEarly
  · intro c e h
    exact h.step e
  · intro c e h
    exact h.retransmits_iff e
  · exact hearly

/-- The demo connection after the handshake has sent two bytes. -/
def demoEarlySend : List ConnEvent :=
  [.segment { srcPort := 9999, dstPort := 40000, seq := 5000, ack := 1001, dataOffset := 5,
              flags := tcpSyn ||| tcpAck, window := 65535, checksum := 0, urgent := 0 } [] 0,
    .send [104, 105] 0]

/-- Closed at once, it retransmits nothing for half a second. -/
theorem demo_early_close_quiet :
    Run.Guarded Conn.step Conn.RetransmitsData
      (run Conn.step (Conn.opened demoKey 1000 0) (demoEarlySend ++ [.close 0]))
      [.poll 500000000] :=
  (retransmits_data_iff demoKey 1000 0 0 demoEarlySend [.poll 500000000] demoSentTcb (by decide)
    (by decide) (by decide)).mpr (by decide)

/-- **The bytes are not sent again.**  One second after the close the retransmission
is the FIN alone, behind the two bytes that nobody has acknowledged. -/
theorem demo_data_abandoned :
    let c := run Conn.step (Conn.opened demoKey 1000 0) (demoEarlySend ++ [.close 0])
    c.tcb.map (fun t => (t.state, t.sndUna, t.sndNxt)) = some (.finWait1, 1001, 1004) ∧
      c.unacked = [104, 105] ∧
      c.tcb.bind (fun t => (t.retransmit 1000000000).2) =
        some { flags := tcpFin ||| tcpAck, seq := 1003, ack := 5001, payload := []
               dstPort := 9999 } ∧
      ¬ Run.Guarded Conn.step Conn.RetransmitsData c [.poll 1000000000] := by
  decide

end PpcaNetwork.TcpStack
