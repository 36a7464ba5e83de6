import PpcaNetwork.TcpStack.Transitions

/-!
# After our FIN

What `FinWait1`, `FinWait2`, `Closing` and `LastAck` do with a segment, whatever
its numbers and flags.

* `received_after_close_iff` — `rcv_nxt` moves over bytes that were buffered.
* `fin_acknowledged_iff` — a closing state is left when our FIN is acknowledged.
-/

namespace PpcaNetwork.TcpStack

namespace Tcb

/-! ## Receiving after a close -/

/-- `rcv_nxt` has moved only for the segment expected next, and then over its
payload, which is in the buffer now, and over its FIN. -/
def ReceivedInOrder (t : Tcb) (header : TcpHeader) (payload : List UInt8) (t' : Tcb) : Prop :=
  t'.rcvNxt ≠ t.rcvNxt →
    header.seq = t.rcvNxt ∧ t'.recvBuffer = t.recvBuffer ++ payload ∧
      t'.rcvNxt = t.rcvNxt + (segLen payload + header.flagLen tcpFin)

instance (t : Tcb) (header : TcpHeader) (payload : List UInt8) (t' : Tcb) :
    Decidable (t.ReceivedInOrder header payload t') := inferInstanceAs (Decidable (_ → _))

/-- A FIN that is taken comes without data in the segment expected next, or in one
that ends where `rcv_nxt` stands; one that is not taken comes without new data. -/
def FinFits (t : Tcb) (header : TcpHeader) (payload : List UInt8) : Prop :=
  if t.takesFin header then
    (header.seq = t.rcvNxt ∧ payload = []) ∨ header.seq + (segLen payload + 1) = t.rcvNxt
  else header.has tcpFin = true → ¬ (0 < segLen payload ∧ header.seq = t.rcvNxt)

theorem flagLen_of_has {header : TcpHeader} {flag : UInt8} (h : header.has flag = true) :
    header.flagLen flag = 1 := if_pos h

/-- The bytes of the next expected segment are buffered, and `rcv_nxt` moves over
them alone. -/
theorem bufferData_inOrder_iff (t : Tcb) (header : TcpHeader) (payload : List UInt8) :
    t.ReceivedInOrder header payload (t.bufferData header payload) ↔
      (header.has tcpFin = true → ¬ (0 < segLen payload ∧ header.seq = t.rcvNxt)) := by
  unfold bufferData ReceivedInOrder
  by_cases hnext : 0 < segLen payload ∧ header.seq = t.rcvNxt
  · rw [if_pos hnext]
    have hmoves : t.rcvNxt + segLen payload ≠ t.rcvNxt := by
      intro heq
      have hzero : segLen payload = 0 := by simpa using heq
      exact absurd hnext.1 (by rw [hzero]; decide)
    constructor
    · intro h hfin
      obtain ⟨-, -, hnxt⟩ := h hmoves
      rw [flagLen_of_has hfin, add_right_inj] at hnxt
      exact absurd hnxt (by simp)
    · intro h _
      have hfin : ¬ header.has tcpFin = true := fun hfin => h hfin hnext
      have hlen : header.flagLen tcpFin = 0 := if_neg hfin
      exact ⟨hnext.2, rfl, by rw [hlen, add_zero]⟩
  · rw [if_neg hnext]
    constructor
    · intro _ _
      exact hnext
    · intro _ hne
      exact absurd rfl hne

/-- In `FinWait1` and `FinWait2` it is the FIN that must fit. -/
theorem onEvent_inOrder_iff {t : Tcb} (hst : t.state = .finWait1 ∨ t.state = .finWait2)
    (header : TcpHeader) (payload : List UInt8) (now : Instant) :
    t.ReceivedInOrder header payload (t.onEvent (.segment header payload now)) ↔
      t.FinFits header payload := by
  obtain ⟨r, hr⟩ := exists_afterSending (t.processExistingTcb header payload now).2 now
    (t.processExistingTcb header payload now).1
  rw [onEvent, hr, FinFits]
  by_cases htakes : t.takesFin header = true
  · obtain ⟨hnxt, hbuf, -, -⟩ := processExistingTcb_takesFin htakes payload now
    have hfin : header.has tcpFin = true := (Bool.and_eq_true_iff.mp htakes).1
    rw [if_pos htakes]
    simp only [ReceivedInOrder, hnxt, hbuf, flagLen_of_has hfin]
    by_cases hends : header.seq + (segLen payload + 1) = t.rcvNxt
    · exact ⟨fun _ => .inr hends, fun _ hne => absurd hends hne⟩
    · constructor
      · intro h
        obtain ⟨hseq, hdata, -⟩ := h hends
        exact .inl ⟨hseq, by simpa using hdata⟩
      · rintro (⟨hseq, rfl⟩ | hends')
        · intro _
          exact ⟨hseq, by simp, by rw [hseq]⟩
        · exact absurd hends' hends
  · have hnot : t.takesFin header = false := Bool.not_eq_true _ ▸ htakes
    obtain ⟨hnxt, hbuf, -, -⟩ := processExistingTcb_buffers hst hnot payload now
    rw [if_neg htakes, ← bufferData_inOrder_iff]
    simp only [ReceivedInOrder, hnxt, hbuf]

/-! ## The acknowledgement of our FIN -/

/-- The connection has moved on as it does when our FIN is acknowledged. -/
def FinAcked (t t' : Tcb) : Prop :=
  (t.state = .finWait1 ∧ (t'.state = .finWait2 ∨ t'.state = .timeWait)) ∨
    (t.state = .closing ∧ t'.state = .timeWait) ∨ (t.state = .lastAck ∧ t'.state = .closed)

instance (t t' : Tcb) : Decidable (t.FinAcked t') := inferInstanceAs (Decidable (_ ∨ _))

theorem acksAll_of_finWait1 {t : Tcb} (hst : t.state = .finWait1) {header : TcpHeader}
    {payload : List UInt8} {now : Instant}
    (h : (t.processExistingTcb header payload now).1.state = .finWait2 ∨
      (t.processExistingTcb header payload now).1.state = .timeWait) : t.AcksAll header := by
  by_cases htakes : t.takesFin header = true
  · obtain ⟨-, -, -, ⟨-, hst' | hall⟩ | hclosing⟩ :=
      processExistingTcb_takesFin htakes payload now
    · exact absurd (hst.symm.trans hst') (by simp)
    · exact hall
    · rw [hclosing] at h
      simp at h
  · have hnot : t.takesFin header = false := Bool.not_eq_true _ ▸ htakes
    obtain ⟨-, -, -, hsame | ⟨-, hall⟩⟩ :=
      processExistingTcb_buffers (.inl hst) hnot payload now
    · rw [hsame, hst] at h
      simp at h
    · exact hall

/-- `LastAck` is the only closing state that is left without looking at what the
segment acknowledges. -/
theorem onEvent_finAcked_iff (t : Tcb) (header : TcpHeader) (payload : List UInt8)
    (now : Instant) :
    (t.FinAcked (t.onEvent (.segment header payload now)) → t.AcksAll header) ↔
      (t.state = .lastAck → header.has tcpAck = true → header.ack = t.sndNxt) := by
  obtain ⟨r, hr⟩ := exists_afterSending (t.processExistingTcb header payload now).2 now
    (t.processExistingTcb header payload now).1
  rw [onEvent, hr]
  constructor
  · intro h hst hack
    have hclosed : (t.processExistingTcb header payload now).1.state = .closed :=
      (t.state_eq_closed_iff header payload now).mpr (.inr (.inl ⟨hst, hack⟩))
    exact (h (.inr (.inr ⟨hst, hclosed⟩))).2
  · rintro h (⟨hst, hnext⟩ | ⟨hst, hnext⟩ | ⟨hst, hnext⟩)
    · exact acksAll_of_finWait1 hst hnext
    · by_contra hnot
      have hstays : (t.processExistingTcb header payload now).1 = t := by
        simp only [processExistingTcb, hst, processClosing]
        exact congrArg Prod.fst (if_neg hnot)
      rw [hstays, hst] at hnext
      exact absurd hnext (by simp)
    · rcases (t.state_eq_closed_iff header payload now).mp hnext with hc | ⟨-, hack⟩ | ⟨hc, -⟩
      · exact absurd (hst.symm.trans hc) (by simp)
      · exact ⟨hack, h hst hack⟩
      · exact absurd (hst.symm.trans hc) (by simp)

end Tcb

/-! ## Every run -/

/-- **What is lost after an active close.**  In every run of the stack, all
segments that a connection processes in `FinWait1` and `FinWait2` move `rcv_nxt`
over buffered bytes only, exactly if in each of them the FIN fits. -/
theorem received_after_close_iff (ourIp : Ipv4Addr) (start : Instant) (es : List Event)
    (k : ConnKey) :
    Run.Guarded TcpCore.step
        (TcpCore.Processes k fun t header payload t' =>
          t.state = .finWait1 ∨ t.state = .finWait2 → t.ReceivedInOrder header payload t')
        (.new ourIp start) es ↔
      Run.Guarded TcpCore.step
        (TcpCore.Meets k fun t header payload =>
          t.state = .finWait1 ∨ t.state = .finWait2 → t.FinFits header payload)
        (.new ourIp start) es := by
  apply TcpCore.guarded_processes_iff
  intro t header payload now
  exact forall_congr' fun hst => Tcb.onEvent_inOrder_iff hst header payload now

/-- The demo connection is closed; the peer acknowledges the FIN in a segment that
carries two bytes and its own FIN. -/
def demoFinWithData : List Event :=
  demoHandshake ++ [.close demoKey, demoSegment 5001 1002 (tcpFin ||| tcpAck) [104, 105]]

/-- **Two bytes are acknowledged and lost.**  `rcv_nxt` moves over them, and the
buffer stays empty. -/
theorem demo_fin_data_lost :
    ((run TcpCore.step demoStack (demoFinWithData.take 3)).get demoKey).map
        (fun t => (t.state, t.rcvNxt, t.recvBuffer)) = some (.finWait1, 5001, []) ∧
      ((run TcpCore.step demoStack demoFinWithData).get demoKey).map
        (fun t => (t.state, t.rcvNxt, t.recvBuffer)) = some (.timeWait, 5004, []) ∧
      ¬ Run.Guarded TcpCore.step
        (TcpCore.Processes demoKey fun t header payload t' =>
          t.state = .finWait1 ∨ t.state = .finWait2 → t.ReceivedInOrder header payload t')
        demoStack demoFinWithData := by
  decide

/-- **When a closing state is left.**  In every run of the stack, a connection moves
on as if its FIN were acknowledged only for a segment that acknowledges it, exactly
if every acknowledgement that arrives in `LastAck` does. -/
theorem fin_acknowledged_iff (ourIp : Ipv4Addr) (start : Instant) (es : List Event)
    (k : ConnKey) :
    Run.Guarded TcpCore.step
        (TcpCore.Processes k fun t header _ t' => t.FinAcked t' → t.AcksAll header)
        (.new ourIp start) es ↔
      Run.Guarded TcpCore.step
        (TcpCore.Meets k fun t header _ =>
          t.state = .lastAck → header.has tcpAck = true → header.ack = t.sndNxt)
        (.new ourIp start) es := by
  apply TcpCore.guarded_processes_iff
  intro t header payload now
  exact Tcb.onEvent_finAcked_iff t header payload now

/-- The peer of the demo closes first; when the application has closed too, an
acknowledgement arrives that the peer has sent before it got our FIN. -/
def demoStaleAck : List Event :=
  demoHandshake ++
    [demoSegment 5001 1001 (tcpFin ||| tcpAck) [], .close demoKey, demoSegment 5002 1001 tcpAck []]

/-- **The stale acknowledgement ends the connection**, although it does not cover
our FIN. -/
theorem demo_stale_ack_closed :
    ((run TcpCore.step demoStack (demoStaleAck.take 4)).get demoKey).map
        (fun t => (t.state, t.sndNxt)) = some (.lastAck, 1002) ∧
      ((run TcpCore.step demoStack demoStaleAck).get demoKey).map (·.state) = some .closed ∧
      ¬ Run.Guarded TcpCore.step
        (TcpCore.Processes demoKey fun t header _ t' => t.FinAcked t' → t.AcksAll header)
        demoStack demoStaleAck := by
  decide

end PpcaNetwork.TcpStack
