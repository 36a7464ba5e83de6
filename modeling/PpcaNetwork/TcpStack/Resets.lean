import PpcaNetwork.TcpStack.Replies

/-!
# Resets

What a segment with RST does to a connection.

* `Tcb.ResetHonoured` — it ends the connection exactly if it is acceptable, and
  brings neither data nor a reply.
* `reset_honoured_iff` — the segments and states of which that is true.
-/

namespace PpcaNetwork.TcpStack

namespace Tcb

/-- A reset is acceptable in `SynSent` if it acknowledges our SYN, and later if it
is the next expected segment; the connection has ended exactly if it was. -/
def ResetHonoured (t : Tcb) (header : TcpHeader) (t' : Tcb) (segs : List OutgoingSegment) :
    Prop :=
  (t.state = .synSent → (t'.state = .closed ↔ t.AcksAll header)) ∧
    (t.state.isSynchronized = true → t.state ≠ .timeWait →
      (t'.state = .closed ↔ header.seq = t.rcvNxt)) ∧
    t'.recvBuffer = t.recvBuffer ∧ segs = []

/-- The resets for which the code does so, by the state they arrive in. -/
def ResetFits (t : Tcb) (header : TcpHeader) (now : Instant) : Prop :=
  match t.state with
  | .synSent => header.has tcpAck = true ∧ (header.has tcpSyn = true ↔ header.ack ≠ t.sndNxt)
  | .established | .closeWait | .finWait2 | .closing => header.seq ≠ t.rcvNxt
  | .finWait1 => header.seq ≠ t.rcvNxt ∧ t.takesFin header = false
  | .lastAck => header.has tcpAck = true ↔ header.seq = t.rcvNxt
  | .synReceived => t.AcksAll header ∨ t.timerFired now = false
  | .closed | .listen | .timeWait => True

/-! ## State by state -/

section States

variable {t : Tcb} {header : TcpHeader}

/-- The test of `SynSent` for SYN and ACK at once. -/
theorem synAck_iff (header : TcpHeader) :
    header.flags &&& (tcpSyn ||| tcpAck) = tcpSyn ||| tcpAck ↔
      header.has tcpSyn = true ∧ header.has tcpAck = true := by
  have hbits : ∀ f : BitVec 8,
      f &&& 0x12#8 = 0x12#8 ↔ f &&& 0x02#8 ≠ 0#8 ∧ f &&& 0x10#8 ≠ 0#8 := by
    decide
  have hflags := hbits header.flags.toBitVec
  simpa [TcpHeader.has, ← UInt8.toBitVec_inj, tcpSyn, tcpAck] using hflags

/-- In `SynSent` the acknowledgement is only looked at next to a SYN. -/
theorem resetHonoured_synSent (hst : t.state = .synSent) (hrst : header.has tcpRst = true)
    (payload : List UInt8) (now : Instant) :
    t.ResetHonoured header (t.processExistingTcb header payload now).1
        (t.processExistingTcb header payload now).2 ↔ t.ResetFits header now := by
  have hsync : ¬ t.state.isSynchronized = true := by simp [hst, TcpState.isSynchronized]
  simp only [ResetHonoured, ResetFits, hst, AcksAll]
  simp only [processExistingTcb, hst, processSynSent, synAck_iff]
  by_cases hsyn : header.has tcpSyn = true
  · by_cases hack : header.has tcpAck = true
    · rw [if_pos ⟨hsyn, hack⟩]
      by_cases hall : header.ack = t.sndNxt
      · rw [if_pos hall]
        simp [hsyn, hall]
      · rw [if_neg hall]
        simp [hst, hsyn, hack, hall, TcpState.isSynchronized]
    · rw [if_neg fun h => hack h.2, if_pos hrst]
      simp [hack]
  · rw [if_neg fun h => hsyn h.1, if_pos hrst]
    simp [hsyn, TcpState.isSynchronized]

/-- In these states no notice is taken of RST: a reset is honoured only by ignoring
it, when it is not acceptable. -/
theorem resetHonoured_open_iff
    (hst : t.state ∈ [TcpState.established, .closeWait, .finWait1, .finWait2, .closing])
    (payload : List UInt8) (now : Instant) :
    t.ResetHonoured header (t.processExistingTcb header payload now).1
        (t.processExistingTcb header payload now).2 ↔
      header.seq ≠ t.rcvNxt ∧
        (t.processExistingTcb header payload now).1.recvBuffer = t.recvBuffer ∧
        (t.processExistingTcb header payload now).2 = [] := by
  have hsync : t.state.isSynchronized = true ∧ t.state ≠ .timeWait ∧ t.state ≠ .synSent ∧
      t.state ≠ .lastAck ∧ t.state ≠ .closed := by
    simp only [List.mem_cons, List.not_mem_nil, or_false] at hst
    rcases hst with h | h | h | h | h <;> rw [h] <;> decide
  obtain ⟨hsync, hne, hsyn, hlast, hclosed⟩ := hsync
  have hopen : (t.processExistingTcb header payload now).1.state ≠ .closed := by
    intro hend
    rcases (t.state_eq_closed_iff header payload now).mp hend with h | ⟨h, -⟩ | ⟨h, -⟩
    · exact hclosed h
    · exact hlast h
    · exact hsyn h
  simp only [ResetHonoured, hopen, false_iff, hsync, hne, hsyn, false_implies, true_and,
    ne_eq, not_false_eq_true, forall_const]

/-- Out of order, nothing is buffered in the states before our FIN. -/
theorem ignored_of_seq_ne (hseq : header.seq ≠ t.rcvNxt)
    (hst : t.state = .established ∨ t.state = .closeWait) (payload : List UInt8)
    (now : Instant) :
    (t.processExistingTcb header payload now).1.recvBuffer = t.recvBuffer ∧
      (t.processExistingTcb header payload now).2 = [] := by
  rcases hst with hst | hst
  · have hsame : (t.processAck header).rcvNxt = t.rcvNxt ∧
        (t.processAck header).recvBuffer = t.recvBuffer := by
      rcases t.processAck_cases header with heq | ⟨-, heq⟩ <;> rw [heq] <;> exact ⟨rfl, rfl⟩
    simp only [processExistingTcb, hst, processEstablished]
    rw [processData_ignored fun h => hseq (h.2.trans hsame.1)]
    exact ⟨hsame.2, rfl⟩
  · simp only [processExistingTcb, hst, processCloseWait]
    rw [if_neg fun h => hseq h.2]
    exact ⟨rfl, rfl⟩

/-- After our FIN, nothing is buffered out of order, and only a FIN that is taken is
answered. -/
theorem ignored_finWait_iff (hseq : header.seq ≠ t.rcvNxt)
    (hst : t.state = .finWait1 ∨ t.state = .finWait2) (payload : List UInt8) (now : Instant) :
    ((t.processExistingTcb header payload now).1.recvBuffer = t.recvBuffer ∧
      (t.processExistingTcb header payload now).2 = []) ↔ t.takesFin header = false := by
  by_cases htakes : t.takesFin header = true
  · obtain ⟨-, -, hout, -⟩ := processExistingTcb_takesFin htakes payload now
    simp [htakes, hout]
  · have hnot : t.takesFin header = false := Bool.not_eq_true _ ▸ htakes
    obtain ⟨-, hbuf, hout, -⟩ := processExistingTcb_buffers hst hnot payload now
    have hsame : t.bufferData header payload = t := if_neg fun h => hseq h.2
    rw [hsame] at hbuf
    simp [hnot, hbuf, hout]

/-- The exact condition, in every state. -/
theorem resetHonoured_iff (hrst : header.has tcpRst = true) (payload : List UInt8)
    (now : Instant) :
    t.ResetHonoured header (t.processExistingTcb header payload now).1
        (t.processExistingTcb header payload now).2 ↔ t.ResetFits header now := by
  cases hst : t.state with
  | synSent => exact resetHonoured_synSent hst hrst payload now
  | established =>
    rw [resetHonoured_open_iff (by simp [hst])]
    simp only [ResetFits, hst]
    exact ⟨fun h => h.1, fun h => ⟨h, ignored_of_seq_ne h (.inl hst) payload now⟩⟩
  | closeWait =>
    rw [resetHonoured_open_iff (by simp [hst])]
    simp only [ResetFits, hst]
    exact ⟨fun h => h.1, fun h => ⟨h, ignored_of_seq_ne h (.inr hst) payload now⟩⟩
  | finWait1 =>
    rw [resetHonoured_open_iff (by simp [hst])]
    simp only [ResetFits, hst]
    exact and_congr_right fun hseq => ignored_finWait_iff hseq (.inl hst) payload now
  | finWait2 =>
    rw [resetHonoured_open_iff (by simp [hst])]
    simp only [ResetFits, hst]
    refine ⟨fun h => h.1, fun hseq => ⟨hseq, ?_⟩⟩
    exact (ignored_finWait_iff hseq (.inr hst) payload now).mpr (by simp [takesFin, hst, hseq])
  | closing =>
    rw [resetHonoured_open_iff (by simp [hst])]
    simp only [ResetFits, hst]
    refine ⟨fun h => h.1, fun hseq => ⟨hseq, ?_, processExistingTcb_silent (.inl hst) ..⟩⟩
    simp only [processExistingTcb, hst, processClosing]
    split <;> rfl
  | lastAck =>
    simp only [ResetHonoured, ResetFits, hst, state_eq_closed_iff,
      processExistingTcb_silent (.inr (.inl hst)) header payload now]
    simp only [processExistingTcb, hst, processLastAck]
    split <;> simp_all [TcpState.isSynchronized]
  | synReceived =>
    simp only [ResetHonoured, ResetFits, hst, AcksAll, timerFired]
    simp only [processExistingTcb, hst, processSynReceived]
    split_ifs <;> simp_all [TcpState.isSynchronized]
  | closed => simp [ResetHonoured, ResetFits, hst, processExistingTcb, TcpState.isSynchronized]
  | listen => simp [ResetHonoured, ResetFits, hst, processExistingTcb, TcpState.isSynchronized]
  | timeWait => simp [ResetHonoured, ResetFits, hst, processExistingTcb]

end States

end Tcb

/-! ## Every segment with RST -/

/-- **When a reset is honoured.**  For every connection in the table and every
segment with RST that is looked up under its key: it ends the connection exactly if
it is acceptable, and leaves neither data nor a reply, exactly under the condition
`ResetFits` of the connection's state. -/
theorem reset_honoured_iff (m : TcpManager) (localIp remoteIp : Ipv4Addr) (header : TcpHeader)
    (payload : List UInt8) (now : Instant) (t : Tcb)
    (ht : m.get (TcpManager.segmentKey localIp remoteIp header) = some t)
    (hrst : header.has tcpRst = true) :
    (∃ t', (m.process localIp remoteIp header payload now).1.get
          (TcpManager.segmentKey localIp remoteIp header) = some t' ∧
        t.ResetHonoured header t' (m.process localIp remoteIp header payload now).2.2) ↔
      t.ResetFits header now := by
  obtain ⟨hget, hout⟩ := TcpManager.process_of_get ht payload now
  rw [hget, hout]
  simp only [Option.some.injEq, exists_eq_left']
  exact Tcb.resetHonoured_iff hrst payload now

/-- The control block of the demo connection while it waits for its SYN to be
answered. -/
def demoOpeningTcb : Tcb := demoKey.opened 1000 0

/-- A port of the demo's peer that is closed refuses the connection. -/
theorem demo_refused :
    let r := (run TcpCore.step demoStack [.connect demoKey.remoteIp demoKey.remotePort 1000]).tcp
      |>.process demoKey.localIp demoKey.remoteIp (demoHeader 0 1001 (tcpRst ||| tcpAck)) [] 0
    ∃ t', r.1.get demoKey = some t' ∧
      demoOpeningTcb.ResetHonoured (demoHeader 0 1001 (tcpRst ||| tcpAck)) t' r.2.2 :=
  (reset_honoured_iff _ demoKey.localIp demoKey.remoteIp (demoHeader 0 1001 (tcpRst ||| tcpAck))
    [] 0 demoOpeningTcb (by decide) (by decide)).mpr ⟨by decide, by decide⟩

/-- **A reset is taken for data.**  The demo's peer aborts the connection with a reset
that is the next expected segment and carries a byte: the connection stays open, the
byte is buffered and acknowledged. -/
theorem demo_reset_ignored :
    let m := (run TcpCore.step demoStack demoHandshake).tcp
    let r := m.process demoKey.localIp demoKey.remoteIp (demoHeader 5001 1001 tcpRst) [104] 0
    m.get demoKey = some demoOpenTcb ∧
      (r.1.get demoKey).map (fun t => (t.state, t.recvBuffer)) = some (.established, [104]) ∧
      r.2.2 = [{ flags := tcpAck, seq := 1001, ack := 5002, payload := [], dstPort := 9999 }] ∧
      ¬ ∃ t', r.1.get demoKey = some t' ∧
        demoOpenTcb.ResetHonoured (demoHeader 5001 1001 tcpRst) t' r.2.2 := by
  have hout : ((run TcpCore.step demoStack demoHandshake).tcp.process demoKey.localIp
      demoKey.remoteIp (demoHeader 5001 1001 tcpRst) [104] 0).2.2 =
        [{ flags := tcpAck, seq := 1001, ack := 5002, payload := [], dstPort := 9999 }] := by
    decide
  refine ⟨by decide, by decide, hout, ?_⟩
  rintro ⟨t', -, -, -, -, hnil⟩
  rw [hout] at hnil
  exact absurd hnil (by simp)

end PpcaNetwork.TcpStack
