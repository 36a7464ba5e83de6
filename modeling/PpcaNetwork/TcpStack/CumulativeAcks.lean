import PpcaNetwork.TcpStack.Replies
import PpcaNetwork.TcpStack.SendSide

/-!
# Cumulative acknowledgements

An acknowledgement number in the window between `snd_una` and `snd_nxt` stands for
everything before it.  `process_existing_tcb` tests for the window with an unsigned
comparison that only the upper end passes, and not at all in `CloseWait`.

* `Tcb.AckInWindow` — the numbers that acknowledge something.
* `Tcb.AckHonoured` — what such a segment has to change, and any other has to leave alone.
* `Tcb.SameSendSide` — the send side and its timer are left alone.
* `ack_honoured_iff` — when the segments of a run are honoured.
-/

namespace PpcaNetwork.TcpStack

namespace Tcb

/-- The number lies in the window: behind `snd_una`, and not behind `snd_nxt`. -/
def AckInWindow (t : Tcb) (ack : UInt32) : Prop :=
  0 < ack - t.sndUna ∧ ack - t.sndUna ≤ t.sndNxt - t.sndUna

instance (t : Tcb) (ack : UInt32) : Decidable (t.AckInWindow ack) :=
  inferInstanceAs (Decidable (_ ∧ _))

/-- `t'` has the send side of `t`, with the same retransmission timer. -/
structure SameSendSide (t t' : Tcb) : Prop where
  sndUna : t'.sndUna = t.sndUna
  sendBuffer : t'.sendBuffer = t.sendBuffer
  retransmitAt : t'.retransmitAt = t.retransmitAt
  retransmitCount : t'.retransmitCount = t.retransmitCount
  rto : t'.rto = t.rto

/-- What becomes of a connection that takes the acknowledgement number as cumulative. -/
structure Acknowledges (t : Tcb) (ack : UInt32) (t' : Tcb) : Prop where
  sndUna : t'.sndUna = ack
  /-- The bytes before the number are removed, and no others. -/
  removed : ∃ bytes, t.sendBuffer = bytes ++ t'.sendBuffer ∧
    bytes.length = (ack - t.sndUna).toNat
  /-- The retransmission state is cleared when nothing is outstanding. -/
  cleared : ack = t.sndNxt → t'.retransmitAt = none ∧ t'.retransmitCount = 0

/-- The number is honoured: taken as cumulative in the window, and ignored outside. -/
def AckHonoured (t : Tcb) (ack : UInt32) (t' : Tcb) : Prop :=
  (t.AckInWindow ack → t.Acknowledges ack t') ∧ (¬ t.AckInWindow ack → t.SameSendSide t')

/-! ## What a segment changes -/

theorem SameSendSide.refl (t : Tcb) : t.SameSendSide t := ⟨rfl, rfl, rfl, rfl, rfl⟩

theorem SameSendSide.bufferData (t : Tcb) (header : TcpHeader) (payload : List UInt8) :
    t.SameSendSide (t.bufferData header payload) := by
  unfold Tcb.bufferData
  split
  · exact ⟨rfl, rfl, rfl, rfl, rfl⟩
  · exact .refl t

/-- In `CloseWait`, no segment touches the send side. -/
theorem SameSendSide.processCloseWait (t : Tcb) (header : TcpHeader) (payload : List UInt8) :
    t.SameSendSide (t.processCloseWait header payload).1 := by
  unfold Tcb.processCloseWait
  split
  · exact .bufferData t header payload
  · exact .refl t

/-- In `Established`, the data of a segment does not. -/
theorem SameSendSide.processEstablished (t : Tcb) (header : TcpHeader) (payload : List UInt8) :
    (t.processAck header).SameSendSide (t.processEstablished header payload).1 := by
  unfold Tcb.processEstablished
  by_cases hacc : header.Occupies payload ∧ header.seq = (t.processAck header).rcvNxt
  · rw [processData_accepted hacc.1 hacc.2]
    exact ⟨rfl, rfl, rfl, rfl, rfl⟩
  · rw [processData_ignored hacc]
    exact .refl _

/-! ## When it is honoured -/

/-- Whoever acknowledges something moves `snd_una`. -/
theorem not_honoured_of_same {t t' : Tcb} {ack : UInt32} (hsame : t.SameSendSide t')
    (hwin : t.AckInWindow ack) : ¬ t.AckHonoured ack t' := by
  intro h
  have huna := (h.1 hwin).sndUna
  rw [hsame.sndUna] at huna
  have hpos := hwin.1
  rw [← huna, sub_self] at hpos
  exact absurd hpos (by decide)

/-- A connection whose send side stays as it is honours exactly the numbers outside the
window. -/
theorem honoured_of_same_iff {t t' : Tcb} {ack : UInt32} (hsame : t.SameSendSide t') :
    t.AckHonoured ack t' ↔ ¬ t.AckInWindow ack := by
  constructor
  · intro h hwin
    exact not_honoured_of_same hsame hwin h
  · intro hwin
    exact ⟨fun h => absurd h hwin, fun _ => hsame⟩

/-- The upper end of the window is a number in it, unless the window is empty. -/
theorem ackInWindow_sndNxt_iff (t : Tcb) : t.AckInWindow t.sndNxt ↔ t.sndNxt ≠ t.sndUna := by
  constructor
  · rintro ⟨hpos, -⟩ heq
    rw [heq, sub_self] at hpos
    exact absurd hpos (by decide)
  · intro hne
    refine ⟨?_, UInt32.le_refl _⟩
    grind

/-- The buffer holds what the accepted acknowledgement removes from it. -/
theorem acknowledges_acknowledged {t : Tcb}
    (hlen : (t.sndNxt - t.sndUna).toNat ≤ t.sendBuffer.length) :
    t.Acknowledges t.sndNxt t.acknowledged where
  sndUna := rfl
  removed := by
    refine ⟨t.sendBuffer.take (t.sndNxt - t.sndUna).toNat, ?_, List.length_take_of_le hlen⟩
    rw [acknowledged, Nat.min_eq_left hlen]
    exact (List.take_append_drop _ _).symm
  cleared := fun _ => ⟨rfl, rfl⟩

theorem Acknowledges.congr {t t' t'' : Tcb} {ack : UInt32} (h : t.Acknowledges ack t')
    (hsame : t'.SameSendSide t'') : t.Acknowledges ack t'' where
  sndUna := hsame.sndUna.trans h.sndUna
  removed := by
    rw [hsame.sendBuffer]
    exact h.removed
  cleared := by
    rw [hsame.retransmitAt, hsame.retransmitCount]
    exact h.cleared

/-- `Established` honours a number in the window only if it is the upper end. -/
theorem honoured_established_iff {t : Tcb} {header : TcpHeader} (hack : header.has tcpAck = true)
    (hlen : (t.sndNxt - t.sndUna).toNat ≤ t.sendBuffer.length) (payload : List UInt8) :
    t.AckHonoured header.ack (t.processEstablished header payload).1 ↔
      (t.AckInWindow header.ack → header.ack = t.sndNxt) := by
  have hdata := SameSendSide.processEstablished t header payload
  by_cases hall : t.AcksAll header ∧ t.sndNxt ≠ t.sndUna
  · obtain ⟨hall, hne⟩ := hall
    rw [processAck_of_acksAll hall hne] at hdata
    have hwin : t.AckInWindow header.ack := hall.2 ▸ t.ackInWindow_sndNxt_iff.mpr hne
    refine iff_of_true ⟨fun _ => ?_, fun hnot => absurd hwin hnot⟩ fun _ => hall.2
    rw [hall.2]
    exact (acknowledges_acknowledged hlen).congr hdata
  · rw [processAck_of_not_acksAll hall] at hdata
    rw [honoured_of_same_iff hdata]
    constructor
    · intro hwin h
      exact absurd h hwin
    · intro himp hwin
      have hend := himp hwin
      rw [hend] at hwin
      exact hall ⟨⟨hack, hend⟩, t.ackInWindow_sndNxt_iff.mp hwin⟩

end Tcb

/-- The bytes in the buffer are those between the counters, as far as 32 bits tell. -/
theorem SendWindow.outstanding_le {t : Tcb} {sent : List UInt8} {acked : Nat}
    (h : SendWindow t sent acked) : (t.sndNxt - t.sndUna).toNat ≤ t.sendBuffer.length := by
  rw [h.toNat_sub, h.sendBuffer_eq, List.length_drop]
  exact Nat.mod_le _ _

/-- **When cumulative acknowledgements are honoured.**  Take any run of the stack, any of its
connections in `Established` or `CloseWait`, and any segment with ACK that `process` looks up
under its key.  Its acknowledgement number is honoured if and only if, when it lies in the
window, the connection is `Established` and the number is the upper end. -/
theorem ack_honoured_iff (ourIp : Ipv4Addr) (start : Instant) (es : List Event)
    (localIp remoteIp : Ipv4Addr) (header : TcpHeader) (payload : List UInt8) (now : Instant)
    (t : Tcb)
    (hget : (run TcpCore.step (.new ourIp start) es).get
      (TcpManager.segmentKey localIp remoteIp header) = some t)
    (hst : t.state = .established ∨ t.state = .closeWait) (hack : header.has tcpAck = true) :
    (∃ t', ((run TcpCore.step (.new ourIp start) es).tcp.process localIp remoteIp header payload
          now).1.get (TcpManager.segmentKey localIp remoteIp header) = some t' ∧
        t.AckHonoured header.ack t') ↔
      (t.AckInWindow header.ack → t.state = .established ∧ header.ack = t.sndNxt) := by
  have hinv := Conn.sendInv_history (TcpManager.segmentKey localIp remoteIp header)
    (.new ourIp start) es
  have hwin : SendWindow t _ _ := (hinv t (TcpCore.history_tcb _ ourIp start es ▸ hget)).window hst
  rw [(TcpManager.process_of_get hget payload now).1]
  simp only [Option.some.injEq, exists_eq_left']
  rcases hst with hst | hst
  · simp only [Tcb.processExistingTcb, hst, true_and]
    exact Tcb.honoured_established_iff hack hwin.outstanding_le payload
  · simp only [Tcb.processExistingTcb, hst, reduceCtorEq, false_and]
    exact Tcb.honoured_of_same_iff (.processCloseWait t header payload)

/-- The demo connection has sent two bytes, and both are acknowledged. -/
theorem demo_all_honoured :
    ∃ t', ((run TcpCore.step (.new demoKey.localIp 0) (demoSecondSend.take 3)).tcp.process
        demoKey.localIp demoKey.remoteIp (demoHeader 5001 1003 tcpAck) [] 0).1.get demoKey =
          some t' ∧ demoSentTcb.AckHonoured 1003 t' :=
  (ack_honoured_iff demoKey.localIp 0 (demoSecondSend.take 3) demoKey.localIp demoKey.remoteIp
    (demoHeader 5001 1003 tcpAck) [] 0 demoSentTcb (by decide) (.inl rfl) (by decide)).mpr
      (by decide)

/-- **A partial acknowledgement is lost.**  The first of the two bytes is acknowledged: the
number lies in the window, and the connection stays as it was. -/
theorem demo_partial_ignored :
    (run TcpCore.step (.new demoKey.localIp 0) (demoSecondSend.take 3)).get demoKey =
        some demoSentTcb ∧
      demoSentTcb.AckInWindow 1002 ∧
      ((run TcpCore.step (.new demoKey.localIp 0) (demoSecondSend.take 3)).tcp.process
        demoKey.localIp demoKey.remoteIp (demoHeader 5001 1002 tcpAck) [] 0).1.get demoKey =
          some demoSentTcb ∧
      ¬ demoSentTcb.AckHonoured 1002 demoSentTcb :=
  ⟨by decide, by decide, by decide, Tcb.not_honoured_of_same (.refl _) (by decide)⟩

end PpcaNetwork.TcpStack
