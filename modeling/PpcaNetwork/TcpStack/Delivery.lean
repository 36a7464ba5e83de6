import PpcaNetwork.Lib.Fifo
import PpcaNetwork.TcpStack.EndToEnd

/-!
# Delivery on an orderly network

Two connections of this stack after their handshake, when the network loses nothing and keeps the
order, and no timer runs out: nothing is lost between the applications.

* `Piece` and `IsFin` — the segments on their way, at their positions in the stream.
* `Flow` — what a side has received and what is on its way to it make up the other's stream.
* `Phase` — how far the two sides have come with closing.
* `Phase.step` — every orderly event goes on to such a phase.
* `orderly_delivery` — **delivery**: at any moment all that was sent is received or on its way, and
  when nothing is on its way both sides agree on how far they have closed.
-/

namespace PpcaNetwork.TcpStack

open EndToEnd
open Closing (Wire onWire)

/-! ## Segments on their way -/

/-- A segment without SYN and FIN, whose data, if it has any, is what stands in the stream behind
its first `k` bytes. -/
structure Piece (irs : UInt32) (D : List UInt8) (k : Nat) (m : Wire) : Prop where
  syn : m.1.has tcpSyn = false
  fin : m.1.has tcpFin = false
  bytes : m.2 = (D.drop k).take m.2.length
  le_length : k + m.2.length ≤ D.length
  seq : m.2 ≠ [] → m.1.seq = irs + 1 + UInt32.ofNat k

/-- The FIN behind the last byte. -/
structure IsFin (irs : UInt32) (D : List UInt8) (m : Wire) : Prop where
  syn : m.1.has tcpSyn = false
  fin : m.1.has tcpFin = true
  ack : m.1.has tcpAck = true
  payload : m.2 = []
  seq : m.1.seq = irs + 1 + UInt32.ofNat D.length

/-- An acknowledgement without data. -/
structure IsAck (upTo : UInt32) (m : Wire) : Prop where
  syn : m.1.has tcpSyn = false
  fin : m.1.has tcpFin = false
  ack : m.1.has tcpAck = true
  payload : m.2 = []
  value : m.1.ack = upTo

/-- What is acknowledged are bytes of the stream `D`. -/
def AcksIn (iss : UInt32) (D : List UInt8) (q : List Wire) : Prop :=
  ∀ m ∈ q, ∃ j ≤ D.length, m.1.ack = iss + 1 + UInt32.ofNat j

/-- The segments carry the stream from the position `k` to its end. -/
def CarriesStream (irs : UInt32) (D : List UInt8) (k : Nat) (q : List Wire) : Prop :=
  Along (·.2.length) (Piece irs D) k q D.length

section Pieces

variable {irs iss : UInt32} {D : List UInt8} {k n : Nat} {m : Wire} {q : List Wire}

/-- The bytes that are received and those on their way are the stream. -/
theorem CarriesStream.bytes_eq (h : CarriesStream irs D k q) :
    D.take k ++ q.flatMap Prod.snd = D := by
  induction q generalizing k with
  | nil =>
    have hk : k = D.length := h
    rw [hk, List.take_length, List.flatMap_nil, List.append_nil]
  | cons m q ih =>
    obtain ⟨hm, hrest⟩ := h
    have htake : D.take k ++ m.2 = D.take (k + m.2.length) := by
      conv_lhs => rw [hm.bytes]
      rw [← List.take_add]
    rw [List.flatMap_cons, ← List.append_assoc, htake]
    exact ih hrest

/-- More bytes are sent. -/
theorem Piece.extend (h : Piece irs D k m) (data : List UInt8) : Piece irs (D ++ data) k m := by
  have hle := h.le_length
  refine ⟨h.syn, h.fin, ?_, ?_, h.seq⟩
  · rw [List.drop_append_of_le_length (by omega), List.take_append_of_le_length]
    · exact h.bytes
    · rw [List.length_drop]
      omega
  · rw [List.length_append]
    omega

theorem CarriesStream.send (h : CarriesStream irs D k q) {data : List UInt8} {header : TcpHeader}
    (hsyn : header.has tcpSyn = false) (hfin : header.has tcpFin = false)
    (hseq : header.seq = irs + 1 + UInt32.ofNat D.length) :
    CarriesStream irs (D ++ data) k (q ++ [(header, data)]) := by
  have hpiece : Piece irs (D ++ data) D.length (header, data) := by
    refine ⟨hsyn, hfin, ?_, ?_, fun _ => hseq⟩
    · rw [List.drop_left, List.take_length]
    · rw [List.length_append]
  have hmore := (h.mono fun k m hm => hm.extend data).concat hpiece
  rw [CarriesStream, List.length_append]
  exact hmore

/-- Acknowledgements may stand behind the data. -/
theorem CarriesStream.acks (h : CarriesStream irs D k q) {acks : List Wire} {ack : UInt32}
    (hacks : ∀ m ∈ acks, IsAck ack m) : CarriesStream irs D k (q ++ acks) := by
  refine h.append_of_zero fun m hm => ?_
  have hack := hacks m hm
  refine ⟨⟨hack.syn, hack.fin, ?_, ?_, fun hne => absurd hack.payload hne⟩, ?_⟩
  · rw [hack.payload]
    rfl
  · rw [hack.payload]
    exact le_refl _
  · rw [hack.payload]
    rfl

theorem AcksIn.append {q' : List Wire} (h : AcksIn iss D q) (h' : AcksIn iss D q') :
    AcksIn iss D (q ++ q') := fun m hm => (List.mem_append.mp hm).elim (h m) (h' m)

theorem AcksIn.extend (h : AcksIn iss D q) (data : List UInt8) : AcksIn iss (D ++ data) q := by
  intro m hm
  obtain ⟨j, hj, hack⟩ := h m hm
  refine ⟨j, ?_, hack⟩
  rw [List.length_append]
  omega

theorem acksIn_of_isAck {acks : List Wire} {j : Nat} (hj : j ≤ D.length)
    (h : ∀ m ∈ acks, IsAck (iss + 1 + UInt32.ofNat j) m) : AcksIn iss D acks :=
  fun m hm => ⟨j, hj, (h m hm).value⟩

/-- No such acknowledgement covers the FIN. -/
theorem AcksIn.ne (h : AcksIn iss D q) (hD : D.length < 2 ^ 32 - 2) (hm : m ∈ q) :
    m.1.ack ≠ iss + 1 + UInt32.ofNat D.length + 1 := by
  obtain ⟨j, hj, hack⟩ := h m hm
  intro heq
  rw [hack, add_assoc (iss + 1), add_right_inj, ← UInt32.toNat_inj] at heq
  rw [UInt32.toNat_add, UInt32.toNat_ofNat', UInt32.toNat_ofNat', UInt32.toNat_one,
    Nat.mod_eq_of_lt (by omega : j < 2 ^ 32), Nat.mod_eq_of_lt (by omega : D.length < 2 ^ 32),
    Nat.mod_eq_of_lt (by omega)] at heq
  omega

end Pieces

/-! ## One segment -/

namespace Tcb

variable {irs : UInt32} {D returned : List UInt8} {t : Tcb} {n : Nat} {m : Wire}

theorem zero_lt_segLen_iff {payload : List UInt8} (h : payload.length < 2 ^ 32) :
    0 < segLen payload ↔ payload ≠ [] := by
  rw [UInt32.lt_iff_toNat_lt, segLen, UInt32.toNat_ofNat', Nat.mod_eq_of_lt h]
  simp [List.length_pos_iff]

/-- A piece at `rcv_nxt` is buffered. -/
theorem window_bufferData (h : ReceiveWindow irs D t returned false n) (hm : Piece irs D n m)
    (hD : D.length < 2 ^ 32 - 2) :
    ReceiveWindow irs D (t.bufferData m.1 m.2) returned false (n + m.2.length) := by
  have hle := hm.le_length
  have hpos : 0 < segLen m.2 ↔ m.2 ≠ [] := zero_lt_segLen_iff (by omega)
  by_cases hnil : m.2 = []
  · have hsame : t.bufferData m.1 m.2 = t := by
      rw [bufferData, if_neg fun h => hpos.mp h.1 hnil]
    rw [hsame, hnil]
    exact h
  · have hseq : m.1.seq = t.rcvNxt := by
      rw [hm.seq hnil, h.rcvNxt_eq]
      simp
    rw [bufferData, if_pos ⟨hpos.mpr hnil, hseq⟩]
    refine ⟨hle, ?_, ?_, by rintro ⟨⟩⟩
    · show returned ++ (t.recvBuffer ++ m.2) = _
      rw [← List.append_assoc, h.bytes_eq, List.take_add]
      conv_lhs => rw [hm.bytes]
    · show t.rcvNxt + segLen m.2 = _
      rw [h.rcvNxt_eq, UInt32.ofNat_add, segLen]
      simp only [Bool.false_eq_true, if_false, add_zero, add_assoc]

/-- In `Established` a piece is buffered, whatever it acknowledges, and acknowledged itself. -/
theorem processEstablished_piece (hm : Piece irs D n m) (hD : D.length < 2 ^ 32 - 2)
    (h : ReceiveWindow irs D t returned false n) :
    t.processEstablished m.1 m.2 = ((t.processAck m.1).bufferData m.1 m.2,
      if m.2 = [] then [] else [((t.processAck m.1).bufferData m.1 m.2).ackSegment]) := by
  have hle := hm.le_length
  have hpos : 0 < segLen m.2 ↔ m.2 ≠ [] := zero_lt_segLen_iff (by omega)
  have hrcv : (t.processAck m.1).rcvNxt = t.rcvNxt := by
    rcases t.processAck_cases m.1 with heq | ⟨-, heq⟩ <;> rw [heq]
    rfl
  by_cases hnil : m.2 = []
  · have hocc : ¬ (m.1.Occupies m.2 ∧ m.1.seq = (t.processAck m.1).rcvNxt) := by
      rintro ⟨hocc, -⟩
      simp [TcpHeader.Occupies, hm.syn, hm.fin, hnil] at hocc
    rw [processEstablished, processData_ignored hocc, if_pos hnil, bufferData,
      if_neg fun h => hpos.mp h.1 hnil]
  · have hseq : m.1.seq = (t.processAck m.1).rcvNxt := by
      rw [hm.seq hnil, hrcv, h.rcvNxt_eq]
      simp
    have hocc : m.1.Occupies m.2 := by simp [TcpHeader.Occupies, hpos, hnil]
    have hbuffer : (t.processAck m.1).accepted m.1 m.2 =
        (t.processAck m.1).bufferData m.1 m.2 := by
      rw [bufferData, if_pos ⟨hpos.mpr hnil, hseq⟩]
      simp [accepted, hm.syn, hm.fin, TcpHeader.flagLen, hpos.mpr hnil, hseq]
    rw [processEstablished, processData_accepted hocc hseq, if_neg hnil, hbuffer]

theorem sndNxt_bufferData (t : Tcb) (header : TcpHeader) (payload : List UInt8) :
    (t.bufferData header payload).sndNxt = t.sndNxt := by
  unfold bufferData
  split <;> rfl

theorem sndUna_bufferData (t : Tcb) (header : TcpHeader) (payload : List UInt8) :
    (t.bufferData header payload).sndUna = t.sndUna := by
  unfold bufferData
  split <;> rfl

/-- What an event does to the fields that do not tell the time. -/
structure Became (t : Tcb) (e : ConnEvent) (t' : Tcb) : Prop where
  state : (t.onEvent e).state = t'.state
  sndNxt : (t.onEvent e).sndNxt = t'.sndNxt
  sndUna : (t.onEvent e).sndUna = t'.sndUna
  rcvNxt : (t.onEvent e).rcvNxt = t'.rcvNxt
  recvBuffer : (t.onEvent e).recvBuffer = t'.recvBuffer

theorem became_segment (t : Tcb) (m : Wire) (now : Instant) :
    t.Became (.segment m.1 m.2 now) (t.processExistingTcb m.1 m.2 now).1 := by
  obtain ⟨r, hr⟩ := exists_afterSending (t.processExistingTcb m.1 m.2 now).2 now
    (t.processExistingTcb m.1 m.2 now).1
  constructor <;> rw [onEvent, hr]

theorem became_close (t : Tcb) (now : Instant) : t.Became (.close now) (t.close now).1 := by
  obtain ⟨r, hr⟩ := exists_afterSending (t.close now).2 now (t.close now).1
  constructor <;> rw [onEvent, hr]

theorem became_send (t : Tcb) (data : List UInt8) (now : Instant) :
    t.Became (.send data now) (t.send data).1 := by
  obtain ⟨r, hr⟩ := exists_afterSending (t.send data).2 now (t.send data).1
  constructor <;> rw [onEvent, hr]

/-- An acknowledgement moves `snd_una` to `snd_nxt`, or not at all. -/
theorem processAck_keeps (t : Tcb) (header : TcpHeader) :
    (t.processAck header).state = t.state ∧ (t.processAck header).sndNxt = t.sndNxt ∧
      (t.processAck header).rcvNxt = t.rcvNxt ∧
      (t.processAck header).recvBuffer = t.recvBuffer ∧
      ((t.processAck header).sndUna = t.sndUna ∨ (t.processAck header).sndUna = t.sndNxt) := by
  rcases t.processAck_cases header with heq | ⟨-, heq⟩ <;> rw [heq]
  · exact ⟨rfl, rfl, rfl, rfl, .inl rfl⟩
  · exact ⟨rfl, rfl, rfl, rfl, .inr rfl⟩

theorem sndUna_of_acksAll {header : TcpHeader} (h : t.AcksAll header) :
    (t.processAck header).sndUna = t.sndNxt := by
  by_cases hne : t.sndNxt = t.sndUna
  · rw [processAck_of_not_acksAll fun hall => hall.2 hne, hne]
  · rw [processAck_of_acksAll h hne]
    rfl

/-- The acknowledgement that a connection sends, on the wire. -/
theorem isAck_ackSegment (t : Tcb) (port : UInt16) :
    IsAck t.rcvNxt (t.ackSegment.header port, t.ackSegment.payload) :=
  ⟨(by decide : (tcpAck &&& tcpSyn != 0) = false), (by decide : (tcpAck &&& tcpFin != 0) = false),
    (by decide : (tcpAck &&& tcpAck != 0) = true), rfl, rfl⟩

/-- `Established`: a piece of the stream is buffered and acknowledged. -/
theorem established_piece (hst : t.state = .established) (hm : Piece irs D n m)
    (hD : D.length < 2 ^ 32 - 2) (h : ReceiveWindow irs D t returned false n) (now : Instant) :
    ∃ t', t.Became (.segment m.1 m.2 now) t' ∧ t'.state = .established ∧ t'.sndNxt = t.sndNxt ∧
      ReceiveWindow irs D t' returned false (n + m.2.length) ∧
      (t'.sndUna = t.sndUna ∨ t'.sndUna = t.sndNxt) ∧
      (t.AcksAll m.1 → t'.sndUna = t.sndNxt) ∧
      t.emits (.segment m.1 m.2 now) = if m.2 = [] then [] else [t'.ackSegment] := by
  have hstep : t.processExistingTcb m.1 m.2 now = t.processEstablished m.1 m.2 := by
    simp only [processExistingTcb, hst]
  rw [processEstablished_piece hm hD h] at hstep
  obtain ⟨hstate, hsnd, hrcv, hbuffer, huna⟩ := t.processAck_keeps m.1
  have hwindow := window_bufferData (h.congr hbuffer hrcv) hm hD
  refine ⟨(t.processAck m.1).bufferData m.1 m.2, ?_, ?_, ?_, hwindow, ?_, ?_, ?_⟩
  · have hbecame := t.became_segment m now
    rwa [hstep] at hbecame
  · rw [state_bufferData, hstate, hst]
  · rw [sndNxt_bufferData, hsnd]
  · rwa [sndUna_bufferData]
  · intro hall
    rw [sndUna_bufferData, sndUna_of_acksAll hall]
  · rw [emits, hstep]

/-- `Established`: the FIN. -/
theorem established_fin (hst : t.state = .established) (hm : IsFin irs D m)
    (h : ReceiveWindow irs D t returned false D.length) (now : Instant) :
    ∃ t', t.Became (.segment m.1 m.2 now) t' ∧ t'.state = .closeWait ∧ t'.sndNxt = t.sndNxt ∧
      t'.recvBuffer = t.recvBuffer ∧ t'.rcvNxt = irs + 1 + UInt32.ofNat D.length + 1 ∧
      t.emits (.segment m.1 m.2 now) = [t'.ackSegment] := by
  obtain ⟨hstate, hsnd, hrcv, hbuffer, -⟩ := t.processAck_keeps m.1
  have hseq : m.1.seq = (t.processAck m.1).rcvNxt := by
    rw [hm.seq, hrcv, h.rcvNxt_eq]
    simp
  have hocc : m.1.Occupies m.2 := .inr (.inr hm.fin)
  have hstep : t.processExistingTcb m.1 m.2 now = ((t.processAck m.1).accepted m.1 m.2,
      [((t.processAck m.1).accepted m.1 m.2).ackSegment]) := by
    simp only [processExistingTcb, hst, processEstablished]
    exact processData_accepted hocc hseq
  refine ⟨(t.processAck m.1).accepted m.1 m.2, ?_, ?_, hsnd, ?_, ?_, ?_⟩
  · have hbecame := t.became_segment m now
    rwa [hstep] at hbecame
  · simp [accepted, hm.fin]
  · simp [accepted, hm.payload, segLen, hbuffer]
  · simp [accepted, hm.payload, hm.fin, hm.syn, hm.seq, TcpHeader.flagLen, segLen]
  · rw [emits, hstep]

/-- After our FIN, a piece of the stream is still buffered, but not acknowledged. -/
theorem finWait_piece (hst : t.state = .finWait1 ∨ t.state = .finWait2) (hm : Piece irs D n m)
    (hD : D.length < 2 ^ 32 - 2) (h : ReceiveWindow irs D t returned false n)
    (hack : ¬ t.AcksAll m.1) (now : Instant) :
    ∃ t', t.Became (.segment m.1 m.2 now) t' ∧ t'.state = t.state ∧ t'.sndNxt = t.sndNxt ∧
      ReceiveWindow irs D t' returned false (n + m.2.length) ∧
      t.emits (.segment m.1 m.2 now) = [] := by
  have hnot : ¬ (m.1.has tcpAck = true ∧ m.1.ack = t.sndNxt) := hack
  have hstep : t.processExistingTcb m.1 m.2 now = (t.bufferData m.1 m.2, []) := by
    rcases hst with hst | hst
    · simp only [processExistingTcb, hst, processFinWait1, hm.fin, Bool.false_eq_true, if_false]
      split_ifs with hflag hall
      · exact absurd ⟨hflag, hall⟩ hnot
      · rfl
      · rfl
    · simp only [processExistingTcb, hst, processFinWait2, hm.fin, Bool.false_eq_true, false_and,
        if_false]
  refine ⟨t.bufferData m.1 m.2, ?_, state_bufferData .., sndNxt_bufferData ..,
    window_bufferData h hm hD, ?_⟩
  · have hbecame := t.became_segment m now
    rwa [hstep] at hbecame
  · rw [emits, hstep]

/-- `FinWait1`: the acknowledgement of our FIN. -/
theorem finWait1_ack (hst : t.state = .finWait1) (hm : IsAck t.sndNxt m) (now : Instant) :
    ∃ t', t.Became (.segment m.1 m.2 now) t' ∧ t'.state = .finWait2 ∧ t'.sndNxt = t.sndNxt ∧
      t'.recvBuffer = t.recvBuffer ∧ t'.rcvNxt = t.rcvNxt ∧
      t.emits (.segment m.1 m.2 now) = [] := by
  have hstep : t.processExistingTcb m.1 m.2 now = ({ t with
      sndUna := t.sndNxt
      retransmitAt := none
      retransmitCount := 0
      state := .finWait2 }, []) := by
    simp [processExistingTcb, hst, processFinWait1, hm.ack, hm.value, hm.fin, hm.payload,
      bufferData, segLen]
  refine ⟨{ t with
    sndUna := t.sndNxt
    retransmitAt := none
    retransmitCount := 0
    state := .finWait2 }, ?_, rfl, rfl, rfl, rfl, ?_⟩
  · have hbecame := t.became_segment m now
    rwa [hstep] at hbecame
  · rw [emits, hstep]

/-- `FinWait1`: the FIN of a side that has not heard of ours is thrown away. -/
theorem finWait1_fin (hst : t.state = .finWait1) (hm : IsFin irs D m)
    (hack : m.1.ack ≠ t.sndNxt) (now : Instant) :
    t.Became (.segment m.1 m.2 now) t ∧ t.emits (.segment m.1 m.2 now) = [] := by
  have hstep : t.processExistingTcb m.1 m.2 now = (t, []) := by
    simp [processExistingTcb, hst, processFinWait1, hm.ack, hack, hm.payload, bufferData, segLen]
  refine ⟨?_, ?_⟩
  · have hbecame := t.became_segment m now
    rwa [hstep] at hbecame
  · rw [emits, hstep]

/-- `FinWait2`: the FIN. -/
theorem finWait2_fin (hst : t.state = .finWait2) (hm : IsFin irs D m)
    (h : ReceiveWindow irs D t returned false D.length) (now : Instant) :
    ∃ t', t.Became (.segment m.1 m.2 now) t' ∧ t'.state = .timeWait ∧
      t'.recvBuffer = t.recvBuffer ∧ t.emits (.segment m.1 m.2 now) = [t'.ackSegment] := by
  have hseq : m.1.seq = t.rcvNxt := by
    rw [hm.seq, h.rcvNxt_eq]
    simp
  have htakes : t.takesFin m.1 = true := by simp [takesFin, hm.fin, hst, hseq]
  obtain ⟨-, hbuffer, hout, hend⟩ := processExistingTcb_takesFin htakes m.2 now
  refine ⟨(t.processExistingTcb m.1 m.2 now).1, t.became_segment m now, ?_, hbuffer, hout⟩
  simp [processExistingTcb, hst, processFinWait2, hm.fin, hseq]

/-- `LastAck`: any acknowledgement. -/
theorem lastAck_ack (hst : t.state = .lastAck) (hm : m.1.has tcpAck = true) (now : Instant) :
    ∃ t', t.Became (.segment m.1 m.2 now) t' ∧ t'.state = .closed ∧
      t'.recvBuffer = t.recvBuffer ∧ t.emits (.segment m.1 m.2 now) = [] := by
  have hstep : t.processExistingTcb m.1 m.2 now =
      ({ t with state := .closed, retransmitAt := none }, []) := by
    simp only [processExistingTcb, hst, processLastAck, if_pos hm]
  refine ⟨{ t with state := .closed, retransmitAt := none }, ?_, rfl, rfl, ?_⟩
  · have hbecame := t.became_segment m now
    rwa [hstep] at hbecame
  · rw [emits, hstep]

end Tcb

/-! ## A side and what is on its way to it -/

/-- The connection is in a state, and has sent what its history says, and a FIN if `fin`. -/
structure At (iss : UInt32) (c : Conn) (t : Tcb) (st : TcpState) (fin : Bool) : Prop where
  tcb : c.tcb = some t
  state : t.state = st
  sndNxt : t.sndNxt = iss + 1 + UInt32.ofNat c.sent.length + if fin then 1 else 0

/-- What has been received and what is on its way make up the stream `D`. -/
def Flow (irs : UInt32) (D : List UInt8) (c : Conn) (t : Tcb) (q : List Wire) : Prop :=
  ∃ n, ReceiveWindow irs D t c.returned false n ∧ CarriesStream irs D n q

/-- All of the stream `D` is received. -/
def HasAll (D : List UInt8) (c : Conn) (t : Tcb) : Prop := c.returned ++ t.recvBuffer = D

section Sides

variable {iss irs : UInt32} {D : List UInt8} {c : Conn} {t t' : Tcb} {st st' : TcpState}
  {fin : Bool} {q : List Wire} {m : Wire} {now : Instant}

theorem step_segment (htcb : c.tcb = some t) (m : Wire) (now : Instant) :
    (c.step (.segment m.1 m.2 now)).tcb = some (t.onEvent (.segment m.1 m.2 now)) ∧
      (c.step (.segment m.1 m.2 now)).sent = c.sent ∧
      (c.step (.segment m.1 m.2 now)).returned = c.returned := by
  rw [Conn.step_tcb, htcb]
  refine ⟨rfl, ?_, ?_⟩ <;> simp [Conn.step, htcb, Conn.record]

theorem step_close (htcb : c.tcb = some t) (now : Instant) :
    (c.step (.close now)).tcb = some (t.onEvent (.close now)) ∧
      (c.step (.close now)).sent = c.sent ∧ (c.step (.close now)).returned = c.returned := by
  rw [Conn.step_tcb, htcb]
  refine ⟨rfl, ?_, ?_⟩ <;> simp [Conn.step, htcb, Conn.record]

/-- A segment does not change what is sent. -/
theorem At.segment (h : At iss c t st fin) (hbecame : t.Became (.segment m.1 m.2 now) t')
    (hst : t'.state = st') (hnxt : t'.sndNxt = t.sndNxt) :
    At iss (c.step (.segment m.1 m.2 now)) (t.onEvent (.segment m.1 m.2 now)) st' fin := by
  obtain ⟨htcb, hsent, -⟩ := step_segment h.tcb m now
  refine ⟨htcb, hbecame.state.trans hst, ?_⟩
  rw [hbecame.sndNxt, hnxt, hsent]
  exact h.sndNxt

theorem flow_segment (htcb : c.tcb = some t) (hbecame : t.Became (.segment m.1 m.2 now) t')
    {n : Nat} (hwindow : ReceiveWindow irs D t' c.returned false n) (hq : CarriesStream irs D n q) :
    Flow irs D (c.step (.segment m.1 m.2 now)) (t.onEvent (.segment m.1 m.2 now)) q := by
  obtain ⟨-, -, hreturned⟩ := step_segment htcb m now
  refine ⟨n, ?_, hq⟩
  rw [hreturned]
  exact hwindow.congr hbecame.recvBuffer hbecame.rcvNxt

theorem hasAll_segment (htcb : c.tcb = some t) (hbecame : t.Became (.segment m.1 m.2 now) t')
    (hbuffer : t'.recvBuffer = t.recvBuffer) (h : HasAll D c t) :
    HasAll D (c.step (.segment m.1 m.2 now)) (t.onEvent (.segment m.1 m.2 now)) := by
  obtain ⟨-, -, hreturned⟩ := step_segment htcb m now
  rw [HasAll, hreturned, hbecame.recvBuffer, hbuffer]
  exact h

theorem Flow.hasAll (h : Flow irs D c t []) : HasAll D c t := by
  obtain ⟨n, hwindow, hq⟩ := h
  have hn : n = D.length := hq
  rw [HasAll, hwindow.bytes_eq, hn, List.take_length]

/-- Bytes are handed to the application, or nothing happens. -/
structure Reads (c c' : Conn) : Prop where
  sent : c'.sent = c.sent
  tcb : ∀ t, c.tcb = some t → ∃ t', c'.tcb = some t' ∧ t'.state = t.state ∧
    t'.sndNxt = t.sndNxt ∧ t'.sndUna = t.sndUna ∧ t'.rcvNxt = t.rcvNxt ∧
    c'.returned ++ t'.recvBuffer = c.returned ++ t.recvBuffer

theorem Reads.refl (c : Conn) : Reads c c := ⟨rfl, fun t ht => ⟨t, ht, rfl, rfl, rfl, rfl, rfl⟩⟩

theorem reads_recv (c : Conn) : Reads c (c.step .recv) := by
  cases hc : c.tcb with
  | none =>
    have hsame : c.step .recv = c := by simp only [Conn.step, hc]
    rw [hsame]
    exact .refl c
  | some t =>
    have hstep : c.step .recv =
        { c with returned := c.returned ++ t.drainData.2, tcb := some t.drainData.1 } := by
      simp only [Conn.step, hc]
      rfl
    refine ⟨by rw [hstep], ?_⟩
    rintro t' ht'
    obtain rfl := Option.some.inj (hc.symm.trans ht')
    refine ⟨t.drainData.1, by rw [hstep], rfl, rfl, rfl, rfl, ?_⟩
    rw [hstep]
    exact List.append_nil _

end Sides

/-! ## How far both sides have come -/

section Phases

variable (isX isY isA isB : UInt32)

/-- The side `x` of an open connection; `q` is on its way to it, `q'` to the other side.  Unless
all that it has sent is acknowledged, data or such an acknowledgement is on its way. -/
structure OpenSide (x y : Conn) (t : Tcb) (q q' : List Wire) : Prop where
  self : At isX x t .established false
  flow : Flow isY y.sent x t q
  acks : AcksIn isX x.sent q
  acked : t.sndUna = t.sndNxt ∨ (∃ m ∈ q', m.2 ≠ []) ∨ ∃ m ∈ q, t.AcksAll m.1

/-- The side `x` when both have sent their FIN before they have heard of the other's. -/
structure CrossedSide (x y : Conn) (t : Tcb) (q : List Wire) : Prop where
  self : At isX x t .finWait1 true
  acks : AcksIn isX x.sent q
  rest : (∃ q' m, q = q' ++ [m] ∧ Flow isY y.sent x t q' ∧ IsFin isY y.sent m) ∨
    q = [] ∧ HasAll y.sent x t

/-- The side that has heard of the other's FIN: it is still open, or its own FIN is on its way as
`rest`. -/
inductive HeardSide (y : Conn) (t : Tcb) (rest : List Wire) : Prop
  | waiting (self : At isY y t .closeWait false) (hrest : rest = [])
  | closed {m : Wire} (self : At isY y t .lastAck true) (hm : IsFin isY y.sent m)
    (hrest : rest = [m])

/-- How far two connections have come, of which `a` is the first that was closed; `qa` is on its
way to `a` and `qb` to `b`. -/
inductive Phase (a b : Conn) (qa qb : List Wire) : Prop
  | opened {ta tb : Tcb} (ha : OpenSide isA isB a b ta qa qb) (hb : OpenSide isB isA b a tb qb qa)
  /-- The FIN of `a` is on its way. -/
  | closing {ta tb : Tcb} {q : List Wire} {m : Wire} (ha : At isA a ta .finWait1 true)
    (hb : At isB b tb .established false) (hqa : Flow isB b.sent a ta qa) (hqb : qb = q ++ [m])
    (hq : Flow isA a.sent b tb q) (hm : IsFin isA a.sent m) (acksA : AcksIn isA a.sent qa)
    (acksB : AcksIn isB b.sent qb)
  /-- `b` has heard of the FIN, and `a` has not heard of that. -/
  | heard {ta tb : Tcb} {q rest : List Wire} {m : Wire} (ha : At isA a ta .finWait1 true)
    (hb : HeardSide isB b tb rest) (hqa : qa = q ++ m :: rest) (hqb : qb = [])
    (hq : Flow isB b.sent a ta q) (hm : IsAck ta.sndNxt m) (hall : HasAll a.sent b tb)
    (acksA : AcksIn isA a.sent q)
  | halfClosed {ta tb : Tcb} (ha : At isA a ta .finWait2 true) (hb : HeardSide isB b tb qa)
    (hqb : qb = []) (hq : Flow isB b.sent a ta []) (hall : HasAll a.sent b tb)
  /-- Both FINs are taken. -/
  | finished {ta tb : Tcb} (ha : a.tcb = some ta) (hta : ta.state = .timeWait) (hqa : qa = [])
    (hb : b.tcb = some tb)
    (htb : tb.state = .lastAck ∧ (∃ m, qb = [m] ∧ m.1.has tcpAck = true ∧ m.2 = []) ∨
      tb.state = .closed ∧ qb = [])
    (hallA : HasAll b.sent a ta) (hallB : HasAll a.sent b tb)
  | crossed {ta tb : Tcb} (ha : CrossedSide isA isB a b ta qa) (hb : CrossedSide isB isA b a tb qb)

end Phases

section Steps

variable {isX isY isA isB : UInt32} {a b x y x' y' : Conn} {t ta tb : Tcb} {qa qb q q' : List Wire}

/-! ## Reading -/

theorem At.reads {st : TcpState} {fin : Bool} (h : At isX x t st fin) (hx : Reads x x') :
    ∃ t', At isX x' t' st fin ∧ t'.sndUna = t.sndUna ∧ t'.sndNxt = t.sndNxt ∧
      (∀ {irs D q}, Flow irs D x t q → Flow irs D x' t' q) ∧
      ∀ {D}, HasAll D x t → HasAll D x' t' := by
  obtain ⟨t', htcb, hst, hnxt, huna, hrcv, hbytes⟩ := hx.tcb t h.tcb
  refine ⟨t', ⟨htcb, hst.trans h.state, ?_⟩, huna, hnxt, ?_, ?_⟩
  · rw [hnxt, hx.sent]
    exact h.sndNxt
  · rintro irs D q ⟨n, hwindow, hq⟩
    exact ⟨n, ⟨hwindow.le_length, hbytes.trans hwindow.bytes_eq, hrcv.trans hwindow.rcvNxt_eq,
      hwindow.fin_end⟩, hq⟩
  · intro D hall
    exact hbytes.trans hall

theorem OpenSide.reads (h : OpenSide isX isY x y t q q') (hx : Reads x x') (hy : Reads y y') :
    ∃ t', OpenSide isX isY x' y' t' q q' := by
  obtain ⟨t', hself, huna, hnxt, hflow, -⟩ := h.self.reads hx
  refine ⟨t', hself, hy.sent ▸ hflow h.flow, hx.sent ▸ h.acks, ?_⟩
  rw [huna, hnxt]
  refine h.acked.imp_right (Or.imp_right ?_)
  rintro ⟨m, hm, hall⟩
  exact ⟨m, hm, hall.1, hall.2.trans hnxt.symm⟩

theorem CrossedSide.reads (h : CrossedSide isX isY x y t q) (hx : Reads x x') (hy : Reads y y') :
    ∃ t', CrossedSide isX isY x' y' t' q := by
  obtain ⟨t', hself, -, -, hflow, hhas⟩ := h.self.reads hx
  refine ⟨t', hself, hx.sent ▸ h.acks, ?_⟩
  rcases h.rest with ⟨q', m, hq, hq', hm⟩ | ⟨hq, hall⟩
  · exact .inl ⟨q', m, hq, hy.sent ▸ hflow hq', hy.sent ▸ hm⟩
  · exact .inr ⟨hq, hy.sent ▸ hhas hall⟩

theorem HeardSide.reads (h : HeardSide isY y t q) (hy : Reads y y') :
    ∃ t', HeardSide isY y' t' q ∧ ∀ {D}, HasAll D y t → HasAll D y' t' := by
  cases h with
  | waiting hself hrest =>
    obtain ⟨t', hself', -, -, -, hhas⟩ := hself.reads hy
    exact ⟨t', .waiting hself' hrest, hhas⟩
  | closed hself hm hrest =>
    obtain ⟨t', hself', -, -, -, hhas⟩ := hself.reads hy
    exact ⟨t', .closed hself' (hy.sent ▸ hm) hrest, hhas⟩

/-- The phases do not change when an application reads. -/
theorem Phase.reads (h : Phase isA isB a b qa qb) {a' b' : Conn} (hra : Reads a a')
    (hrb : Reads b b') : Phase isA isB a' b' qa qb := by
  cases h with
  | opened ha hb =>
    obtain ⟨ta', ha'⟩ := ha.reads hra hrb
    obtain ⟨tb', hb'⟩ := hb.reads hrb hra
    exact .opened ha' hb'
  | closing ha hb hqa hqb hq hm acksA acksB =>
    obtain ⟨ta', ha', -, -, hflow, -⟩ := ha.reads hra
    obtain ⟨tb', hb', -, -, hflow', -⟩ := hb.reads hrb
    exact .closing ha' hb' (hrb.sent ▸ hflow hqa) hqb (hra.sent ▸ hflow' hq) (hra.sent ▸ hm)
      (hra.sent ▸ acksA) (hrb.sent ▸ acksB)
  | heard ha hb hqa hqb hq hm hall acksA =>
    obtain ⟨ta', ha', -, hnxt, hflow, -⟩ := ha.reads hra
    obtain ⟨tb', hb', hhas⟩ := hb.reads hrb
    exact .heard ha' hb' hqa hqb (hrb.sent ▸ hflow hq) (hnxt ▸ hm) (hra.sent ▸ hhas hall)
      (hra.sent ▸ acksA)
  | halfClosed ha hb hqb hq hall =>
    obtain ⟨ta', ha', -, hnxt, hflow, -⟩ := ha.reads hra
    obtain ⟨tb', hb', hhas⟩ := hb.reads hrb
    exact .halfClosed ha' hb' hqb (hrb.sent ▸ hflow hq) (hra.sent ▸ hhas hall)
  | finished ha hta hqa hb htb hallA hallB =>
    obtain ⟨ta', ha', hsta, -, -, -, hbytes⟩ := hra.tcb _ ha
    obtain ⟨tb', hb', hstb, -, -, -, hbytes'⟩ := hrb.tcb _ hb
    refine .finished ha' (hsta.trans hta) hqa hb' (hstb.symm ▸ htb) ?_ ?_
    · exact hrb.sent ▸ hbytes.trans hallA
    · exact hra.sent ▸ hbytes'.trans hallB
  | crossed ha hb =>
    obtain ⟨ta', ha'⟩ := ha.reads hra hrb
    obtain ⟨tb', hb'⟩ := hb.reads hrb hra
    exact .crossed ha' hb'

/-! ## Receiving -/

section Receive

variable {m : Wire} {n : Nat} {D : List UInt8} {irs iss : UInt32} (port : Side → UInt16)
  (side : Side) (now : Instant)

/-- What a connection in `Established` answers to a piece are acknowledgements. -/
theorem isAck_of_emits {t' : Tcb} (hwindow : ReceiveWindow irs D t' x.returned false n)
    (hout : t.emits (.segment m.1 m.2 now) = if m.2 = [] then [] else [t'.ackSegment]) :
    ∀ m' ∈ onWire port side (t.emits (.segment m.1 m.2 now)),
      IsAck (irs + 1 + UInt32.ofNat n) m' := by
  intro m' hm'
  have hrcv : t'.rcvNxt = irs + 1 + UInt32.ofNat n := by
    rw [hwindow.rcvNxt_eq]
    simp
  rw [hout] at hm'
  by_cases hnil : m.2 = []
  · rw [if_pos hnil] at hm'
    cases hm'
  · rw [if_neg hnil] at hm'
    rw [List.mem_singleton.mp hm', ← hrcv]
    exact t'.isAck_ackSegment (port side)

/-- Behind the last segment with data the stream ends. -/
theorem CarriesStream.end_of_empty (h : CarriesStream irs D n q) (hempty : ∀ m ∈ q, m.2 = []) :
    n = D.length := by
  induction q generalizing n with
  | nil => exact h
  | cons m q ih =>
    have hrest : CarriesStream irs D (n + m.2.length) q := h.2
    rw [hempty m (by simp), List.length_nil, Nat.add_zero] at hrest
    exact ih hrest fun x hx => hempty x (List.mem_cons_of_mem _ hx)

/-- A side of an open connection receives a segment. -/
theorem OpenSide.receive (ha : OpenSide isA isB a b ta (m :: q) qb)
    (hb : OpenSide isB isA b a tb qb (m :: q)) (hD : b.sent.length < 2 ^ 32 - 2) :
    OpenSide isA isB (a.step (.segment m.1 m.2 now)) b (ta.onEvent (.segment m.1 m.2 now)) q
        (qb ++ onWire port side (ta.emits (.segment m.1 m.2 now))) ∧
      OpenSide isB isA b (a.step (.segment m.1 m.2 now)) tb
        (qb ++ onWire port side (ta.emits (.segment m.1 m.2 now))) q := by
  obtain ⟨n, hwindow, hm, hq⟩ := ha.flow
  obtain ⟨t', hbecame, hst, hnxt, hwindow', huna, hacks, hout⟩ :=
    Tcb.established_piece ha.self.state hm hD hwindow now
  obtain ⟨-, hsent, -⟩ := step_segment ha.self.tcb m now
  have hout' := isAck_of_emits port side now hwindow' hout
  have hsame : (ta.onEvent (.segment m.1 m.2 now)).sndNxt = ta.sndNxt := hbecame.sndNxt.trans hnxt
  constructor
  · refine ⟨ha.self.segment hbecame hst hnxt, flow_segment ha.self.tcb hbecame hwindow' hq, ?_, ?_⟩
    · rw [hsent]
      exact fun x hx => ha.acks x (List.mem_cons_of_mem _ hx)
    · rw [hbecame.sndUna, hsame]
      rcases ha.acked with hdone | ⟨x, hx, hne⟩ | ⟨x, hx, hall⟩
      · left
        rcases huna with huna | huna
        · exact huna.trans hdone
        · exact huna
      · exact .inr (.inl ⟨x, List.mem_append_left _ hx, hne⟩)
      · rcases List.mem_cons.mp hx with rfl | hx
        · exact .inl (hacks hall)
        · exact .inr (.inr ⟨x, hx, hall.1, hall.2.trans hsame.symm⟩)
  · refine ⟨hb.self, ?_, hb.acks.append (acksIn_of_isAck hm.le_length hout'), ?_⟩
    · rw [hsent]
      obtain ⟨k, hk, hcarries⟩ := hb.flow
      exact ⟨k, hk, hcarries.acks hout'⟩
    · rcases hb.acked with hdone | ⟨x, hx, hne⟩ | ⟨x, hx, hall⟩
      · exact .inl hdone
      · by_cases hmore : ∃ x ∈ q, x.2 ≠ []
        · exact .inr (.inl hmore)
        · have hnil : m.2 ≠ [] := by
            rcases List.mem_cons.mp hx with rfl | hx
            · exact hne
            · exact absurd ⟨x, hx, hne⟩ hmore
          have hend : n + m.2.length = b.sent.length := by
            refine CarriesStream.end_of_empty hq fun x hx => ?_
            by_contra hx'
            exact hmore ⟨x, hx, hx'⟩
          have hlast : (t'.ackSegment.header (port side), t'.ackSegment.payload) ∈
              onWire port side (ta.emits (.segment m.1 m.2 now)) := by
            rw [hout, if_neg hnil]
            exact List.mem_singleton_self _
          have hvalue := hout' _ hlast
          refine .inr (.inr ⟨_, List.mem_append_right _ hlast, hvalue.ack, ?_⟩)
          rw [hvalue.value, hend, hb.self.sndNxt]
          simp
      · exact .inr (.inr ⟨x, List.mem_append_left _ hx, hall⟩)

theorem receive_of_tcb (htcb : x.tcb = some t) (m : Wire) : EndToEnd.receive port side now x m =
    (x.step (.segment m.1 m.2 now), onWire port side (t.emits (.segment m.1 m.2 now))) := by
  rw [EndToEnd.receive, htcb]
  simp only [Conn.emits, htcb, Option.elim_some]

/-- Acknowledgements of the stream do not acknowledge the FIN behind it. -/
theorem At.not_acksAll {st : TcpState} (h : At isX x t st true) (hD : x.sent.length < 2 ^ 32 - 2)
    (hacks : AcksIn isX x.sent q) (hm : m ∈ q) : ¬ t.AcksAll m.1 := by
  rintro ⟨-, hack⟩
  refine hacks.ne hD hm (hack.trans ?_)
  rw [h.sndNxt]
  simp

/-- The closed side receives what the other sent before it heard of the FIN. -/
theorem At.receive_finWait1 (ha : At isA a ta .finWait1 true) (hD : a.sent.length < 2 ^ 32 - 2)
    (hDb : b.sent.length < 2 ^ 32 - 2) (hflow : Flow isB b.sent a ta (m :: q))
    (hacks : AcksIn isA a.sent qa) (hm : m ∈ qa) :
    At isA (a.step (.segment m.1 m.2 now)) (ta.onEvent (.segment m.1 m.2 now)) .finWait1 true ∧
      Flow isB b.sent (a.step (.segment m.1 m.2 now)) (ta.onEvent (.segment m.1 m.2 now)) q ∧
      (ta.onEvent (.segment m.1 m.2 now)).sndNxt = ta.sndNxt ∧
      ta.emits (.segment m.1 m.2 now) = [] := by
  obtain ⟨n, hwindow, hpiece, hq⟩ := hflow
  obtain ⟨t', hbecame, hst, hnxt, hwindow', hout⟩ := Tcb.finWait_piece (.inl ha.state) hpiece hDb
    hwindow (ha.not_acksAll hD hacks hm) now
  exact ⟨ha.segment hbecame (hst.trans ha.state) hnxt, flow_segment ha.tcb hbecame hwindow' hq,
    hbecame.sndNxt.trans hnxt, hout⟩

/-- A side receives a segment when the FINs have crossed. -/
theorem CrossedSide.receive (ha : CrossedSide isA isB a b ta (m :: q))
    (hb : CrossedSide isB isA b a tb qb) (hDa : a.sent.length < 2 ^ 32 - 2)
    (hDb : b.sent.length < 2 ^ 32 - 2) :
    ∃ t', CrossedSide isA isB (a.step (.segment m.1 m.2 now)) b t' q ∧
      CrossedSide isB isA b (a.step (.segment m.1 m.2 now)) tb
        (qb ++ onWire port side (ta.emits (.segment m.1 m.2 now))) := by
  obtain ⟨-, hsent, -⟩ := step_segment ha.self.tcb m now
  have hothers : AcksIn isA (a.step (.segment m.1 m.2 now)).sent q := by
    rw [hsent]
    exact fun x hx => ha.acks x (List.mem_cons_of_mem _ hx)
  have hother : CrossedSide isB isA b (a.step (.segment m.1 m.2 now)) tb qb := by
    refine ⟨hb.self, hb.acks, ?_⟩
    rw [hsent]
    exact hb.rest
  rcases ha.rest with ⟨q', fin, hq, hflow, hfin⟩ | ⟨hnil, -⟩
  · cases q' with
    | nil =>
      obtain ⟨rfl, rfl⟩ := List.cons.inj hq
      have hack := ha.self.not_acksAll hDa ha.acks (m := m) (by simp)
      obtain ⟨hbecame, hout⟩ := Tcb.finWait1_fin ha.self.state hfin
        (fun hvalue => hack ⟨hfin.ack, hvalue⟩) now
      rw [hout, onWire, List.map_nil, List.append_nil]
      exact ⟨_, ⟨ha.self.segment hbecame ha.self.state rfl, hothers,
        .inr ⟨rfl, hasAll_segment ha.self.tcb hbecame rfl hflow.hasAll⟩⟩, hother⟩
    | cons x q' =>
      obtain ⟨rfl, rfl⟩ := List.cons.inj hq
      obtain ⟨ha', hflow', -, hout⟩ := ha.self.receive_finWait1 now hDa hDb hflow ha.acks (by simp)
      rw [hout, onWire, List.map_nil, List.append_nil]
      exact ⟨_, ⟨ha', hothers, .inl ⟨q', fin, rfl, hflow', hfin⟩⟩, hother⟩
  · cases hnil

/-- The side that was closed first receives a segment. -/
theorem Phase.receive_first (h : Phase isA isB a b (m :: q) qb) (hDa : a.sent.length < 2 ^ 32 - 2)
    (hDb : b.sent.length < 2 ^ 32 - 2) :
    Phase isA isB (EndToEnd.receive port side now a m).1 b q
      (qb ++ (EndToEnd.receive port side now a m).2) := by
  cases h with
  | opened ha hb =>
    rw [receive_of_tcb port side now ha.self.tcb]
    obtain ⟨ha', hb'⟩ := ha.receive port side now hb hDb
    exact .opened ha' hb'
  | closing ha hb hqa hqb hq hm acksA acksB =>
    rw [receive_of_tcb port side now ha.tcb]
    obtain ⟨ha', hflow, -, hout⟩ := ha.receive_finWait1 now hDa hDb hqa acksA (by simp)
    obtain ⟨-, hsent, -⟩ := step_segment ha.tcb m now
    rw [hout, onWire, List.map_nil, List.append_nil]
    refine .closing ha' hb hflow hqb ?_ ?_ ?_ acksB
    · rw [hsent]
      exact hq
    · rw [hsent]
      exact hm
    · rw [hsent]
      exact fun x hx => acksA x (List.mem_cons_of_mem _ hx)
  | @heard ta tb q' rest m' ha hb hqa hqb hq hm hall acksA =>
    rw [receive_of_tcb port side now ha.tcb, hqb]
    obtain ⟨-, hsent, -⟩ := step_segment ha.tcb m now
    cases q' with
    | nil =>
      obtain ⟨rfl, rfl⟩ := List.cons.inj hqa
      obtain ⟨t', hbecame, hst, hnxt, hbuffer, hrcv, hout⟩ := Tcb.finWait1_ack ha.state hm now
      obtain ⟨n, hwindow, hend⟩ := hq
      rw [hout]
      refine .halfClosed (ha.segment hbecame hst hnxt) hb rfl
        (flow_segment ha.tcb hbecame (hwindow.congr hbuffer hrcv) hend) ?_
      rw [hsent]
      exact hall
    | cons x q' =>
      obtain ⟨rfl, rfl⟩ := List.cons.inj hqa
      obtain ⟨ha', hflow, hnxt, hout⟩ := ha.receive_finWait1 now hDa hDb hq acksA (by simp)
      rw [hout]
      refine .heard ha' hb rfl rfl hflow (hnxt ▸ hm) ?_ ?_
      · rw [hsent]
        exact hall
      · rw [hsent]
        exact fun x hx => acksA x (List.mem_cons_of_mem _ hx)
  | halfClosed ha hb hqb hq hall =>
    rw [receive_of_tcb port side now ha.tcb, hqb]
    obtain ⟨-, hsent, -⟩ := step_segment ha.tcb m now
    cases hb with
    | waiting hself hrest => cases hrest
    | closed hself hm hrest =>
      obtain ⟨rfl, rfl⟩ := List.cons.inj hrest
      obtain ⟨n, hwindow, hend⟩ := hq
      have hn : n = b.sent.length := hend
      obtain ⟨t', hbecame, hst, hbuffer, hout⟩ :=
        Tcb.finWait2_fin ha.state hm (hn ▸ hwindow) now
      rw [hout]
      have hallA : HasAll b.sent a _ := Flow.hasAll ⟨n, hwindow, hend⟩
      refine .finished (step_segment ha.tcb m now).1 (hbecame.state.trans hst) rfl hself.tcb
        (.inl ⟨hself.state, _, rfl, (t'.isAck_ackSegment (port side)).ack, rfl⟩)
        (hasAll_segment ha.tcb hbecame hbuffer hallA) ?_
      rw [hsent]
      exact hall
  | finished ha hta hqa hb htb hallA hallB => cases hqa
  | crossed ha hb =>
    rw [receive_of_tcb port side now ha.self.tcb]
    obtain ⟨_, ha', hb'⟩ := ha.receive port side now hb hDa hDb
    exact .crossed ha' hb'

/-- The other side receives a segment. -/
theorem Phase.receive_second (h : Phase isA isB a b qa (m :: q)) (hDa : a.sent.length < 2 ^ 32 - 2)
    (hDb : b.sent.length < 2 ^ 32 - 2) :
    Phase isA isB a (EndToEnd.receive port side now b m).1
      (qa ++ (EndToEnd.receive port side now b m).2) q := by
  cases h with
  | opened ha hb =>
    rw [receive_of_tcb port side now hb.self.tcb]
    obtain ⟨hb', ha'⟩ := hb.receive port side now ha hDa
    exact .opened ha' hb'
  | @closing ta tb q' fin ha hb hqa hqb hq hm acksA acksB =>
    rw [receive_of_tcb port side now hb.tcb]
    obtain ⟨-, hsent, -⟩ := step_segment hb.tcb m now
    cases q' with
    | nil =>
      obtain ⟨rfl, rfl⟩ := List.cons.inj hqb
      obtain ⟨n, hwindow, hend⟩ := hq
      have hn : n = a.sent.length := hend
      obtain ⟨t', hbecame, hst, hnxt, hbuffer, hrcv, hout⟩ :=
        Tcb.established_fin hb.state hm (hn ▸ hwindow) now
      have hack : IsAck ta.sndNxt (t'.ackSegment.header (port side), t'.ackSegment.payload) := by
        have hvalue := t'.isAck_ackSegment (port side)
        rw [hrcv] at hvalue
        rw [ha.sndNxt]
        exact hvalue
      have hall : HasAll a.sent b _ := Flow.hasAll ⟨n, hwindow, hend⟩
      rw [hout]
      exact .heard ha (.waiting (hb.segment hbecame hst hnxt) rfl) rfl rfl (hsent ▸ hqa) hack
        (hasAll_segment hb.tcb hbecame hbuffer hall) acksA
    | cons x q' =>
      obtain ⟨rfl, rfl⟩ := List.cons.inj hqb
      obtain ⟨n, hwindow, hpiece, hcarries⟩ := hq
      obtain ⟨t', hbecame, hst, hnxt, hwindow', -, -, hout⟩ :=
        Tcb.established_piece hb.state hpiece hDa hwindow now
      have hout' := isAck_of_emits port side now hwindow' hout
      obtain ⟨k, hk, hqa⟩ := hqa
      refine .closing ha (hb.segment hbecame hst hnxt) ⟨k, hsent ▸ hk, ?_⟩ rfl
        (flow_segment hb.tcb hbecame hwindow' hcarries) hm
        (acksA.append (acksIn_of_isAck hpiece.le_length hout')) ?_
      · rw [hsent]
        exact hqa.acks hout'
      · rw [hsent]
        exact fun y hy => acksB y (List.mem_cons_of_mem _ hy)
  | heard ha hb hqa hqb hq hm hall acksA => cases hqb
  | halfClosed ha hb hqb hq hall => cases hqb
  | finished ha hta hqa hb htb hallA hallB =>
    rw [receive_of_tcb port side now hb]
    obtain ⟨htcb, hsent, -⟩ := step_segment hb m now
    rcases htb with ⟨htb, x, hx, hack, -⟩ | ⟨-, hnil⟩
    · obtain ⟨rfl, rfl⟩ := List.cons.inj hx
      obtain ⟨t', hbecame, hst, hbuffer, hout⟩ := Tcb.lastAck_ack htb hack now
      rw [hout, hqa]
      exact .finished ha hta rfl htcb (.inr ⟨hbecame.state.trans hst, rfl⟩) (hsent ▸ hallA)
        (hasAll_segment hb hbecame hbuffer hallB)
    · cases hnil
  | crossed ha hb =>
    rw [receive_of_tcb port side now hb.self.tcb]
    obtain ⟨_, hb', ha'⟩ := hb.receive port side now ha hDb hDa
    exact .crossed ha' hb'

end Receive

/-! ## Sending and closing -/

section Act

variable {D : List UInt8} (port : Side → UInt16) (side : Side) (now : Instant)

theorem act_of_tcb (htcb : x.tcb = some t) (call : Call) : EndToEnd.act port side x call =
    (x.step call.event, onWire port side (t.emits call.event)) := by
  rw [EndToEnd.act]
  simp only [Conn.emits, htcb, Option.elim_some]

/-- The other side has sent more. -/
theorem Flow.extend {irs : UInt32} {data : List UInt8} (h : Flow irs D x t q)
    (hcarries : ∀ {k}, CarriesStream irs D k q → CarriesStream irs (D ++ data) k q') :
    Flow irs (D ++ data) x t q' := by
  obtain ⟨n, hwindow, hq⟩ := h
  refine ⟨n, ⟨?_, ?_, hwindow.rcvNxt_eq, by rintro ⟨⟩⟩, hcarries hq⟩
  · rw [List.length_append]
    exact hwindow.le_length.trans (Nat.le_add_right ..)
  · rw [hwindow.bytes_eq, List.take_append_of_le_length hwindow.le_length]

theorem Flow.ack_le (h : Flow isY D x t q) :
    ∃ j ≤ D.length, t.rcvNxt = isY + 1 + UInt32.ofNat j := by
  obtain ⟨n, hwindow, -⟩ := h
  exact ⟨n, hwindow.le_length, by rw [hwindow.rcvNxt_eq]; simp⟩

/-- In `Established`, what the application passes to `send` is sent. -/
theorem At.send (h : At isX x t .established false) (hflow : Flow isY D x t q)
    (data : List UInt8) :
    ∃ m, onWire port side (t.emits (.send data now)) = [m] ∧ m.2 = data ∧
      At isX (x.step (.send data now)) (t.onEvent (.send data now)) .established false ∧
      (x.step (.send data now)).sent = x.sent ++ data ∧
      Flow isY D (x.step (.send data now)) (t.onEvent (.send data now)) q ∧
      (t.onEvent (.send data now)).sndUna = t.sndUna ∧
      (t.onEvent (.send data now)).sndNxt = t.sndNxt + segLen data ∧
      (∃ j ≤ D.length, m.1.ack = isY + 1 + UInt32.ofNat j) ∧
      ∀ {k q}, CarriesStream isX x.sent k q → CarriesStream isX (x.sent ++ data) k (q ++ [m]) := by
  have hopen : ¬ t.state ≠ .established := fun hne => hne h.state
  have hbecame := t.became_send data now
  have hstep : t.send data =
      ({ t with sndNxt := t.sndNxt + segLen data, sendBuffer := t.sendBuffer ++ data },
        [{ flags := tcpPsh ||| tcpAck, seq := t.sndNxt, ack := t.rcvNxt, payload := data,
           dstPort := t.remotePort }]) := by
    rw [Tcb.send, if_neg hopen]
  rw [hstep] at hbecame
  have hconn : (x.step (.send data now)).tcb = some (t.onEvent (.send data now)) ∧
      (x.step (.send data now)).sent = x.sent ++ data ∧
      (x.step (.send data now)).returned = x.returned := by
    rw [Conn.step_tcb, h.tcb]
    refine ⟨rfl, ?_, ?_⟩ <;> simp [Conn.step, h.tcb, Conn.record, h.state]
  have hnxt : t.sndNxt = isX + 1 + UInt32.ofNat x.sent.length := by
    rw [h.sndNxt]
    simp
  refine ⟨_, by rw [Tcb.emits, hstep]; rfl, rfl, ⟨hconn.1, hbecame.state.trans h.state, ?_⟩,
    hconn.2.1, ?_, hbecame.sndUna, hbecame.sndNxt, hflow.ack_le, ?_⟩
  · rw [hbecame.sndNxt, hconn.2.1, List.length_append, UInt32.ofNat_add]
    show t.sndNxt + segLen data = _
    rw [hnxt, segLen]
    simp only [Bool.false_eq_true, if_false, add_zero, add_assoc]
  · obtain ⟨n, hwindow, hq⟩ := hflow
    exact ⟨n, hconn.2.2.symm ▸ hwindow.congr hbecame.recvBuffer hbecame.rcvNxt, hq⟩
  · intro k q hq
    exact hq.send (by decide : ((tcpPsh ||| tcpAck) &&& tcpSyn != 0) = false)
      (by decide : ((tcpPsh ||| tcpAck) &&& tcpFin != 0) = false) hnxt

/-- In every other state nothing happens. -/
theorem reads_send (htcb : x.tcb = some t) (hst : t.state ≠ .established) (data : List UInt8) :
    Reads x (x.step (.send data now)) ∧ t.emits (.send data now) = [] := by
  have hnothing : t.send data = (t, []) := by rw [Tcb.send, if_pos hst]
  have hsame : x.step (.send data now) = x := by
    have hevent : t.onEvent (.send data now) = t := by
      rw [Tcb.onEvent, hnothing]
      rfl
    have hentry : Tcb.stepConn x.tcb (.send data now) = x.tcb := by
      rw [htcb]
      exact congrArg some hevent
    simp only [Conn.step, htcb, Conn.record, if_neg hst]
    rw [← htcb, hentry]
  exact ⟨hsame.symm ▸ Reads.refl x, by rw [Tcb.emits, hnothing]⟩

/-- The application closes, in `Established` or in `CloseWait`. -/
theorem At.close {st next : TcpState} (h : At isX x t st false)
    (hst : st = .established ∧ next = .finWait1 ∨ st = .closeWait ∧ next = .lastAck) :
    ∃ m, onWire port side (t.emits (.close now)) = [m] ∧ IsFin isX x.sent m ∧
      m.1.ack = t.rcvNxt ∧ At isX (x.step (.close now)) (t.onEvent (.close now)) next true ∧
      (∀ {irs D q}, Flow irs D x t q →
        Flow irs D (x.step (.close now)) (t.onEvent (.close now)) q) ∧
      ∀ {D}, HasAll D x t → HasAll D (x.step (.close now)) (t.onEvent (.close now)) := by
  obtain ⟨htcb, hsent, hreturned⟩ := step_close h.tcb now
  have hbecame := t.became_close now
  have hstep : t.close now = t.sendFin next now := by
    rcases hst with ⟨rfl, rfl⟩ | ⟨rfl, rfl⟩
    · simp only [Tcb.close, h.state]
    · simp only [Tcb.close, h.state]
  rw [hstep] at hbecame
  have hnxt : t.sndNxt = isX + 1 + UInt32.ofNat x.sent.length := by
    rw [h.sndNxt]
    simp
  refine ⟨_, by rw [Tcb.emits, hstep]; rfl, ?_, rfl, ⟨htcb, hbecame.state, ?_⟩, ?_, ?_⟩
  · exact ⟨(by decide : ((tcpFin ||| tcpAck) &&& tcpSyn != 0) = false),
      (by decide : ((tcpFin ||| tcpAck) &&& tcpFin != 0) = true),
      (by decide : ((tcpFin ||| tcpAck) &&& tcpAck != 0) = true), rfl, hnxt⟩
  · rw [hbecame.sndNxt, hsent]
    show t.sndNxt + 1 = _
    rw [hnxt]
    rfl
  · rintro irs D q ⟨n, hwindow, hq⟩
    exact ⟨n, hreturned.symm ▸ hwindow.congr hbecame.recvBuffer hbecame.rcvNxt, hq⟩
  · intro D hall
    rw [HasAll, hreturned, hbecame.recvBuffer]
    exact hall

theorem reads_close (htcb : x.tcb = some t) (hst : t.state = .timeWait ∨ t.state = .closed) :
    Reads x (x.step (.close now)) ∧ t.emits (.close now) = [] := by
  have hnothing : t.close now = (t, []) := by
    rcases hst with hst | hst <;> simp only [Tcb.close, hst]
  have hsame : x.step (.close now) = x := by
    have hevent : t.onEvent (.close now) = t := by
      rw [Tcb.onEvent, hnothing]
      rfl
    have hentry : Tcb.stepConn x.tcb (.close now) = x.tcb := by
      rw [htcb]
      exact congrArg some hevent
    simp only [Conn.step, htcb, Conn.record]
    rw [← htcb, hentry]
  exact ⟨hsame.symm ▸ Reads.refl x, by rw [Tcb.emits, hnothing]⟩

/-- The side of an open connection that sends, and the other side. -/
theorem OpenSide.send (ha : OpenSide isA isB a b ta qa qb) (hb : OpenSide isB isA b a tb qb qa)
    (data : List UInt8) :
    OpenSide isA isB (a.step (.send data now)) b (ta.onEvent (.send data now)) qa
        (qb ++ onWire port side (ta.emits (.send data now))) ∧
      OpenSide isB isA b (a.step (.send data now)) tb
        (qb ++ onWire port side (ta.emits (.send data now))) qa := by
  obtain ⟨m, hout, hdata, hself, hsent, hflow, huna, hnxt, hack, hcarries⟩ :=
    ha.self.send port side now ha.flow data
  rw [hout]
  refine ⟨⟨hself, hflow, hsent ▸ ha.acks.extend data, ?_⟩, ⟨hb.self, ?_, ?_, ?_⟩⟩
  · by_cases hnil : data = []
    · have hsame : (ta.onEvent (.send data now)).sndNxt = ta.sndNxt := by
        rw [hnxt, hnil]
        exact add_zero _
      rw [huna, hsame]
      rcases ha.acked with hdone | ⟨x, hx, hne⟩ | ⟨x, hx, hall⟩
      · exact .inl hdone
      · exact .inr (.inl ⟨x, List.mem_append_left _ hx, hne⟩)
      · exact .inr (.inr ⟨x, hx, hall.1, hall.2.trans hsame.symm⟩)
    · exact .inr (.inl ⟨m, by simp, hdata ▸ hnil⟩)
  · rw [hsent]
    exact hb.flow.extend hcarries
  · exact hb.acks.append fun x hx => List.mem_singleton.mp hx ▸ hack
  · refine hb.acked.imp_right (Or.imp_right ?_)
    rintro ⟨x, hx, hall⟩
    exact ⟨x, List.mem_append_left _ hx, hall⟩

/-- The application of the side that was closed first calls `send`. -/
theorem Phase.send_first (h : Phase isA isB a b qa qb) (data : List UInt8) :
    Phase isA isB (EndToEnd.act port side a (.send data now)).1 b qa
      (qb ++ (EndToEnd.act port side a (.send data now)).2) := by
  have hclosed : ∀ {t}, a.tcb = some t → t.state ≠ .established →
      Phase isA isB (EndToEnd.act port side a (.send data now)).1 b qa
        (qb ++ (EndToEnd.act port side a (.send data now)).2) := by
    intro t htcb hst
    obtain ⟨hreads, hout⟩ := reads_send now htcb hst data
    rw [act_of_tcb port side htcb, Call.event, hout, onWire, List.map_nil, List.append_nil]
    exact h.reads hreads (.refl b)
  cases h with
  | opened ha hb =>
    rw [act_of_tcb port side ha.self.tcb]
    obtain ⟨ha', hb'⟩ := ha.send port side now hb data
    exact .opened ha' hb'
  | closing ha => exact hclosed ha.tcb (by simp [ha.state])
  | heard ha => exact hclosed ha.tcb (by simp [ha.state])
  | halfClosed ha => exact hclosed ha.tcb (by simp [ha.state])
  | finished ha hta => exact hclosed ha (by simp [hta])
  | crossed ha => exact hclosed ha.self.tcb (by simp [ha.self.state])

/-- The other side that has heard of the FIN is not established any more. -/
theorem HeardSide.exists_tcb (h : HeardSide isY y t q) :
    y.tcb = some t ∧ (t.state = .closeWait ∨ t.state = .lastAck) := by
  cases h with
  | waiting hself => exact ⟨hself.tcb, .inl hself.state⟩
  | closed hself => exact ⟨hself.tcb, .inr hself.state⟩

/-- The application of the other side calls `send`. -/
theorem Phase.send_second (h : Phase isA isB a b qa qb) (data : List UInt8) :
    Phase isA isB a (EndToEnd.act port side b (.send data now)).1
      (qa ++ (EndToEnd.act port side b (.send data now)).2) qb := by
  have hclosed : ∀ {t}, b.tcb = some t → t.state ≠ .established →
      Phase isA isB a (EndToEnd.act port side b (.send data now)).1
        (qa ++ (EndToEnd.act port side b (.send data now)).2) qb := by
    intro t htcb hst
    obtain ⟨hreads, hout⟩ := reads_send now htcb hst data
    rw [act_of_tcb port side htcb, Call.event, hout, onWire, List.map_nil, List.append_nil]
    exact h.reads (.refl a) hreads
  cases h with
  | opened ha hb =>
    rw [act_of_tcb port side hb.self.tcb]
    obtain ⟨hb', ha'⟩ := hb.send port side now ha data
    exact .opened ha' hb'
  | closing ha hb hqa hqb hq hm acksA acksB =>
    rw [act_of_tcb port side hb.tcb]
    obtain ⟨m', hout, -, hself, hsent, hflow, -, -, hack, hcarries⟩ :=
      hb.send port side now hq data
    rw [Call.event, hout]
    exact .closing ha hself (hsent.symm ▸ hqa.extend hcarries) hqb hflow hm
      (acksA.append fun x hx => List.mem_singleton.mp hx ▸ hack) (hsent.symm ▸ acksB.extend data)
  | heard ha hb =>
    obtain ⟨htcb, hst⟩ := hb.exists_tcb
    exact hclosed htcb (by rcases hst with hst | hst <;> simp [hst])
  | halfClosed ha hb =>
    obtain ⟨htcb, hst⟩ := hb.exists_tcb
    exact hclosed htcb (by rcases hst with hst | hst <;> simp [hst])
  | finished ha hta hqa hb htb =>
    exact hclosed hb (by rcases htb with ⟨hst, -⟩ | ⟨hst, -⟩ <;> simp [hst])
  | crossed ha hb => exact hclosed hb.self.tcb (by simp [hb.self.state])

/-- The connection has not been closed yet, or is done with closing. -/
def Tcb.MayClose (t : Tcb) : Prop :=
  t.state = .established ∨ t.state = .closeWait ∨ t.state = .timeWait ∨ t.state = .closed

/-- The application closes the side `a` of an open connection. -/
theorem OpenSide.close (ha : OpenSide isA isB a b ta qa qb) (hb : OpenSide isB isA b a tb qb qa) :
    Phase isA isB (a.step (.close now)) b qa
      (qb ++ onWire port side (ta.emits (.close now))) := by
  obtain ⟨m, hout, hm, hack, hself, hflow, -⟩ := ha.self.close port side now (.inl ⟨rfl, rfl⟩)
  obtain ⟨-, hsent, -⟩ := step_close ha.self.tcb now
  obtain ⟨j, hj, hrcv⟩ := ha.flow.ack_le
  rw [hout]
  exact .closing hself hb.self (hflow ha.flow) rfl (hsent.symm ▸ hb.flow) (hsent.symm ▸ hm)
    (hsent.symm ▸ ha.acks)
    (hb.acks.append fun x hx => ⟨j, hj, List.mem_singleton.mp hx ▸ hack.trans hrcv⟩)

/-- The application of the side that was closed first calls `close`. -/
theorem Phase.close_first (h : Phase isA isB a b qa qb)
    (hmay : ∀ t, a.tcb = some t → t.MayClose) :
    Phase isA isB (EndToEnd.act port side a (.close now)).1 b qa
      (qb ++ (EndToEnd.act port side a (.close now)).2) := by
  have hnot : ∀ {t}, a.tcb = some t → t.state = .finWait1 ∨ t.state = .finWait2 → False := by
    intro t htcb hst
    rcases hmay t htcb with h | h | h | h <;> rcases hst with hst | hst <;> simp [hst] at h
  cases h with
  | opened ha hb =>
    rw [act_of_tcb port side ha.self.tcb]
    exact ha.close port side now hb
  | closing ha => exact (hnot ha.tcb (.inl ha.state)).elim
  | heard ha => exact (hnot ha.tcb (.inl ha.state)).elim
  | halfClosed ha => exact (hnot ha.tcb (.inr ha.state)).elim
  | finished ha hta hqa hb htb hallA hallB =>
    obtain ⟨hreads, hout⟩ := reads_close now ha (.inl hta)
    rw [act_of_tcb port side ha, Call.event, hout, onWire, List.map_nil, List.append_nil]
    exact (Phase.finished ha hta hqa hb htb hallA hallB).reads hreads (.refl b)
  | crossed ha => exact (hnot ha.self.tcb (.inl ha.self.state)).elim

/-- The side that has heard of the FIN closes. -/
theorem HeardSide.close (hb : HeardSide isB b tb q) (hmay : tb.MayClose) :
    q = [] ∧ ∃ m, onWire port side (tb.emits (.close now)) = [m] ∧
      HeardSide isB (b.step (.close now)) (tb.onEvent (.close now)) [m] ∧
      (∀ {D}, HasAll D b tb → HasAll D (b.step (.close now)) (tb.onEvent (.close now))) := by
  cases hb with
  | waiting hself hrest =>
    obtain ⟨m, hout, hm, -, hself', -, hhas⟩ := hself.close port side now (.inr ⟨rfl, rfl⟩)
    obtain ⟨-, hsent, -⟩ := step_close hself.tcb now
    exact ⟨hrest, m, hout, .closed hself' (hsent.symm ▸ hm) rfl, hhas⟩
  | closed hself => rcases hmay with h | h | h | h <;> simp [hself.state] at h

/-- The application of the other side calls `close`. -/
theorem Phase.close_second (h : Phase isA isB a b qa qb)
    (hmay : ∀ t, b.tcb = some t → t.MayClose) :
    Phase isA isB a (EndToEnd.act port side b (.close now)).1
        (qa ++ (EndToEnd.act port side b (.close now)).2) qb ∨
      Phase isB isA (EndToEnd.act port side b (.close now)).1 a qb
        (qa ++ (EndToEnd.act port side b (.close now)).2) := by
  cases h with
  | opened ha hb =>
    rw [act_of_tcb port side hb.self.tcb]
    exact .inr (hb.close port side now ha)
  | @closing ta tb q m ha hb hqa hqb hq hm acksA acksB =>
    rw [act_of_tcb port side hb.tcb]
    obtain ⟨m', hout, hm', hack, hself, hflow, -⟩ := hb.close port side now (.inl ⟨rfl, rfl⟩)
    obtain ⟨-, hsent, -⟩ := step_close hb.tcb now
    obtain ⟨j, hj, hrcv⟩ := hq.ack_le
    rw [Call.event, hout]
    left
    refine .crossed ⟨ha, acksA.append fun x hx => ?_, .inl ⟨qa, m', rfl, ?_, ?_⟩⟩
      ⟨hself, hsent.symm ▸ acksB, .inl ⟨q, m, hqb, hflow hq, hm⟩⟩
    · exact ⟨j, hj, List.mem_singleton.mp hx ▸ hack.trans hrcv⟩
    · rw [hsent]
      exact hqa
    · rw [hsent]
      exact hm'
  | @heard ta tb q rest m ha hb hqa hqb hq hm hall acksA =>
    obtain ⟨htcb, -⟩ := hb.exists_tcb
    obtain ⟨rfl, m', hout, hb', hhas⟩ := hb.close port side now (hmay tb htcb)
    obtain ⟨-, hsent, -⟩ := step_close htcb now
    rw [act_of_tcb port side htcb, Call.event, hout, hqa, List.append_assoc]
    exact .inl (.heard ha hb' rfl hqb (hsent.symm ▸ hq) hm (hhas hall) acksA)
  | halfClosed ha hb hqb hq hall =>
    obtain ⟨htcb, -⟩ := hb.exists_tcb
    obtain ⟨rfl, m', hout, hb', hhas⟩ := hb.close port side now (hmay _ htcb)
    obtain ⟨-, hsent, -⟩ := step_close htcb now
    rw [act_of_tcb port side htcb, Call.event, hout]
    exact .inl (.halfClosed ha hb' hqb (hsent.symm ▸ hq) (hhas hall))
  | finished ha hta hqa hb htb hallA hallB =>
    rcases htb with ⟨hst, -⟩ | ⟨hst, hqb⟩
    · rcases hmay _ hb with h | h | h | h <;> simp [hst] at h
    · obtain ⟨hreads, hout⟩ := reads_close now hb (.inr hst)
      rw [act_of_tcb port side hb, Call.event, hout, onWire, List.map_nil, List.append_nil]
      exact .inl ((Phase.finished ha hta hqa hb (.inr ⟨hst, hqb⟩) hallA hallB).reads (.refl a)
        hreads)
  | crossed ha hb =>
    rcases hmay _ hb.self.tcb with h | h | h | h <;> simp [hb.self.state] at h

end Act

end Steps

/-! ## What the phases say -/

section Results

variable {isA isB : UInt32} {a b x y : Conn} {t : Tcb} {qa qb q : List Wire} {irs : UInt32}
  {D : List UInt8}

/-- All of the stream `D` has been received or is on its way. -/
def Conserved (D : List UInt8) (c : Conn) (q : List Wire) : Prop :=
  ∃ t, c.tcb = some t ∧ c.returned ++ t.recvBuffer ++ q.flatMap Prod.snd = D

theorem Flow.conserved (h : Flow irs D x t q) (htcb : x.tcb = some t) {rest : List Wire}
    (hrest : ∀ m ∈ rest, m.2 = []) : Conserved D x (q ++ rest) := by
  obtain ⟨n, hwindow, hq⟩ := h
  have hempty : rest.flatMap Prod.snd = [] := List.flatMap_eq_nil_iff.mpr hrest
  refine ⟨t, htcb, ?_⟩
  rw [List.flatMap_append, hempty, List.append_nil, hwindow.bytes_eq]
  exact hq.bytes_eq

theorem HasAll.conserved (h : HasAll D x t) (htcb : x.tcb = some t)
    (hq : ∀ m ∈ q, m.2 = []) : Conserved D x q := by
  refine ⟨t, htcb, ?_⟩
  rw [List.flatMap_eq_nil_iff.mpr hq, List.append_nil]
  exact h

theorem CrossedSide.conserved (h : CrossedSide isA isB x y t q) : Conserved y.sent x q := by
  rcases h.rest with ⟨q', m, rfl, hflow, hm⟩ | ⟨rfl, hall⟩
  · exact hflow.conserved h.self.tcb (by simpa using hm.payload)
  · exact hall.conserved h.self.tcb (by simp)

theorem HeardSide.payload (h : HeardSide isB y t q) : ∀ m ∈ q, m.2 = [] := by
  cases h with
  | waiting hself hrest => simp [hrest]
  | closed hself hm hrest => simpa [hrest] using hm.payload

/-- In every phase all that was sent is received or on its way. -/
theorem Phase.conserved (h : Phase isA isB a b qa qb) :
    Conserved b.sent a qa ∧ Conserved a.sent b qb := by
  have hnone : ∀ m ∈ ([] : List Wire), m.2 = [] := by simp
  cases h with
  | opened ha hb =>
    have hqa := ha.flow.conserved ha.self.tcb hnone
    have hqb := hb.flow.conserved hb.self.tcb hnone
    rw [List.append_nil] at hqa hqb
    exact ⟨hqa, hqb⟩
  | closing ha hb hqa hqb hq hm acksA acksB =>
    have hqa := hqa.conserved ha.tcb hnone
    rw [List.append_nil] at hqa
    exact ⟨hqa, hqb ▸ hq.conserved hb.tcb (by simpa using hm.payload)⟩
  | heard ha hb hqa hqb hq hm hall acksA =>
    refine ⟨hqa ▸ hq.conserved ha.tcb ?_, hall.conserved hb.exists_tcb.1 (hqb ▸ hnone)⟩
    exact List.forall_mem_cons.mpr ⟨hm.payload, hb.payload⟩
  | halfClosed ha hb hqb hq hall =>
    exact ⟨hq.hasAll.conserved ha.tcb hb.payload,
      hall.conserved hb.exists_tcb.1 (hqb ▸ hnone)⟩
  | finished ha hta hqa hb htb hallA hallB =>
    refine ⟨hallA.conserved ha (hqa ▸ hnone), hallB.conserved hb ?_⟩
    rcases htb with ⟨-, m, hqb, -, hm⟩ | ⟨-, hqb⟩
    · simpa [hqb] using hm
    · exact hqb ▸ hnone
  | crossed ha hb => exact ⟨ha.conserved, hb.conserved⟩

/-- Both sides agree on how far they have closed; all that was sent on an open connection is
acknowledged.  Only when the FINs have crossed does neither side ever learn of the other's. -/
inductive Agree (ta tb : Tcb) : Prop
  | opened (ha : ta.state = .established) (hb : tb.state = .established)
    (ackedA : ta.sndUna = ta.sndNxt) (ackedB : tb.sndUna = tb.sndNxt)
  | halfClosed (ha : ta.state = .finWait2) (hb : tb.state = .closeWait)
  | closed (ha : ta.state = .timeWait) (hb : tb.state = .closed)
  | crossed (ha : ta.state = .finWait1) (hb : tb.state = .finWait1)

/-- When nothing is on its way, both sides agree. -/
theorem Phase.agree (h : Phase isA isB a b [] []) :
    ∃ ta tb, a.tcb = some ta ∧ b.tcb = some tb ∧ Agree ta tb := by
  cases h with
  | opened ha hb =>
    have hacked : ∀ {isX isY x y t}, OpenSide isX isY x y t [] [] → t.sndUna = t.sndNxt := by
      intro isX isY x y t hside
      rcases hside.acked with hdone | ⟨m, hm, -⟩ | ⟨m, hm, -⟩
      · exact hdone
      · cases hm
      · cases hm
    exact ⟨_, _, ha.self.tcb, hb.self.tcb,
      .opened ha.self.state hb.self.state (hacked ha) (hacked hb)⟩
  | closing ha hb hqa hqb =>
    have hne := congrArg List.length hqb
    simp at hne
  | heard ha hb hqa =>
    have hne := congrArg List.length hqa
    simp at hne
  | halfClosed ha hb hqb hq hall =>
    cases hb with
    | waiting hself hrest => exact ⟨_, _, ha.tcb, hself.tcb, .halfClosed ha.state hself.state⟩
    | closed hself hm hrest => cases hrest
  | finished ha hta hqa hb htb hallA hallB =>
    rcases htb with ⟨-, m, hm, -⟩ | ⟨hst, -⟩
    · cases hm
    · exact ⟨_, _, ha, hb, .closed hta hst⟩
  | crossed ha hb =>
    exact ⟨_, _, ha.self.tcb, hb.self.tcb, .crossed ha.self.state hb.self.state⟩

end Results

/-! ## Orderly runs -/

section Runs

/-- The event delivers the first segment on its way, once; an application closes a connection only
once; no timer runs out, and no closed connection is swept from the table. -/
def Orderly (p : Pair Conn Wire) (e : EndToEnd.Event) : Prop :=
  e.IsFifo ∧ match e with
    | .act side (.close _) => ∀ t, (p.state side).tcb = some t → t.MayClose
    | .act side (.poll now) => ∀ t, (p.state side).tcb = some t →
      t.timerFired now = false ∧ t.state ≠ .closed
    | _ => True

variable {iss : Side → UInt32} {p : Pair Conn Wire} (port : Side → UInt16)

/-- Both sides are in a phase, one of them as the first. -/
def Ordered (iss : Side → UInt32) (p : Pair Conn Wire) : Prop :=
  ∃ side, Phase (iss side) (iss side.other) (p.state side) (p.state side.other) (p.inFlight side)
    (p.inFlight side.other)

/-- Any side is the first or the second. -/
theorem ordered_iff (side : Side) : Ordered iss p ↔
    Phase (iss side) (iss side.other) (p.state side) (p.state side.other) (p.inFlight side)
        (p.inFlight side.other) ∨
      Phase (iss side.other) (iss side) (p.state side.other) (p.state side)
        (p.inFlight side.other) (p.inFlight side) := by
  constructor
  · rintro ⟨first, h⟩
    cases first <;> cases side <;> first | exact .inl h | exact .inr h
  · rintro (h | h)
    · exact ⟨side, h⟩
    · refine ⟨side.other, ?_⟩
      rw [Side.other_other]
      exact h

theorem reads_poll {c : Conn} {now : Instant}
    (h : ∀ t, c.tcb = some t → t.timerFired now = false ∧ t.state ≠ .closed) :
    Reads c (c.step (.poll now)) ∧ c.emits (.poll now) = [] := by
  cases hc : c.tcb with
  | none =>
    have hsame : c.step (.poll now) = c := by simp only [Conn.step, hc]
    exact ⟨hsame.symm ▸ Reads.refl c, by simp [Conn.emits, hc]⟩
  | some t =>
    obtain ⟨hfired, hst⟩ := h t hc
    have hkept := Tcb.retransmit_of_not_fired hfired
    have hretained : t.isRetained now = true := by simp [Tcb.isRetained, hst, hfired]
    have hevent : t.onEvent (.poll now) = t := congrArg Prod.fst hkept
    have hentry : Tcb.stepConn c.tcb (.poll now) = c.tcb := by
      simp only [hc, Tcb.stepConn, Option.map_some, hevent, Option.filter_some, hretained, if_true]
    have hsame : c.step (.poll now) = c := by
      simp only [Conn.step, hc, Conn.record]
      rw [← hc, hentry]
    refine ⟨hsame.symm ▸ Reads.refl c, ?_⟩
    simp [Conn.emits, hc, Tcb.emits, hkept]

/-- **The step.** -/
theorem Ordered.step (h : Ordered iss p) (hlen : ∀ side, (p.state side).sent.length < 2 ^ 32 - 2)
    {e : EndToEnd.Event} (he : Orderly p e) :
    Ordered iss (Pair.step (EndToEnd.receive port) (EndToEnd.act port) p e) := by
  cases e with
  | deliver side i again now =>
    obtain ⟨⟨rfl, rfl⟩, -⟩ := he
    cases hq : p.inFlight side with
    | nil =>
      rw [Pair.step_deliver_nil _ _ hq]
      exact h
    | cons m q =>
      obtain ⟨hself, hother, htail, hsent⟩ :=
        Pair.step_deliver (EndToEnd.receive port) (EndToEnd.act port) hq now
      rw [ordered_iff side, hself, hother, htail, hsent]
      rcases (ordered_iff side).mp h with h | h <;> rw [hq] at h
      · exact .inl (h.receive_first port side now (hlen side) (hlen side.other))
      · exact .inr (h.receive_second port side now (hlen side.other) (hlen side))
  | act side call =>
    simp only [Pair.step]
    rw [ordered_iff side, Pair.put_state_self, Pair.put_state_other, Pair.put_inFlight_self,
      Pair.put_inFlight_other]
    have hreads : Reads (p.state side) ((p.state side).step call.event) →
        (p.state side).emits call.event = [] →
        Phase (iss side) (iss side.other) (EndToEnd.act port side (p.state side) call).1
            (p.state side.other) (p.inFlight side)
            (p.inFlight side.other ++ (EndToEnd.act port side (p.state side) call).2) ∨
          Phase (iss side.other) (iss side) (p.state side.other)
            (EndToEnd.act port side (p.state side) call).1
            (p.inFlight side.other ++ (EndToEnd.act port side (p.state side) call).2)
            (p.inFlight side) := by
      intro hreads hout
      rw [EndToEnd.act, hout, onWire, List.map_nil, List.append_nil]
      rcases (ordered_iff side).mp h with h | h
      · exact .inl (h.reads hreads (.refl _))
      · exact .inr (h.reads (.refl _) hreads)
    cases call with
    | send data now =>
      rcases (ordered_iff side).mp h with h | h
      · exact .inl (h.send_first port side now data)
      · exact .inr (h.send_second port side now data)
    | recv =>
      refine hreads (reads_recv _) ?_
      unfold Conn.emits
      cases (p.state side).tcb <;> rfl
    | close now =>
      rcases (ordered_iff side).mp h with h | h
      · exact .inl (h.close_first port side now he.2)
      · rcases h.close_second port side now he.2 with h | h
        · exact .inr h
        · exact .inl h
    | poll now =>
      obtain ⟨hkept, hout⟩ := reads_poll he.2
      exact hreads hkept hout

/-- The connections right after the handshake. -/
theorem ordered_start {tcb : Side → Tcb} (h : Handshaken tcb) :
    Ordered (fun side => (tcb side).iss) (EndToEnd.start tcb) := by
  have hside : ∀ side, OpenSide (tcb side).iss (tcb side.other).iss
      ((EndToEnd.start tcb).state side) ((EndToEnd.start tcb).state side.other) (tcb side) []
      [] := by
    intro side
    obtain ⟨huna, hnxt⟩ := h.unsent side
    refine ⟨⟨rfl, h.established side, ?_⟩, ⟨0, ⟨Nat.zero_le _, ?_, ?_, by rintro ⟨⟩⟩, rfl⟩,
      by simp [AcksIn], .inl (huna.trans hnxt.symm)⟩
    · simpa [EndToEnd.start] using hnxt
    · simpa [EndToEnd.start] using (h.empty side).2
    · simpa using h.synced side
  exact ⟨.left, .opened (hside .left) (hside .right)⟩

end Runs

open EndToEnd in
/-- **Delivery.**  In every run of two connections of the stack after their handshake in which the
network is orderly: all that the application of one side has sent has been received by the other
or is on its way to it, and when nothing is on its way both sides agree on how far they have
closed. -/
theorem orderly_delivery (port : Side → UInt16) (tcb : Side → Tcb) (h : Handshaken tcb)
    (es : List EndToEnd.Event)
    (hlen : ∀ side, ((after port tcb es).state side).sent.length < 2 ^ 32 - 2)
    (hes : Run.Guarded (Pair.step (receive port) (act port)) Orderly (start tcb) es) :
    (∀ side, Conserved ((after port tcb es).state side.other).sent ((after port tcb es).state side)
        ((after port tcb es).inFlight side)) ∧
      ((∀ side, (after port tcb es).inFlight side = []) →
        ∃ side ta tb, ((after port tcb es).state side).tcb = some ta ∧
          ((after port tcb es).state side.other).tcb = some tb ∧ Agree ta tb) := by
  have hleads := Run.guarded_trans (R := EndToEnd.LeadsTo) (fun p side => Conn.LeadsTo.refl _)
    (fun p q r h h' side => (h side).trans (h' side)) (leadsTo_step port) (start tcb) es
  have hordered : Ordered (fun side => (tcb side).iss) (after port tcb es) := by
    refine Run.invariant_of_guarded (Ordered _) (fun p e hp he => ?_) (ordered_start h)
      (Run.guarded_and.mpr ⟨hes, hleads⟩)
    refine hp.step port (fun side => ?_) he.1
    -- What is sent in the end bounds what has been sent before.
    have hprefix := ((leadsTo_step port p e side).trans (he.2 side)).sent
    exact lt_of_le_of_lt hprefix.length_le (hlen side)
  obtain ⟨first, hphase⟩ := hordered
  constructor
  · obtain ⟨hfirst, hsecond⟩ := hphase.conserved
    intro side
    by_cases hside : side = first
    · rw [hside]
      exact hfirst
    · have hother : side = first.other := by
        cases side <;> cases first <;> first | rfl | exact absurd rfl hside
      rw [hother, Side.other_other]
      exact hsecond
  · intro hnone
    rw [hnone first, hnone first.other] at hphase
    obtain ⟨ta, tb, hta, htb, hagree⟩ := hphase.agree
    exact ⟨first, ta, tb, hta, htb, hagree⟩

/-- Two bytes are sent and one is answered; both sides close, one after the other. -/
def demoFarewell : List EndToEnd.Event :=
  [.act .left (.send [104, 105] 0), .deliver .right 0 false 0, .act .right (.send [33] 0),
    .deliver .left 0 false 0, .deliver .left 0 false 0, .act .left (.close 0),
    .deliver .right 0 false 0, .deliver .right 0 false 0, .deliver .left 0 false 0,
    .act .right .recv, .act .right (.close 0), .deliver .left 0 false 0,
    .deliver .right 0 false 0]

theorem demo_orderly_delivery :
    let p := EndToEnd.after demoPorts demoMirrored demoFarewell
    ((∀ side, Conserved (p.state side.other).sent (p.state side) (p.inFlight side)) ∧
      ((∀ side, p.inFlight side = []) →
        ∃ side ta tb, (p.state side).tcb = some ta ∧ (p.state side.other).tcb = some tb ∧
          Agree ta tb)) ∧
      (p.state .right).returned = [104, 105] ∧ ∀ side, p.inFlight side = [] := by
  intro p
  refine ⟨orderly_delivery demoPorts demoMirrored ⟨?_, ?_, ?_, ?_⟩ demoFarewell ?_ ?_, by decide,
    ?_⟩
  · intro side
    cases side <;> rfl
  · intro side
    cases side <;> exact ⟨rfl, rfl⟩
  · intro side
    cases side <;> rfl
  · intro side
    cases side <;> exact ⟨rfl, rfl⟩
  · intro side
    cases side <;> decide
  · refine ⟨⟨trivial, trivial⟩, ⟨⟨rfl, rfl⟩, trivial⟩, ⟨trivial, trivial⟩, ⟨⟨rfl, rfl⟩, trivial⟩,
      ⟨⟨rfl, rfl⟩, trivial⟩, ⟨trivial, ?_⟩, ⟨⟨rfl, rfl⟩, trivial⟩, ⟨⟨rfl, rfl⟩, trivial⟩,
      ⟨⟨rfl, rfl⟩, trivial⟩, ⟨trivial, trivial⟩, ⟨trivial, ?_⟩, ⟨⟨rfl, rfl⟩, trivial⟩,
      ⟨⟨rfl, rfl⟩, trivial⟩, trivial⟩
    · rintro t ⟨⟩
      exact .inl rfl
    · rintro t ⟨⟩
      exact .inr (.inl rfl)
  · intro side
    cases side <;> decide

end PpcaNetwork.TcpStack
