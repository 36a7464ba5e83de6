import PpcaNetwork.TcpStack.Transitions

/-!
# The receive side of a connection

The peer sends a byte stream `D` after its SYN; segments of it may be lost,
repeated, reordered and overlap.  What the connection hands to the application
is related to the stream by the position of `rcv_nxt`.

* `ConsistentSegment` — a segment that carries a piece of the stream.
* `ReceiveWindow` — the relation: the bytes returned and the bytes buffered are
  the first `n` of the stream, and `rcv_nxt` stands behind them.
* `Conn.ReceiveInv` — the relation in `Established`, `CloseWait` and `LastAck`;
  `Conn.receiveInv_step` is the step lemma.
* `delivered_in_order` — it holds after every run of a connection.
-/

namespace PpcaNetwork.TcpStack

/-- A segment with SYN and ACK set has SYN set. -/
theorem TcpHeader.has_syn_of_synAck {header : TcpHeader}
    (h : header.flags &&& (tcpSyn ||| tcpAck) = tcpSyn ||| tcpAck) : header.has tcpSyn = true := by
  have hsyn : header.flags &&& tcpSyn = tcpSyn := by
    have hmask : tcpSyn = (tcpSyn ||| tcpAck) &&& tcpSyn := rfl
    rw [hmask, ← UInt8.and_assoc, h]
  rw [TcpHeader.has, hsyn]
  rfl

/-! ## Segments of a stream -/

/-- The segment carries a piece of the stream `D` that follows the sequence
number `irs` of the peer's SYN: the payload is a slice of `D`, the SYN stands at
`irs` without data, and the FIN stands behind the last byte of `D`. -/
structure ConsistentSegment (irs : UInt32) (D : List UInt8) (header : TcpHeader)
    (payload : List UInt8) : Prop where
  slice : payload = (D.drop (header.seq - (irs + 1)).toNat).take payload.length
  syn : header.has tcpSyn = true → header.seq = irs ∧ payload = []
  fin : header.has tcpFin = true →
    header.seq + segLen payload + header.flagLen tcpSyn = irs + 1 + segLen D

instance (irs : UInt32) (D : List UInt8) (header : TcpHeader) (payload : List UInt8) :
    Decidable (ConsistentSegment irs D header payload) :=
  decidable_of_iff
    ((payload = (D.drop (header.seq - (irs + 1)).toNat).take payload.length ∧
      (header.has tcpSyn = true → header.seq = irs ∧ payload = [])) ∧
      (header.has tcpFin = true →
        header.seq + segLen payload + header.flagLen tcpSyn = irs + 1 + segLen D))
    ⟨fun h => ⟨h.1.1, h.1.2, h.2⟩, fun h => ⟨⟨h.slice, h.syn⟩, h.fin⟩⟩

/-- The application closes only from `CloseWait`, and every segment carries a
piece of the stream. -/
def Delivers (irs : UInt32) (D : List UInt8) (c : Conn) : ConnEvent → Prop
  | .close _ => ∀ t ∈ c.tcb, t.state = .closeWait
  | .segment header payload _ => ConsistentSegment irs D header payload
  | _ => True

instance (irs : UInt32) (D : List UInt8) (c : Conn) (e : ConnEvent) :
    Decidable (Delivers irs D c e) := by
  cases e <;> unfold Delivers <;> infer_instance

/-! ## The relation between `rcv_nxt` and the stream -/

/-- The connection has received the first `n` bytes of `D`, and the FIN behind
them if `fin`. -/
structure ReceiveWindow (irs : UInt32) (D : List UInt8) (t : Tcb) (returned : List UInt8)
    (fin : Bool) (n : Nat) : Prop where
  le_length : n ≤ D.length
  bytes_eq : returned ++ t.recvBuffer = D.take n
  rcvNxt_eq : t.rcvNxt = irs + 1 + UInt32.ofNat n + (if fin then 1 else 0)
  fin_end : fin = true → n = D.length

namespace ReceiveWindow

variable {irs : UInt32} {D : List UInt8} {t : Tcb} {returned : List UInt8} {fin : Bool} {n : Nat}

/-- The relation reads two fields of the control block. -/
theorem congr (h : ReceiveWindow irs D t returned fin n) {t' : Tcb}
    (hbuf : t'.recvBuffer = t.recvBuffer) (hnxt : t'.rcvNxt = t.rcvNxt) :
    ReceiveWindow irs D t' returned fin n :=
  ⟨h.le_length, by rw [hbuf, h.bytes_eq], by rw [hnxt, h.rcvNxt_eq], h.fin_end⟩

/-- A `recv` moves bytes from the buffer to the application. -/
theorem drain (h : ReceiveWindow irs D t returned fin n) :
    ReceiveWindow irs D t.drainData.1 (returned ++ t.drainData.2) fin n where
  le_length := h.le_length
  bytes_eq := by
    show (returned ++ t.recvBuffer) ++ [] = _
    rw [List.append_nil, h.bytes_eq]
  rcvNxt_eq := h.rcvNxt_eq
  fin_end := h.fin_end

/-- The offset in the stream of a segment that starts at `rcv_nxt`. -/
theorem offset_eq (h : ReceiveWindow irs D t returned fin n) (hD : D.length < 2 ^ 32 - 2) :
    (t.rcvNxt - (irs + 1)).toNat = n + if fin then 1 else 0 := by
  have hle := h.le_length
  have hsub : t.rcvNxt - (irs + 1) = UInt32.ofNat (n + if fin then 1 else 0) := by
    rw [h.rcvNxt_eq, UInt32.ofNat_add]
    cases fin with
    | false => simp
    | true => grind
  rw [hsub, UInt32.toNat_ofNat', Nat.mod_eq_of_lt]
  split <;> omega

/-- A segment that starts at `rcv_nxt` carries the next bytes of the stream, none
of them behind the FIN, and no SYN. -/
theorem next_segment (h : ReceiveWindow irs D t returned fin n) (hD : D.length < 2 ^ 32 - 2)
    {header : TcpHeader} {payload : List UInt8}
    (hc : ConsistentSegment irs D header payload) (hseq : header.seq = t.rcvNxt) :
    D.take n ++ payload = D.take (n + payload.length) ∧
      n + payload.length ≤ D.length ∧ header.has tcpSyn = false ∧
      (fin = true → payload = []) ∧ (header.has tcpFin = true → fin = false →
        n + payload.length = D.length) := by
  have hoff := h.offset_eq hD
  have hle := h.le_length
  have hslice := hc.slice
  rw [hseq, hoff] at hslice
  have hlen := congrArg List.length hslice
  rw [List.length_take, List.length_drop] at hlen
  have hfin : fin = true → payload = [] := by
    intro hf
    have hn := h.fin_end hf
    refine List.length_eq_zero_iff.mp ?_
    omega
  have hsyn : header.has tcpSyn = false := by
    rw [← Bool.not_eq_true]
    intro hs
    have hirs := (hc.syn hs).1
    rw [← hseq, hirs] at hoff
    have hmax : (irs - (irs + 1)).toNat = 2 ^ 32 - 1 := by
      have hneg : irs - (irs + 1) = -1 := by grind
      rw [hneg]
      rfl
    rw [hmax] at hoff
    split at hoff <;> omega
  refine ⟨?_, ?_, hsyn, hfin, ?_⟩
  · cases hf : fin with
    | true => simp [hfin hf]
    | false =>
      rw [hf] at hslice
      rw [List.take_add]
      congr 1
  · cases hf : fin with
    | true => simpa [hfin hf] using hle
    | false =>
      simp [hf] at hlen
      omega
  · intro hflag hf
    have hend := hc.fin hflag
    rw [hseq, h.rcvNxt_eq, hf, TcpHeader.flagLen, hsyn] at hend
    have hcancel : UInt32.ofNat (n + payload.length) = UInt32.ofNat D.length := by
      rw [UInt32.ofNat_add]
      simp [segLen] at hend
      grind
    have hnat := congrArg UInt32.toNat hcancel
    rw [UInt32.toNat_ofNat', UInt32.toNat_ofNat'] at hnat
    simp [hf] at hlen
    omega

/-- Accepting a segment at `rcv_nxt` moves the window over what it carries. -/
theorem accept (h : ReceiveWindow irs D t returned false n) (hD : D.length < 2 ^ 32 - 2)
    {header : TcpHeader} {payload : List UInt8}
    (hc : ConsistentSegment irs D header payload) (hseq : header.seq = t.rcvNxt) :
    ReceiveWindow irs D (t.accepted header payload) returned (header.has tcpFin)
      (n + payload.length) := by
  obtain ⟨htake, hlen, hsyn, -, hend⟩ := h.next_segment hD hc hseq
  refine ⟨hlen, ?_, ?_, fun hf => hend hf rfl⟩
  · have hbuf : (t.accepted header payload).recvBuffer = t.recvBuffer ++ payload := by
      show (if 0 < segLen payload then _ else _) = _
      split
      · rfl
      · rename_i hzero
        have hmod : payload.length % 2 ^ 32 = 0 := by
          have hz : segLen payload = 0 := by simpa using hzero
          simpa [segLen] using congrArg UInt32.toNat hz
        have hnil : payload = [] := List.length_eq_zero_iff.mp (by omega)
        rw [hnil, List.append_nil]
    rw [hbuf, ← List.append_assoc, h.bytes_eq, htake]
  · show header.seq + (segLen payload + header.flagLen tcpSyn + header.flagLen tcpFin) = _
    rw [hseq, h.rcvNxt_eq, UInt32.ofNat_add]
    simp only [TcpHeader.flagLen, hsyn, segLen]
    cases header.has tcpFin <;> simp <;> grind

end ReceiveWindow

/-! ## The invariant -/

/-- What the history says about the control block in each state: nothing has
been received before the handshake, and the FIN is what leads out of
`Established`.  The states that only a `close` from `Established` leads to are
not reached. -/
def Tcb.ReceiveInv (irs : UInt32) (D : List UInt8) (t : Tcb) (returned : List UInt8)
    (fin : Bool) : Prop :=
  match t.state with
  | .synSent => t.recvBuffer = [] ∧ returned = [] ∧ fin = false
  | .established => fin = false ∧ ∃ n, ReceiveWindow irs D t returned fin n
  | .closeWait | .lastAck => fin = true ∧ ∃ n, ReceiveWindow irs D t returned fin n
  | .synReceived | .finWait1 | .finWait2 | .closing | .timeWait => False
  | .closed | .listen => True

/-- The receive-side invariant of a connection with its history. -/
def Conn.ReceiveInv (irs : UInt32) (D : List UInt8) (c : Conn) : Prop :=
  ∀ t, c.tcb = some t → t.ReceiveInv irs D c.returned c.finConsumed

namespace Tcb

variable {irs : UInt32} {D : List UInt8} {t : Tcb} {returned : List UInt8} {fin : Bool}

/-- An operation that stays in its state keeps the invariant if it keeps the
window and, before the handshake, the emptiness of what has been received. -/
theorem ReceiveInv.map (h : t.ReceiveInv irs D returned fin) {t' : Tcb} {returned' : List UInt8}
    (hst : t'.state = t.state)
    (hempty : t.recvBuffer = [] ∧ returned = [] → t'.recvBuffer = [] ∧ returned' = [])
    (hwin : ∀ n, ReceiveWindow irs D t returned fin n → ReceiveWindow irs D t' returned' fin n) :
    t'.ReceiveInv irs D returned' fin := by
  unfold ReceiveInv at h ⊢
  rw [hst]
  cases hs : t.state with
  | established =>
    obtain ⟨hfin, n, hn⟩ := by simpa only [hs] using h
    exact ⟨hfin, n, hwin n hn⟩
  | closeWait =>
    obtain ⟨hfin, n, hn⟩ := by simpa only [hs] using h
    exact ⟨hfin, n, hwin n hn⟩
  | lastAck =>
    obtain ⟨hfin, n, hn⟩ := by simpa only [hs] using h
    exact ⟨hfin, n, hwin n hn⟩
  | synSent =>
    obtain ⟨hbuf, hret, hfin⟩ := by simpa only [hs] using h
    obtain ⟨hbuf', hret'⟩ := hempty ⟨hbuf, hret⟩
    exact ⟨hbuf', hret', hfin⟩
  | closed => trivial
  | listen => trivial
  | _ => simp only [hs] at h

/-- The invariant reads the state, `recv_buffer` and `rcv_nxt`. -/
theorem ReceiveInv.congr (h : t.ReceiveInv irs D returned fin) {t' : Tcb}
    (hst : t'.state = t.state) (hbuf : t'.recvBuffer = t.recvBuffer)
    (hnxt : t'.rcvNxt = t.rcvNxt) : t'.ReceiveInv irs D returned fin :=
  h.map hst (fun ⟨hb, hr⟩ => ⟨hbuf.trans hb, hr⟩) fun _ hwin => hwin.congr hbuf hnxt

theorem ReceiveInv.afterSending (h : t.ReceiveInv irs D returned fin)
    (segs : List OutgoingSegment) (now : Instant) :
    (t.afterSending segs now).ReceiveInv irs D returned fin := by
  obtain ⟨r, hr⟩ := exists_afterSending segs now t
  exact hr ▸ h.congr rfl rfl rfl

theorem ReceiveInv.retransmit (h : t.ReceiveInv irs D returned fin) (now : Instant) :
    (t.retransmit now).1.ReceiveInv irs D returned fin := by
  obtain ⟨st, r, rto, n, hst, heq⟩ := t.exists_retransmit now
  rw [heq]
  rcases hst with rfl | rfl
  · exact h.congr rfl rfl rfl
  · trivial

theorem ReceiveInv.send (h : t.ReceiveInv irs D returned fin) (data : List UInt8) :
    (t.send data).1.ReceiveInv irs D returned fin := by
  unfold Tcb.send
  split
  · exact h
  · exact h.congr rfl rfl rfl

/-- Closing from `CloseWait` leads to `LastAck` and receives nothing. -/
theorem ReceiveInv.close (h : t.ReceiveInv irs D returned fin) (hst : t.state = .closeWait)
    (now : Instant) : (t.close now).1.ReceiveInv irs D returned fin := by
  obtain ⟨hfin, n, hwin⟩ := by simpa only [ReceiveInv, hst] using h
  simp only [Tcb.close, hst, sendFin]
  exact ⟨hfin, n, hwin.congr rfl rfl⟩

theorem ReceiveInv.drain (h : t.ReceiveInv irs D returned fin) :
    t.drainData.1.ReceiveInv irs D (returned ++ t.drainData.2) fin := by
  refine h.map rfl ?_ fun n hwin => hwin.drain
  rintro ⟨hbuf, hret⟩
  exact ⟨rfl, by rw [drainData, hbuf, hret]; rfl⟩

/-- In `Established` the acknowledgement does not concern the receive side, and
the data is accepted at `rcv_nxt` only. -/
theorem ReceiveInv.processEstablished (h : t.ReceiveInv irs D returned fin)
    (hst : t.state = .established) (hD : D.length < 2 ^ 32 - 2) {header : TcpHeader}
    {payload : List UInt8} (hc : ConsistentSegment irs D header payload) :
    (t.processEstablished header payload).1.ReceiveInv irs D returned
      (fin || (header.has tcpFin && header.seq = t.rcvNxt)) := by
  obtain ⟨rfl, n, hwin⟩ := by simpa only [ReceiveInv, hst] using h
  -- the acknowledgement leaves what the receive side reads as it is
  have hack : (t.processAck header).state = .established ∧
      (t.processAck header).rcvNxt = t.rcvNxt ∧
      (t.processAck header).recvBuffer = t.recvBuffer := by
    rcases t.processAck_cases header with heq | ⟨-, heq⟩
    · rw [heq]
      exact ⟨hst, rfl, rfl⟩
    · rw [heq]
      exact ⟨hst, rfl, rfl⟩
  obtain ⟨hst', hnxt, hbuf⟩ := hack
  have hwin' : ReceiveWindow irs D (t.processAck header) returned false n :=
    hwin.congr hbuf hnxt
  unfold Tcb.processEstablished
  by_cases hacc : header.Occupies payload ∧ header.seq = (t.processAck header).rcvNxt
  · obtain ⟨hocc, hseq⟩ := hacc
    have haccept := hwin'.accept hD hc hseq
    rw [processData_accepted hocc hseq]
    simp only [← hnxt, hseq, decide_true, Bool.and_true, Bool.false_or]
    cases hfin : header.has tcpFin with
    | true =>
      have hstate : ((t.processAck header).accepted header payload).state = .closeWait := by
        simp [accepted, hfin]
      rw [ReceiveInv, hstate]
      exact ⟨rfl, _, hfin ▸ haccept⟩
    | false =>
      have hstate : ((t.processAck header).accepted header payload).state = .established := by
        simp [accepted, hfin, hst']
      rw [ReceiveInv, hstate]
      exact ⟨rfl, _, hfin ▸ haccept⟩
  · rw [processData_ignored hacc]
    have hfin : (header.has tcpFin && decide (header.seq = t.rcvNxt)) = false := by
      rw [← Bool.not_eq_true, Bool.and_eq_true, decide_eq_true_iff]
      rintro ⟨hf, hseq⟩
      exact hacc ⟨.inr (.inr hf), hnxt ▸ hseq⟩
    rw [hfin]
    rw [ReceiveInv, hst']
    exact ⟨rfl, n, hwin'⟩

/-- Behind the FIN there is no data to accept. -/
theorem ReceiveInv.processCloseWait (h : t.ReceiveInv irs D returned fin)
    (hst : t.state = .closeWait) (hD : D.length < 2 ^ 32 - 2) {header : TcpHeader}
    {payload : List UInt8} (hc : ConsistentSegment irs D header payload) :
    t.processCloseWait header payload = (t, []) := by
  obtain ⟨rfl, n, hwin⟩ := by simpa only [ReceiveInv, hst] using h
  unfold Tcb.processCloseWait
  refine if_neg ?_
  rintro ⟨hlen, hseq⟩
  have hnil := (hwin.next_segment hD hc hseq).2.2.2.1 rfl
  rw [hnil] at hlen
  exact absurd hlen (by decide)

theorem ReceiveInv.processExistingTcb (h : t.ReceiveInv irs D returned fin)
    (hD : D.length < 2 ^ 32 - 2) {header : TcpHeader} {payload : List UInt8}
    (hc : ConsistentSegment irs D header payload) (now : Instant) :
    (t.processExistingTcb header payload now).1.ReceiveInv irs D returned
      (fin || (t.state = .established && header.has tcpFin && header.seq = t.rcvNxt)) := by
  unfold Tcb.processExistingTcb
  cases hst : t.state with
  | established => simpa using h.processEstablished hst hD hc
  | closeWait =>
    have heq := h.processCloseWait hst hD hc
    simpa [heq] using h
  | lastAck =>
    simp only [Tcb.processLastAck]
    split
    · trivial
    · simpa using h
  | synSent =>
    obtain ⟨hbuf, rfl, rfl⟩ := by simpa only [ReceiveInv, hst] using h
    simp only [Tcb.processSynSent]
    split
    · rename_i hflags
      split
      · -- the handshake: a consistent SYN stands at `irs`
        have hsyn : header.has tcpSyn = true := by
          exact TcpHeader.has_syn_of_synAck hflags
        have hseq := (hc.syn hsyn).1
        refine ⟨rfl, 0, Nat.zero_le _, ?_, ?_, ?_⟩
        · simpa using hbuf
        · simp [hseq]
        · simp
      · simpa using h
    · split
      · trivial
      · simpa using h
  | closed => simpa using h
  | listen => simpa using h
  | _ => simp only [ReceiveInv, hst] at h

end Tcb

namespace Conn

variable {irs : UInt32} {D : List UInt8}

theorem receiveInv_opened (key : ConnKey) (iss : UInt32) (now : Instant) :
    (opened key iss now).ReceiveInv irs D := by
  intro t ht
  obtain rfl := Option.some.inj ht
  exact ⟨rfl, rfl, rfl⟩

/-- Every event of a connection that delivers pieces of the stream preserves the
receive-side invariant. -/
theorem receiveInv_step (hD : D.length < 2 ^ 32 - 2) (c : Conn) (e : ConnEvent)
    (h : c.ReceiveInv irs D) (hg : Delivers irs D c e) : (c.step e).ReceiveInv irs D := by
  intro t' ht'
  obtain ⟨t, hc, rfl, hstep⟩ := exists_tcb_of_step ht'
  have ht := h t hc
  rw [hstep]
  cases e with
  | send data now => exact (ht.send data).afterSending _ _
  | recv => exact ht.drain
  | close now => exact (ht.close (hg t hc) now).afterSending _ _
  | segment header payload now => exact (ht.processExistingTcb hD hg now).afterSending _ _
  | poll now => exact ht.retransmit now

theorem receiveInv_run (hD : D.length < 2 ^ 32 - 2) {key : ConnKey} {iss : UInt32}
    {now : Instant} {es : List ConnEvent}
    (hg : Run.Guarded step (Delivers irs D) (opened key iss now) es) :
    (run step (opened key iss now) es).ReceiveInv irs D :=
  Run.invariant_of_guarded (ReceiveInv irs D) (receiveInv_step hD)
    (receiveInv_opened key iss now) hg

end Conn

/-! ## Every run -/

/-- **In-order, exactly-once delivery.**  In every run of a connection whose
segments are pieces of the stream `D`, in whatever order and however often they
arrive, the bytes returned by `recv` followed by those still buffered are a
prefix of `D`, and `rcv_nxt` stands behind them, past the FIN exactly if that has
been consumed. -/
theorem delivered_in_order (key : ConnKey) (iss : UInt32) (now : Instant) (irs : UInt32)
    (D : List UInt8) (hD : D.length < 2 ^ 32 - 2) (es : List ConnEvent)
    (hg : Run.Guarded Conn.step (Delivers irs D) (Conn.opened key iss now) es) (t : Tcb)
    (ht : (run Conn.step (Conn.opened key iss now) es).tcb = some t)
    (hst : t.state = .established ∨ t.state = .closeWait ∨ t.state = .lastAck) :
    let c := run Conn.step (Conn.opened key iss now) es
    ∃ n, n ≤ D.length ∧ c.returned ++ t.recvBuffer = D.take n ∧
      t.rcvNxt = irs + 1 + UInt32.ofNat n + (if c.finConsumed then 1 else 0) ∧
      (c.finConsumed = true → n = D.length) := by
  intro c
  have hinv := Conn.receiveInv_run hD hg t ht
  have hwin : ∃ n, ReceiveWindow irs D t c.returned c.finConsumed n := by
    rcases hst with hst | hst | hst
    · exact (by simpa only [Tcb.ReceiveInv, hst] using hinv : _ ∧ _).2
    · exact (by simpa only [Tcb.ReceiveInv, hst] using hinv : _ ∧ _).2
    · exact (by simpa only [Tcb.ReceiveInv, hst] using hinv : _ ∧ _).2
  obtain ⟨n, hle, hbytes, hnxt, hend⟩ := hwin
  exact ⟨n, hle, hbytes, hnxt, hend⟩

/-- A segment of the demo's peer, as its connection sees it. -/
def demoArrival (seq ack : UInt32) (flags : UInt8) (payload : List UInt8) : ConnEvent :=
  .segment { srcPort := 9999, dstPort := 40000, seq := seq, ack := ack, dataOffset := 5,
             flags := flags, window := 65535, checksum := 0, urgent := 0 } payload 0

/-- The peer of the demo sends four bytes and its FIN: the second half arrives
too early and is lost, the first half arrives twice. -/
def demoDelivery : List ConnEvent :=
  [demoArrival 5000 1001 (tcpSyn ||| tcpAck) [],
    demoArrival 5003 1001 tcpAck [108, 108],
    demoArrival 5001 1001 tcpAck [104, 101],
    .recv,
    demoArrival 5001 1001 tcpAck [104, 101],
    demoArrival 5003 1001 (tcpFin ||| tcpAck) [108, 108]]

/-- The control block of the demo connection at the end of the delivery. -/
def demoDeliveredTcb : Tcb :=
  { demoKey.opened 1000 0 with
    state := .closeWait, irs := 5000, rcvNxt := 5006, sndUna := 1001, sndNxt := 1001
    sndWnd := 65535, retransmitAt := some 1000000000, recvBuffer := [108, 108] }

/-- In the demo the whole stream and the FIN get through. -/
theorem demo_delivered :
    let c := run Conn.step (Conn.opened demoKey 1000 0) demoDelivery
    ∃ n, n ≤ 4 ∧ c.returned ++ demoDeliveredTcb.recvBuffer = List.take n [104, 101, 108, 108] ∧
      demoDeliveredTcb.rcvNxt = 5000 + 1 + UInt32.ofNat n + (if c.finConsumed then 1 else 0) ∧
      (c.finConsumed = true → n = 4) :=
  delivered_in_order demoKey 1000 0 5000 [104, 101, 108, 108] (by decide) demoDelivery
    (by simp only [demoDelivery, Run.Guarded]; decide) demoDeliveredTcb (by decide) (by decide)

end PpcaNetwork.TcpStack
