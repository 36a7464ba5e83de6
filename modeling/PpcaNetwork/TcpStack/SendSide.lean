import PpcaNetwork.TcpStack.Transitions

/-!
# The send side of a connection

The wrapped counters `snd_una` and `snd_nxt` and the contents of `send_buffer`,
related to the bytes the application passed to `send`.

* `SendWindow` — the relation: `snd_una` stands `acked` bytes behind `iss + 1`,
  `snd_nxt` stands behind everything sent, and the buffer holds the bytes between.
* `Conn.SendInv` — the relation in `Established` and `CloseWait`, with what the
  other states have to remember for it; `Conn.sendInv_step` is the step lemma.
* `send_window` — it holds after every run of a connection.
* `retransmit_payload_iff` — a data retransmission carries the unacknowledged
  bytes exactly while nothing has been acknowledged yet.
-/

namespace PpcaNetwork.TcpStack

/-! ## The relation between the counters and the bytes sent -/

/-- The control block agrees with a history of `sent` bytes of which `acked` are
acknowledged. -/
structure SendWindow (t : Tcb) (sent : List UInt8) (acked : Nat) : Prop where
  acked_le : acked ≤ sent.length
  sndUna_eq : t.sndUna = t.iss + 1 + UInt32.ofNat acked
  sndNxt_eq : t.sndNxt = t.iss + 1 + UInt32.ofNat sent.length
  sendBuffer_eq : t.sendBuffer = sent.drop acked

namespace SendWindow

variable {t : Tcb} {sent : List UInt8} {acked : Nat}

/-- The distance between the counters is the number of outstanding bytes, wrapped. -/
theorem toNat_sub (h : SendWindow t sent acked) :
    (t.sndNxt - t.sndUna).toNat = (sent.length - acked) % 2 ^ 32 := by
  have hsplit : UInt32.ofNat sent.length
      = UInt32.ofNat acked + UInt32.ofNat (sent.length - acked) := by
    rw [← UInt32.ofNat_add, Nat.add_sub_cancel' h.acked_le]
  have hsub : t.sndNxt - t.sndUna = UInt32.ofNat (sent.length - acked) := by
    rw [h.sndNxt_eq, h.sndUna_eq, hsplit]
    grind
  rw [hsub, UInt32.toNat_ofNat']

/-- The relation reads four fields of the control block. -/
theorem congr (h : SendWindow t sent acked) {t' : Tcb} (hiss : t'.iss = t.iss)
    (huna : t'.sndUna = t.sndUna) (hnxt : t'.sndNxt = t.sndNxt)
    (hbuf : t'.sendBuffer = t.sendBuffer) : SendWindow t' sent acked :=
  ⟨h.acked_le, by rw [huna, hiss, h.sndUna_eq], by rw [hnxt, hiss, h.sndNxt_eq],
    by rw [hbuf, h.sendBuffer_eq]⟩

/-- Passing more bytes to `send` extends the history on both sides. -/
theorem append (h : SendWindow t sent acked) (data : List UInt8) {t' : Tcb}
    (hiss : t'.iss = t.iss) (huna : t'.sndUna = t.sndUna)
    (hnxt : t'.sndNxt = t.sndNxt + segLen data) (hbuf : t'.sendBuffer = t.sendBuffer ++ data) :
    SendWindow t' (sent ++ data) acked where
  acked_le := by
    rw [List.length_append]
    exact le_trans h.acked_le (Nat.le_add_right ..)
  sndUna_eq := by rw [huna, hiss, h.sndUna_eq]
  sndNxt_eq := by
    rw [hnxt, hiss, h.sndNxt_eq, List.length_append, UInt32.ofNat_add, segLen, add_assoc]
  sendBuffer_eq := by rw [hbuf, h.sendBuffer_eq, List.drop_append_of_le_length h.acked_le]

/-- An accepted acknowledgement moves `snd_una` and the front of the buffer
together: by the outstanding bytes, wrapped. -/
theorem acknowledged (h : SendWindow t sent acked) :
    SendWindow t.acknowledged sent (acked + (t.sndNxt - t.sndUna).toNat) := by
  have hsub := h.toNat_sub
  have hmod : (sent.length - acked) % 2 ^ 32 ≤ sent.length - acked := Nat.mod_le ..
  have hle := h.acked_le
  refine ⟨by omega, ?_, h.sndNxt_eq, ?_⟩
  · have hwrap : UInt32.ofNat ((sent.length - acked) % 2 ^ 32)
        = UInt32.ofNat (sent.length - acked) := by
      apply UInt32.toNat_inj.mp
      simp
    show t.sndNxt = t.iss + 1 + _
    rw [hsub, UInt32.ofNat_add, hwrap, ← UInt32.ofNat_add, Nat.add_sub_cancel' hle]
    exact h.sndNxt_eq
  · have hlen : t.sendBuffer.length = sent.length - acked := by
      rw [h.sendBuffer_eq, List.length_drop]
    show t.sendBuffer.drop _ = _
    rw [hlen, hsub, Nat.min_eq_left hmod, h.sendBuffer_eq, List.drop_drop]

end SendWindow

/-! ## The invariant -/

/-- What the history says about the control block in each state: nothing was
sent before the handshake, and the window relation holds while data flows.
`SynReceived` is never entered, and the states after our FIN never lead back. -/
def Tcb.SendInv (t : Tcb) (sent : List UInt8) (acked : Nat) : Prop :=
  match t.state with
  | .synSent =>
    t.sndNxt = t.iss + 1 ∧ t.sendBuffer = [] ∧ sent = [] ∧ acked = 0
  | .established | .closeWait => SendWindow t sent acked
  | .synReceived => False
  | _ => True

/-- The send-side invariant of a connection with its history. -/
def Conn.SendInv (c : Conn) : Prop := ∀ t, c.tcb = some t → t.SendInv c.sent c.acked

namespace Tcb

variable {t : Tcb} {sent : List UInt8} {acked : Nat}

theorem SendInv.window (h : t.SendInv sent acked)
    (hst : t.state = .established ∨ t.state = .closeWait) : SendWindow t sent acked := by
  rcases hst with hst | hst <;> simpa [SendInv, hst] using h

theorem SendWindow.sendInv (h : SendWindow t sent acked)
    (hst : t.state = .established ∨ t.state = .closeWait) : t.SendInv sent acked := by
  rcases hst with hst | hst <;> simpa [SendInv, hst] using h

/-- The invariant reads the state and the four fields of the window. -/
theorem SendInv.congr (h : t.SendInv sent acked) {t' : Tcb} (hst : t'.state = t.state)
    (hiss : t'.iss = t.iss) (huna : t'.sndUna = t.sndUna) (hnxt : t'.sndNxt = t.sndNxt)
    (hbuf : t'.sendBuffer = t.sendBuffer) : t'.SendInv sent acked := by
  unfold SendInv at h ⊢
  rw [hst]
  cases hs : t.state with
  | established => exact SendWindow.congr (by simpa only [hs] using h) hiss huna hnxt hbuf
  | closeWait => exact SendWindow.congr (by simpa only [hs] using h) hiss huna hnxt hbuf
  | synSent => simpa only [hs, hnxt, hiss, hbuf] using h
  | synReceived => simp only [hs] at h
  | _ => trivial

theorem SendInv.afterSending (h : t.SendInv sent acked) (segs : List OutgoingSegment)
    (now : Instant) : (t.afterSending segs now).SendInv sent acked := by
  obtain ⟨r, hr⟩ := exists_afterSending segs now t
  exact hr ▸ h.congr rfl rfl rfl rfl rfl

theorem SendInv.retransmit (h : t.SendInv sent acked) (now : Instant) :
    (t.retransmit now).1.SendInv sent acked := by
  obtain ⟨st, r, rto, n, hst, heq⟩ := t.exists_retransmit now
  rw [heq]
  rcases hst with rfl | rfl
  · exact h.congr rfl rfl rfl rfl rfl
  · trivial

theorem SendInv.send (h : t.SendInv sent acked) (data : List UInt8) :
    (t.send data).1.SendInv (if t.state = .established then sent ++ data else sent) acked := by
  unfold Tcb.send
  split
  · rename_i hst
    simpa only [if_neg hst] using h
  · rename_i hst
    have hst : t.state = .established := not_not.mp hst
    rw [if_pos hst]
    exact SendWindow.sendInv ((h.window (.inl hst)).append data rfl rfl rfl rfl) (.inl hst)

theorem SendInv.close (h : t.SendInv sent acked) (now : Instant) :
    (t.close now).1.SendInv sent acked := by
  unfold Tcb.close
  split
  · trivial
  · trivial
  · exact h
  · exact h
  · exact h
  · trivial

/-- In `Established` a segment first acknowledges, then delivers. -/
theorem SendInv.processEstablished (h : t.SendInv sent acked) (hst : t.state = .established)
    (header : TcpHeader) (payload : List UInt8) :
    (t.processEstablished header payload).1.SendInv sent
      (acked + ((t.processEstablished header payload).1.sndUna - t.sndUna).toNat) := by
  have hwin := h.window (.inl hst)
  -- the acknowledgement moves `snd_una` over what it covers
  have hack : (t.processAck header).state = .established ∧ SendWindow (t.processAck header) sent
      (acked + ((t.processAck header).sndUna - t.sndUna).toNat) := by
    rcases t.processAck_cases header with heq | ⟨-, heq⟩
    · rw [heq]
      simpa using ⟨hst, hwin⟩
    · rw [heq]
      exact ⟨hst, hwin.acknowledged⟩
  obtain ⟨hst', hwin'⟩ := hack
  unfold Tcb.processEstablished
  by_cases hacc : header.Occupies payload ∧ header.seq = (t.processAck header).rcvNxt
  · rw [processData_accepted hacc.1 hacc.2]
    refine SendWindow.sendInv (hwin'.congr rfl rfl rfl rfl) ?_
    simp only [accepted]
    split
    · exact .inr rfl
    · exact .inl hst'
  · rw [processData_ignored hacc]
    exact SendWindow.sendInv hwin' (.inl hst')

theorem SendInv.processExistingTcb (h : t.SendInv sent acked) (header : TcpHeader)
    (payload : List UInt8) (now : Instant) :
    (t.processExistingTcb header payload now).1.SendInv sent
      (if t.state = .established then
          acked + ((t.processExistingTcb header payload now).1.sndUna - t.sndUna).toNat
        else acked) := by
  unfold Tcb.processExistingTcb
  cases hst : t.state with
  | established =>
    simp only [if_true]
    exact h.processEstablished hst header payload
  | synSent =>
    obtain ⟨hnxt, hbuf, rfl, rfl⟩ := by simpa only [SendInv, hst] using h
    simp only [Tcb.processSynSent]
    split
    · split
      · rename_i hack
        exact ⟨le_refl _, by simp [hack, hnxt], by simp [hnxt], hbuf⟩
      · exact h
    · split
      · trivial
      · exact h
  | closeWait =>
    have hwin := h.window (.inr hst)
    simp only [Tcb.processCloseWait, Tcb.bufferData]
    split
    · exact SendWindow.sendInv (hwin.congr rfl rfl rfl rfl) (.inr hst)
    · exact h
  | synReceived => simp [SendInv, hst] at h
  | lastAck =>
    simp only [Tcb.processLastAck]
    split
    · trivial
    · exact h
  | finWait1 =>
    simp only [Tcb.processFinWait1]
    split
    · split
      · split
        · trivial
        · simp [SendInv, state_bufferData]
      · simp [SendInv, state_bufferData, hst]
    · split
      · trivial
      · simp [SendInv, state_bufferData, hst]
  | finWait2 =>
    simp only [Tcb.processFinWait2]
    split
    · trivial
    · simp [SendInv, state_bufferData, hst]
  | closing =>
    simp only [Tcb.processClosing]
    split
    · trivial
    · exact h
  | closed => exact h
  | listen => exact h
  | timeWait => exact h

end Tcb

namespace Conn

theorem sendInv_opened (key : ConnKey) (iss : UInt32) (now : Instant) :
    (opened key iss now).SendInv := by
  intro t ht
  obtain rfl := Option.some.inj ht
  exact ⟨rfl, rfl, rfl, rfl⟩

/-- Every event of a connection preserves the send-side invariant. -/
theorem sendInv_step (c : Conn) (e : ConnEvent) (h : c.SendInv) : (c.step e).SendInv := by
  intro t' ht'
  obtain ⟨t, hc, rfl, hstep⟩ := exists_tcb_of_step ht'
  have ht := h t hc
  rw [hstep]
  cases e with
  | send data now => exact (ht.send data).afterSending _ _
  | recv =>
    have hdrain : t.drainData.1.SendInv c.sent c.acked := ht.congr rfl rfl rfl rfl rfl
    exact hdrain
  | close now => exact (ht.close now).afterSending _ _
  | segment header payload now => exact (ht.processExistingTcb header payload now).afterSending _ _
  | poll now => exact ht.retransmit now

/-- The count of acknowledged bytes never decreases. -/
theorem acked_le_step (c : Conn) (e : ConnEvent) : c.acked ≤ (c.step e).acked := by
  unfold step
  cases c.tcb with
  | none => exact le_refl _
  | some t =>
    cases e with
    | segment header payload now =>
      simp only [record]
      split
      · exact Nat.le_add_right ..
      · exact le_refl _
    | _ => exact le_refl _

theorem sendInv_run (key : ConnKey) (iss : UInt32) (now : Instant) (es : List ConnEvent) :
    (run step (opened key iss now) es).SendInv :=
  Run.invariant SendInv sendInv_step (sendInv_opened key iss now) es

end Conn

/-! ## Every run -/

/-- **The send window.**  For every run of a connection there is a count of
acknowledged bytes, never decreasing, such that in `Established` and `CloseWait`
the counters and the send buffer are those of the bytes sent so far with that
many of them acknowledged. -/
theorem send_window (key : ConnKey) (iss : UInt32) (now : Instant) (es : List ConnEvent) :
    ∃ a : Nat → Nat, Monotone a ∧ ∀ n t,
      let c := run Conn.step (Conn.opened key iss now) (es.take n)
      c.tcb = some t → (t.state = .established ∨ t.state = .closeWait) →
        a n ≤ c.sent.length ∧
        t.sndUna = t.iss + 1 + UInt32.ofNat (a n) ∧
        t.sndNxt = t.iss + 1 + UInt32.ofNat c.sent.length ∧
        t.sendBuffer = c.sent.drop (a n) := by
  refine ⟨fun n => (run Conn.step (Conn.opened key iss now) (es.take n)).acked, ?_, ?_⟩
  · refine monotone_nat_of_le_succ fun n => ?_
    rw [List.take_add_one, Run.run_append]
    exact Run.monotone Conn.acked_le_step ..
  · intro n t c ht hst
    obtain ⟨hle, huna, hnxt, hbuf⟩ := (Conn.sendInv_run key iss now (es.take n) t ht).window hst
    exact ⟨hle, huna, hnxt, hbuf⟩

/-! ## What a retransmission carries -/

namespace Conn

theorem sendInv_absent : absent.SendInv := by
  intro t ht
  exact absurd ht (by simp [absent])

theorem sendInv_stepKey (key : ConnKey) (c : Conn) (e : KeyEvent) (h : c.SendInv) :
    (c.stepKey key e).SendInv := by
  cases e with
  | opened iss now => exact sendInv_opened key iss now
  | conn e => exact sendInv_step c e h

/-- The send-side invariant holds of every connection of a stack. -/
theorem sendInv_history (k : ConnKey) (c : TcpCore) (es : List Event) :
    (TcpCore.history k c es).SendInv :=
  Run.invariant SendInv (sendInv_stepKey k) sendInv_absent _

end Conn

namespace Tcb

/-- The data part of `build_retransmit`. -/
def retransmitPayload (t : Tcb) : List UInt8 :=
  if (t.sndUna - (t.iss + 1)).toNat < t.sendBuffer.length then
    t.sendBuffer.drop (t.sndUna - (t.iss + 1)).toNat
  else []

theorem buildRetransmit_of_data {t : Tcb}
    (hst : t.state = .established ∨ t.state = .closeWait) :
    t.buildRetransmit.seq = t.sndUna ∧ t.buildRetransmit.payload = t.retransmitPayload := by
  rcases hst with hst | hst <;> simp [buildRetransmit, hst, retransmitPayload]

/-- A poll that retransmits in a data state sends the data part of the buffer. -/
theorem retransmit_of_data {t : Tcb} (hst : t.state = .established ∨ t.state = .closeWait)
    {now : Instant} {seg : OutgoingSegment} (h : (t.retransmit now).2 = some seg) :
    seg.seq = t.sndUna ∧ seg.payload = t.retransmitPayload := by
  unfold retransmit at h
  split at h
  · split at h
    · exact absurd h (by simp)
    · obtain rfl := Option.some.inj h
      exact buildRetransmit_of_data (t := { t with
        retransmitAt := some (now + t.rto)
        rto := min (t.rto * 2) maxRto
        retransmitCount := t.retransmitCount + 1 }) hst
  · exact absurd h (by simp)

/-- `build_retransmit` skips as many bytes of the buffer as have been
acknowledged, although ACK processing has removed those already: what is left is
the whole buffer only if that number is zero. -/
theorem retransmitPayload_eq_sendBuffer_iff {t : Tcb} (hne : t.sendBuffer ≠ []) :
    t.retransmitPayload = t.sendBuffer ↔ t.sndUna = t.iss + 1 := by
  have hlen : 0 < t.sendBuffer.length := List.length_pos_iff.mpr hne
  unfold retransmitPayload
  constructor
  · intro h
    split at h
    · have hdrop := congrArg List.length h
      rw [List.length_drop] at hdrop
      have hzero : t.sndUna - (t.iss + 1) = 0 := UInt32.toNat_inj.mp (by simp; omega)
      exact sub_eq_zero.mp hzero
    · exact absurd h.symm hne
  · intro h
    rw [h, sub_self]
    simp [hlen]

end Tcb

theorem SendWindow.sendBuffer_ne_nil {t : Tcb} {sent : List UInt8} {acked : Nat}
    (h : SendWindow t sent acked) (hne : t.sndUna ≠ t.sndNxt) : t.sendBuffer ≠ [] := by
  rw [h.sendBuffer_eq]
  intro hnil
  have hlen : sent.length ≤ acked := List.drop_eq_nil_iff.mp hnil
  have hacked : acked = sent.length := le_antisymm h.acked_le hlen
  exact hne (by rw [h.sndUna_eq, h.sndNxt_eq, hacked])

/-- **What a retransmission carries.**  In every run of the stack, when
`poll_retransmit` fires for an `Established` or `CloseWait` connection with
unacknowledged data, the segment it returns starts at `snd_una` and carries the
unacknowledged bytes exactly when `snd_una` is still `iss + 1`, that is, as long
as no byte has been acknowledged (or a multiple of 2^32 of them). -/
theorem retransmit_payload_iff (ourIp : Ipv4Addr) (start : Instant) (es : List Event)
    (elapsed : Duration) (k : ConnKey) (t : Tcb) (seg : OutgoingSegment)
    (hget : (run TcpCore.step (.new ourIp start) es).get k = some t)
    (hst : t.state = .established ∨ t.state = .closeWait) (hdata : t.sndUna ≠ t.sndNxt)
    (hseg : (k, seg) ∈ ((run TcpCore.step (.new ourIp start) es).tcp.pollRetransmit
      ((run TcpCore.step (.new ourIp start) es).now + elapsed)).2) :
    (seg.seq = t.sndUna ∧
        seg.payload = (TcpCore.history k (.new ourIp start) es).unacked) ↔
      t.sndUna = t.iss + 1 := by
  have hinv := Conn.sendInv_history k (.new ourIp start) es
  have hwin : SendWindow t _ _ := (hinv t (TcpCore.history_tcb k ourIp start es ▸ hget)).window hst
  have hbuf : (TcpCore.history k (.new ourIp start) es).unacked = t.sendBuffer :=
    hwin.sendBuffer_eq.symm
  obtain ⟨u, hu, hret⟩ := (TcpManager.mem_pollRetransmit ..).mp hseg
  obtain rfl : u = t := Option.some.inj (hu.symm.trans hget)
  obtain ⟨hseq, hpay⟩ := Tcb.retransmit_of_data hst hret
  rw [hseq, hpay, hbuf]
  simpa using Tcb.retransmitPayload_eq_sendBuffer_iff (hwin.sendBuffer_ne_nil hdata)

/-- The demo connection sends two bytes, which are acknowledged, and then one more. -/
def demoSecondSend : List Event :=
  demoHandshake ++
    [.send demoKey [104, 105], demoSegment 5001 1003 tcpAck [], .send demoKey [33]]

/-- The control block of the demo connection after its first send. -/
def demoSentTcb : Tcb :=
  { demoKey.opened 1000 0 with
    state := .established, irs := 5000, rcvNxt := 5001, sndUna := 1001, sndNxt := 1003
    sndWnd := 65535, sendBuffer := [104, 105] }

/-- Before any acknowledgement the retransmission of the two bytes is complete. -/
theorem demo_first_retransmit :
    demoSentTcb.buildRetransmit.seq = demoSentTcb.sndUna ∧
      demoSentTcb.buildRetransmit.payload =
        (TcpCore.history demoKey demoStack (demoSecondSend.take 3)).unacked :=
  (retransmit_payload_iff demoKey.localIp 0 (demoSecondSend.take 3) 1000000000 demoKey
    demoSentTcb demoSentTcb.buildRetransmit (by decide) (by decide) (by decide)
    (by decide)).mpr (by decide)

/-- After an acknowledgement the retransmission of the third byte is empty: the
connection is `Established` with one byte outstanding, the timer fires, and the
segment carries nothing. -/
theorem demo_second_retransmit_empty :
    ((run TcpCore.step demoStack demoSecondSend).get demoKey).map
        (fun t => (t.state, t.sndUna, t.sndNxt)) = some (.established, 1003, 1004) ∧
      (TcpCore.history demoKey demoStack demoSecondSend).unacked = [33] ∧
      ((run TcpCore.step demoStack demoSecondSend).tcp.pollRetransmit 1000000000).2 =
        [(demoKey, { flags := tcpAck, seq := 1003, ack := 5001, payload := []
                     dstPort := 9999 })] := by
  decide

end PpcaNetwork.TcpStack
