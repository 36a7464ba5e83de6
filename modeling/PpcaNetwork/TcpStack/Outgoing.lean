import PpcaNetwork.TcpStack.ClosingData
import PpcaNetwork.TcpStack.FlowControl
import PpcaNetwork.TcpStack.ReceiveSide
import PpcaNetwork.TcpStack.SimultaneousClose

/-!
# What a connection puts on the wire

Everything that a connection sends, against the bytes that `send` has taken while it was
`Established`: the stream of which `ReceiveSide` takes the segments to be pieces.

* `Conn.emits` — the segments that leave because of an event.
* `Conn.Outgoing` — what holds of a connection and of its history, whatever happens.
* `Conn.ResendsFront` — what the timer sends again is the front of what is unacknowledged.
* `consistent_iff` — the step: which segments are pieces of the stream.
* `outgoing_consistent_iff` — all that leaves in a run is, exactly when this holds of each poll.
-/

namespace PpcaNetwork.TcpStack

/-! ## Pieces of a stream -/

section Pieces

variable {iss : UInt32} {D : List UInt8} {seg : OutgoingSegment} {port : UInt16}

/-- The segment takes up no sequence number. -/
structure OutgoingSegment.Bare (seg : OutgoingSegment) : Prop where
  payload : seg.payload = []
  syn : seg.flags &&& tcpSyn = 0
  fin : seg.flags &&& tcpFin = 0

theorem header_has (seg : OutgoingSegment) (port : UInt16) (flag : UInt8) :
    (seg.header port).has flag = (seg.flags &&& flag != 0) := rfl

theorem OutgoingSegment.Bare.consistent (h : seg.Bare) :
    ConsistentSegment iss D (seg.header port) seg.payload where
  slice := by
    rw [h.payload]
    rfl
  syn := by
    intro hsyn
    rw [header_has, h.syn] at hsyn
    cases hsyn
  fin := by
    intro hfin
    rw [header_has, h.fin] at hfin
    cases hfin

theorem bare_of_ack (hflags : seg.flags = tcpAck) (hpayload : seg.payload = []) : seg.Bare :=
  ⟨hpayload, by rw [hflags]; rfl, by rw [hflags]; rfl⟩

theorem consistent_syn (hflags : seg.flags = tcpSyn) (hpayload : seg.payload = [])
    (hseq : seg.seq = iss) : ConsistentSegment iss D (seg.header port) seg.payload where
  slice := by
    rw [hpayload]
    rfl
  syn _ := ⟨hseq, hpayload⟩
  fin := by
    intro hfin
    rw [header_has, hflags] at hfin
    exact absurd hfin (by decide)

/-- A FIN without data is a piece when it stands behind the last byte. -/
theorem consistent_fin (hflags : seg.flags = tcpFin ||| tcpAck) (hpayload : seg.payload = [])
    (hseq : seg.seq = iss + 1 + segLen D) :
    ConsistentSegment iss D (seg.header port) seg.payload where
  slice := by
    rw [hpayload]
    rfl
  syn := by
    intro hsyn
    rw [header_has, hflags] at hsyn
    exact absurd hsyn (by decide)
  fin := by
    intro _
    have hnosyn : (seg.header port).flagLen tcpSyn = 0 := by
      rw [TcpHeader.flagLen, header_has, hflags]
      rfl
    show seg.seq + segLen seg.payload + _ = _
    rw [hnosyn, hpayload, hseq]
    simp

/-- A segment of data that starts at the byte `k` is a piece exactly if these are the bytes. -/
theorem consistent_data_iff (hsyn : seg.flags &&& tcpSyn = 0) (hfin : seg.flags &&& tcpFin = 0)
    {k : Nat} (hk : k < 2 ^ 32) (hseq : seg.seq = iss + 1 + UInt32.ofNat k) :
    ConsistentSegment iss D (seg.header port) seg.payload ↔ seg.payload <+: D.drop k := by
  have hoffset : ((seg.header port).seq - (iss + 1)).toNat = k := by
    have hsub : (seg.header port).seq - (iss + 1) = UInt32.ofNat k := by
      show seg.seq - _ = _
      rw [hseq, add_sub_cancel_left]
    rw [hsub, UInt32.toNat_ofNat', Nat.mod_eq_of_lt hk]
  rw [List.prefix_iff_eq_take]
  constructor
  · intro h
    exact hoffset ▸ h.slice
  · intro h
    refine ⟨hoffset.symm ▸ h, fun hflag => ?_, fun hflag => ?_⟩
    · rw [header_has, hsyn] at hflag
      cases hflag
    · rw [header_has, hfin] at hflag
      cases hflag

end Pieces

/-! ## The segments of an event -/

namespace Tcb

/-- The segments that an event makes a connection send. -/
def emits (t : Tcb) : ConnEvent → List OutgoingSegment
  | .send data _ => (t.send data).2
  | .recv => []
  | .close now => (t.close now).2
  | .segment header payload now => (t.processExistingTcb header payload now).2
  | .poll now => (t.retransmit now).2.toList

/-- The connection has not been closed yet. -/
def IsOpen (t : Tcb) : Prop :=
  t.state = .synSent ∨ t.state = .established ∨ t.state = .closeWait

theorem IsOpen.not_isClosed {t : Tcb} (h : t.IsOpen) : ¬ t.IsClosed := by
  rcases h with h | h | h <;> simp [IsClosed, AwaitsFinAck, h]

/-- A segment is answered by a bare acknowledgement, if at all. -/
theorem bare_processExistingTcb {t : Tcb} (hst : t.state ≠ .synReceived) (header : TcpHeader)
    (payload : List UInt8) (now : Instant) :
    ∀ seg ∈ (t.processExistingTcb header payload now).2, seg.Bare := by
  have hack : ∀ t' : Tcb, ∀ seg ∈ [t'.ackSegment], seg.Bare := by
    intro t' seg hseg
    rw [List.mem_singleton.mp hseg]
    exact bare_of_ack rfl rfl
  have hnone : ∀ seg ∈ ([] : List OutgoingSegment), seg.Bare := by simp
  unfold processExistingTcb
  cases hs : t.state with
  | synReceived => exact absurd hs hst
  | established =>
    simp only [processEstablished]
    by_cases hocc : header.Occupies payload ∧ header.seq = (t.processAck header).rcvNxt
    · rw [processData_accepted hocc.1 hocc.2]
      exact hack _
    · rw [processData_ignored hocc]
      exact hnone
  | closeWait =>
    simp only [processCloseWait]
    split_ifs
    · exact hack _
    · exact hnone
  | finWait1 =>
    simp only [processFinWait1]
    split_ifs <;> first | exact hack _ | exact hnone
  | finWait2 =>
    simp only [processFinWait2]
    split_ifs
    · exact hack _
    · exact hnone
  | synSent =>
    simp only [processSynSent]
    split_ifs <;> first | exact hack _ | exact hnone
  | lastAck =>
    simp only [processLastAck]
    split_ifs <;> exact hnone
  | closing =>
    simp only [processClosing]
    split_ifs <;> exact hnone
  | closed => exact hnone
  | listen => exact hnone
  | timeWait => exact hnone

/-- The initial sequence number stays. -/
theorem iss_onEvent (t : Tcb) (e : ConnEvent) : (t.onEvent e).iss = t.iss := by
  have hsending : ∀ (t' : Tcb) segs now, (t'.afterSending segs now).iss = t'.iss := by
    intro t' segs now
    obtain ⟨r, hr⟩ := exists_afterSending segs now t'
    rw [hr]
  cases e with
  | send data now =>
    rw [onEvent, hsending, send]
    split <;> rfl
  | recv => rfl
  | close now =>
    rw [onEvent, hsending, close]
    split <;> rfl
  | segment header payload now =>
    have hbuffer : ∀ t' : Tcb, (t'.bufferData header payload).iss = t'.iss := by
      intro t'
      unfold bufferData
      split <;> rfl
    have hack : (t.processAck header).iss = t.iss := by
      rcases t.processAck_cases header with heq | ⟨-, heq⟩ <;> rw [heq]
      rfl
    rw [onEvent, hsending]
    unfold processExistingTcb
    cases t.state with
    | synReceived =>
      simp only [processSynReceived]
      split_ifs <;> rfl
    | established =>
      simp only [processEstablished]
      by_cases hocc : header.Occupies payload ∧ header.seq = (t.processAck header).rcvNxt
      · rw [processData_accepted hocc.1 hocc.2]
        exact hack
      · rw [processData_ignored hocc]
        exact hack
    | closeWait =>
      simp only [processCloseWait]
      split_ifs
      · exact hbuffer t
      · rfl
    | lastAck =>
      simp only [processLastAck]
      split_ifs <;> rfl
    | finWait1 =>
      simp only [processFinWait1]
      split_ifs
      · rfl
      · exact hbuffer _
      · exact hbuffer t
      · rfl
      · exact hbuffer t
    | finWait2 =>
      simp only [processFinWait2]
      split_ifs
      · rfl
      · exact hbuffer t
    | synSent =>
      simp only [processSynSent]
      split_ifs <;> rfl
    | closing =>
      simp only [processClosing]
      split_ifs <;> rfl
    | closed => rfl
    | listen => rfl
    | timeWait => rfl
  | poll now =>
    obtain ⟨st, r, rto, n, -, heq⟩ := t.exists_retransmit now
    rw [onEvent, heq]

/-- What a connection's history says of it: the send window until it is closed, and where its
FIN stands as long as that is unacknowledged. -/
structure Outgoing (iss : UInt32) (sent : List UInt8) (acked : Nat) (t : Tcb) : Prop where
  iss_eq : t.iss = iss
  window : t.SendInv sent acked
  stage : t.IsOpen ∨ t.IsClosed
  fin : t.AwaitsFinAck → t.sndNxt = iss + 1 + segLen sent + 1

/-- An open connection is closed by the application or by a reset, and otherwise stays open. -/
theorem stage_onEvent {t : Tcb} (h : t.IsOpen ∨ t.IsClosed) (e : ConnEvent) :
    (t.onEvent e).IsOpen ∨ (t.onEvent e).IsClosed := by
  have hsending : ∀ (t' : Tcb) segs now, t'.IsOpen ∨ t'.IsClosed →
      (t'.afterSending segs now).IsOpen ∨ (t'.afterSending segs now).IsClosed := by
    intro t' segs now h'
    obtain ⟨r, hr⟩ := exists_afterSending segs now t'
    rw [hr]
    exact h'
  rcases h with hopen | hclosed
  · cases e with
    | send data now =>
      refine hsending _ _ _ (.inl ?_)
      unfold send
      split <;> exact hopen
    | recv => exact .inl hopen
    | close now =>
      refine hsending _ _ _ (.inr ?_)
      rcases hopen with hst | hst | hst <;> simp [close, hst, sendFin, IsClosed, AwaitsFinAck]
    | segment header payload now =>
      refine hsending _ _ _ ?_
      rcases hopen with hst | hst | hst
      · simp only [processExistingTcb, hst, processSynSent]
        split_ifs
        · exact .inl (.inr (.inl rfl))
        · exact .inl (.inl hst)
        · exact .inr (.inr (.inr (.inr rfl)))
        · exact .inl (.inl hst)
      · simp only [processExistingTcb, hst]
        rcases state_processEstablished hst header payload with hst' | hst'
        · exact .inl (.inr (.inl hst'))
        · exact .inl (.inr (.inr hst'))
      · refine .inl (.inr (.inr ?_))
        simp only [processExistingTcb, hst, processCloseWait]
        split_ifs
        · exact (state_bufferData ..).trans hst
        · exact hst
    | poll now =>
      obtain ⟨st, r, rto, n, rfl | rfl, heq⟩ := t.exists_retransmit now
      · rw [onEvent, heq]
        exact .inl hopen
      · rw [onEvent, heq]
        exact .inr (.inr (.inr (.inr rfl)))
  · exact .inr (onEvent_isClosed hclosed e).1

/-- Our FIN is sent from `Established` and `CloseWait`, and stands behind the last byte. -/
theorem awaitsFinAck_onEvent {t : Tcb} (hopen : t.IsOpen) {e : ConnEvent}
    (h : (t.onEvent e).AwaitsFinAck) :
    (t.onEvent e).sndNxt = t.sndNxt + 1 ∧ (t.state = .established ∨ t.state = .closeWait) ∧
      ∃ now, e = .close now := by
  have hnot : ∀ t' : Tcb, t'.IsOpen → ¬ t'.AwaitsFinAck :=
    fun t' h' hawaits => h'.not_isClosed (.inl hawaits)
  have hsending : ∀ (t' : Tcb) segs now, (t'.afterSending segs now).AwaitsFinAck →
      t'.AwaitsFinAck := by
    intro t' segs now
    obtain ⟨r, hr⟩ := exists_afterSending segs now t'
    rw [hr]
    exact id
  cases e with
  | send data now =>
    have hawaits := hsending _ _ _ h
    unfold send at hawaits
    split at hawaits <;> exact absurd hawaits (hnot _ hopen)
  | recv => exact absurd h (hnot _ hopen)
  | close now =>
    obtain ⟨r, hr⟩ := exists_afterSending (t.close now).2 now (t.close now).1
    have hawaits := hsending _ _ _ h
    rw [onEvent, hr]
    rcases hopen with hst | hst | hst
    · simp [close, hst, AwaitsFinAck] at hawaits
    · simp [close, hst, sendFin]
    · simp [close, hst, sendFin]
  | segment header payload now =>
    have hawaits := hsending _ _ _ h
    rcases hopen with hst | hst | hst
    · simp only [processExistingTcb, hst, processSynSent] at hawaits
      split_ifs at hawaits <;> simp [AwaitsFinAck, hst] at hawaits
    · simp only [processExistingTcb, hst] at hawaits
      rcases state_processEstablished hst header payload with hst' | hst' <;>
        simp [AwaitsFinAck, hst'] at hawaits
    · simp only [processExistingTcb, hst, processCloseWait] at hawaits
      split_ifs at hawaits <;> simp [AwaitsFinAck, hst] at hawaits
  | poll now =>
    obtain ⟨st, r, rto, n, rfl | rfl, heq⟩ := t.exists_retransmit now
    · rw [onEvent, heq] at h
      exact absurd h (hnot _ hopen)
    · rw [onEvent, heq] at h
      simp [AwaitsFinAck] at h

end Tcb

/-! ## The connection and its history -/

namespace Conn

/-- The segments that leave because of an event. -/
def emits (c : Conn) (e : ConnEvent) : List OutgoingSegment := c.tcb.elim [] (·.emits e)

/-- All that a run has sent. -/
def emitted (c : Conn) (es : List ConnEvent) : List OutgoingSegment := Run.observe step emits c es

/-- The control block, if there is one, agrees with the history. -/
def Outgoing (iss : UInt32) (c : Conn) : Prop :=
  ∀ t, c.tcb = some t → t.Outgoing iss c.sent c.acked

/-- The application has closed, or the connection is gone. -/
def IsClosed (c : Conn) : Prop := ∀ t, c.tcb = some t → t.IsClosed

/-- `c` goes on to `c'`: what has been sent stays, and a closed connection sends nothing more. -/
structure LeadsTo (c c' : Conn) : Prop where
  sent : c.sent <+: c'.sent
  closed : c.IsClosed → c'.IsClosed ∧ c'.sent = c.sent

theorem LeadsTo.refl (c : Conn) : c.LeadsTo c := ⟨List.prefix_refl _, fun h => ⟨h, rfl⟩⟩

theorem LeadsTo.trans {c c' c'' : Conn} (h : c.LeadsTo c') (h' : c'.LeadsTo c'') :
    c.LeadsTo c'' where
  sent := h.sent.trans h'.sent
  closed hc := by
    obtain ⟨hc', hsame⟩ := h.closed hc
    obtain ⟨hc'', hsame'⟩ := h'.closed hc'
    exact ⟨hc'', hsame'.trans hsame⟩

theorem leadsTo_step (c : Conn) (e : ConnEvent) : c.LeadsTo (c.step e) := by
  cases hc : c.tcb with
  | none =>
    have hsame : c.step e = c := by simp only [step, hc]
    rw [hsame]
    exact LeadsTo.refl c
  | some t =>
    have hsent : (c.step e).sent = (c.record t e).sent := by simp only [step, hc]
    constructor
    · rw [hsent]
      cases e with
      | send data now =>
        simp only [record]
        split
        · exact List.prefix_append ..
        · exact List.prefix_refl _
      | _ => exact List.prefix_refl _
    · intro hclosed
      constructor
      · intro t' ht'
        obtain ⟨u, hu, rfl, -⟩ := exists_tcb_of_step ht'
        exact (Tcb.onEvent_isClosed (hclosed u hu) e).1
      · rw [hsent]
        cases e with
        | send data now =>
          simp only [record]
          rw [if_neg (hclosed t hc).ne_established]
        | _ => rfl

theorem leadsTo_run (c : Conn) (es : List ConnEvent) : c.LeadsTo (run step c es) := by
  induction es generalizing c with
  | nil => exact LeadsTo.refl c
  | cons e es ih => exact (leadsTo_step c e).trans (ih _)

theorem outgoing_opened (key : ConnKey) (iss : UInt32) (now : Instant) :
    (opened key iss now).Outgoing iss := by
  intro t ht
  have hwindow := sendInv_opened key iss now t ht
  obtain rfl := Option.some.inj ht
  exact ⟨rfl, hwindow, .inl (.inl rfl),
    fun h => absurd h (by simp [Tcb.AwaitsFinAck, ConnKey.opened, Tcb.opened])⟩

/-- Every event of a connection keeps what its history says. -/
theorem outgoing_step {iss : UInt32} {c : Conn} (h : c.Outgoing iss) (e : ConnEvent) :
    (c.step e).Outgoing iss := by
  intro t' ht'
  have hwindow : t'.SendInv (c.step e).sent (c.step e).acked :=
    sendInv_step c e (fun t ht => (h t ht).window) t' ht'
  obtain ⟨t, hc, rfl, hstep⟩ := exists_tcb_of_step ht'
  have ht := h t hc
  refine ⟨(t.iss_onEvent e).trans ht.iss_eq, hwindow, Tcb.stage_onEvent ht.stage e, ?_⟩
  intro hawaits
  have hsent : (c.step e).sent = (c.record t e).sent := by rw [hstep]
  rcases ht.stage with hopen | hclosed
  · obtain ⟨hnxt, hst, now, rfl⟩ := Tcb.awaitsFinAck_onEvent hopen hawaits
    have hbefore := (ht.window.window hst).sndNxt_eq
    rw [hnxt, hbefore, ht.iss_eq, hsent]
    rfl
  · obtain ⟨hawaits', -, hnxt⟩ := (Tcb.onEvent_isClosed hclosed e).2 hawaits
    have hsame := ((leadsTo_step c e).closed fun u hu => ?_).2
    · rw [hnxt, ht.fin hawaits', hsame]
    · obtain rfl := Option.some.inj (hc.symm.trans hu)
      exact hclosed

/-- When the timer makes a connection send its data again, what it sends is the front of what is
unacknowledged. -/
def ResendsFront (c : Conn) : ConnEvent → Prop
  | .poll now => ∀ t, c.tcb = some t → t.sendsAgain now → t.retransmitPayload <+: t.sendBuffer
  | _ => True

end Conn

section Step

variable {iss : UInt32} {D : List UInt8} {t : Tcb} {c : Conn}

/-- The flags of data. -/
theorem no_syn_fin {flags : UInt8} (h : flags = tcpAck ∨ flags = tcpPsh ||| tcpAck) :
    flags &&& tcpSyn = 0 ∧ flags &&& tcpFin = 0 := by
  rcases h with rfl | rfl <;> decide

/-- What a timer sends that is not data is a piece of the stream. -/
theorem consistent_retransmit {sent : List UInt8} {acked : Nat} (h : t.Outgoing iss sent acked)
    (hD : t.AwaitsFinAck → sent = D) {now : Instant} (hnot : ¬ t.sendsAgain now)
    {seg : OutgoingSegment} (hseg : (t.retransmit now).2 = some seg) (port : UInt16) :
    ConsistentSegment iss D (seg.header port) seg.payload := by
  unfold Tcb.retransmit at hseg
  split_ifs at hseg with hfired hcount
  obtain rfl := Option.some.inj hseg
  have hdata : ¬ (t.state = .established ∨ t.state = .closeWait) :=
    fun hst => hnot ⟨hst, hfired, Nat.not_le.mp hcount⟩
  have hbare : ∀ seg : OutgoingSegment, seg.flags = tcpAck → seg.payload = [] →
      ConsistentSegment iss D (seg.header port) seg.payload :=
    fun _ hflags hpayload => (bare_of_ack hflags hpayload).consistent
  have hfin : ∀ seg : OutgoingSegment, t.AwaitsFinAck → seg.flags = tcpFin ||| tcpAck →
      seg.payload = [] → seg.seq = t.sndNxt - 1 →
      ConsistentSegment iss D (seg.header port) seg.payload := by
    intro seg hawaits hflags hpayload hseq
    refine consistent_fin hflags hpayload ?_
    rw [hseq, h.fin hawaits, hD hawaits, add_sub_cancel_right]
  have hopen := h.stage
  have hwindow := h.window
  unfold Tcb.buildRetransmit
  cases hst : t.state with
  | synSent =>
    exact consistent_syn rfl rfl h.iss_eq
  | synReceived => simp [Tcb.SendInv, hst] at hwindow
  | established => exact absurd (.inl hst) hdata
  | closeWait => exact absurd (.inr hst) hdata
  | finWait1 => exact hfin _ (.inl hst) rfl rfl rfl
  | lastAck => exact hfin _ (.inr (.inl hst)) rfl rfl rfl
  | closing => exact hfin _ (.inr (.inr hst)) rfl rfl rfl
  | finWait2 => exact hbare _ rfl rfl
  | timeWait => exact hbare _ rfl rfl
  | closed => exact hbare _ rfl rfl
  | listen => exact hbare _ rfl rfl

/-- What the timer sends of the data is a piece of the stream exactly if it is the front of what
is unacknowledged: it starts at `snd_una`. -/
theorem consistent_sendsAgain_iff {sent : List UInt8} {acked : Nat} (h : t.Outgoing iss sent acked)
    (hD : sent <+: D) (hlen : D.length < 2 ^ 32) {now : Instant} (hagain : t.sendsAgain now)
    {seg : OutgoingSegment} (hseg : (t.retransmit now).2 = some seg) (port : UInt16) :
    ConsistentSegment iss D (seg.header port) seg.payload ↔
      t.retransmitPayload <+: t.sendBuffer := by
  have hwin := h.window.window hagain.1
  obtain ⟨hseq, hpayload⟩ := Tcb.retransmit_of_data hagain.1 hseg
  have hflags : seg.flags = tcpAck ∨ seg.flags = tcpPsh ||| tcpAck := by
    unfold Tcb.retransmit at hseg
    split_ifs at hseg
    obtain rfl := Option.some.inj hseg
    rcases hagain.1 with hst | hst <;> simp only [Tcb.buildRetransmit, hst] <;>
      exact (em _).imp (fun hempty => if_pos hempty) fun hempty => if_neg hempty
  obtain ⟨hsyn, hfin⟩ := no_syn_fin hflags
  have hacked : acked < 2 ^ 32 := lt_of_le_of_lt (le_trans hwin.acked_le hD.length_le) hlen
  have hstart : seg.seq = iss + 1 + UInt32.ofNat acked := by
    rw [hseq, hwin.sndUna_eq, h.iss_eq]
  have hbuffer : t.sendBuffer <+: D.drop acked := by
    rw [hwin.sendBuffer_eq]
    exact hD.drop acked
  rw [consistent_data_iff hsyn hfin hacked hstart, hpayload]
  refine ⟨fun hpiece => List.prefix_of_prefix_length_le hpiece hbuffer ?_, fun hfront =>
    hfront.trans hbuffer⟩
  rw [Tcb.length_retransmitPayload]
  exact Nat.sub_le ..

/-- What `close` sends is the FIN, behind the last byte, or a reset. -/
theorem consistent_close {sent : List UInt8} {acked : Nat} (h : t.Outgoing iss sent acked)
    {now : Instant} (hD : (t.close now).1.AwaitsFinAck → sent = D) :
    ∀ seg ∈ (t.close now).2, ∀ port,
      ConsistentSegment iss D (seg.header port) seg.payload := by
  intro seg hseg port
  have hfin : t.state = .established ∨ t.state = .closeWait → sent = D →
      ∀ seg : OutgoingSegment, seg.flags = tcpFin ||| tcpAck → seg.payload = [] →
        seg.seq = t.sndNxt → ConsistentSegment iss D (seg.header port) seg.payload := by
    intro hst hsent seg hflags hpayload hseq
    refine consistent_fin hflags hpayload ?_
    rw [hseq, (h.window.window hst).sndNxt_eq, h.iss_eq, hsent]
    rfl
  have hreset : ∀ seg : OutgoingSegment, seg.flags = tcpRst → seg.payload = [] →
      ConsistentSegment iss D (seg.header port) seg.payload := fun seg hflags hpayload =>
    OutgoingSegment.Bare.consistent ⟨hpayload, by rw [hflags]; rfl, by rw [hflags]; rfl⟩
  unfold Tcb.close at hseg hD
  cases hst : t.state with
  | established =>
    simp only [hst, Tcb.sendFin] at hseg hD
    rw [List.mem_singleton.mp hseg]
    exact hfin (.inl hst) (hD (.inl rfl)) _ rfl rfl rfl
  | closeWait =>
    simp only [hst, Tcb.sendFin] at hseg hD
    rw [List.mem_singleton.mp hseg]
    exact hfin (.inr hst) (hD (.inr (.inl rfl))) _ rfl rfl rfl
  | closed =>
    simp only [hst] at hseg
    cases hseg
  | timeWait =>
    simp only [hst] at hseg
    cases hseg
  | listen =>
    simp only [hst] at hseg
    cases hseg
  | _ =>
    simp only [hst] at hseg
    rw [List.mem_singleton.mp hseg]
    exact hreset _ rfl rfl

/-- What `send` sends is the next piece. -/
theorem consistent_send {sent : List UInt8} {acked : Nat} (h : t.Outgoing iss sent acked)
    {data : List UInt8} (hD : t.state = .established → sent ++ data <+: D)
    (hlen : D.length < 2 ^ 32) :
    ∀ seg ∈ (t.send data).2, ∀ port,
      ConsistentSegment iss D (seg.header port) seg.payload := by
  intro seg hseg port
  unfold Tcb.send at hseg
  split at hseg
  · cases hseg
  · rename_i hst
    have hst : t.state = .established := not_not.mp hst
    have hprefix := hD hst
    have hnxt := (h.window.window (.inl hst)).sndNxt_eq
    rw [h.iss_eq] at hnxt
    have hle := hprefix.length_le
    rw [List.length_append] at hle
    have hflags : (tcpPsh ||| tcpAck) &&& tcpSyn = 0 ∧ (tcpPsh ||| tcpAck) &&& tcpFin = 0 := by
      decide
    rw [List.mem_singleton.mp hseg]
    refine (consistent_data_iff hflags.1 hflags.2 (k := sent.length) (by omega) hnxt).mpr ?_
    have hdrop := hprefix.drop sent.length
    rwa [List.drop_left] at hdrop

/-- **The step.**  With respect to the stream `D` that a connection will have sent in the end, all
that leaves because of an event are pieces, exactly if the timer only resends the front. -/
theorem consistent_iff (h : c.Outgoing iss) {e : ConnEvent} {c' : Conn}
    (hD : (c.step e).LeadsTo c') (hlen : c'.sent.length < 2 ^ 32) (port : UInt16) :
    (∀ seg ∈ c.emits e, ConsistentSegment iss c'.sent (seg.header port) seg.payload) ↔
      c.ResendsFront e := by
  cases hc : c.tcb with
  | none =>
    refine iff_of_true (by simp [Conn.emits, hc]) ?_
    cases e with
    | poll now => exact fun t ht => absurd (hc.symm.trans ht) (by simp)
    | _ => trivial
  | some t =>
    have ht := h t hc
    have hstep := Conn.step_tcb c e
    have hsent : (c.step e).sent = (c.record t e).sent := by simp only [Conn.step, hc]
    have hprefix := hD.sent
    rw [hsent] at hprefix
    simp only [Conn.emits, hc, Option.elim_some]
    cases e with
    | send data now =>
      refine iff_of_true (fun seg hseg => consistent_send ht (fun hst => ?_) hlen seg hseg port)
        trivial
      simpa only [Conn.record, if_pos hst] using hprefix
    | recv => exact iff_of_true (by simp [Tcb.emits]) trivial
    | close now =>
      refine iff_of_true (fun seg hseg => consistent_close ht (fun hawaits => ?_) seg hseg port)
        trivial
      have hclosed : (c.step (.close now)).IsClosed := by
        intro t' ht'
        rw [hstep, hc] at ht'
        obtain rfl := Option.some.inj ht'
        exact (Tcb.isClosed_afterSending ..).mpr (.inl hawaits)
      have hsame := (hD.closed hclosed).2
      rw [hsame, hsent]
      rfl
    | segment header payload now =>
      refine iff_of_true (fun seg hseg => ?_) trivial
      have hst : t.state ≠ .synReceived := by
        intro hst
        have hwindow := ht.window
        simp [Tcb.SendInv, hst] at hwindow
      exact (Tcb.bare_processExistingTcb hst header payload now seg hseg).consistent
    | poll now =>
      by_cases hagain : t.sendsAgain now
      · obtain ⟨seg, hseg⟩ := Tcb.exists_retransmit_of_sendsAgain hagain
        have hiff := consistent_sendsAgain_iff ht hprefix hlen hagain hseg port
        simp only [Tcb.emits, hseg, Option.toList_some, List.forall_mem_singleton, hiff,
          Conn.ResendsFront]
        constructor
        · intro hfront u hu _
          obtain rfl := Option.some.inj (hc.symm.trans hu)
          exact hfront
        · exact fun hall => hall t hc hagain
      · refine iff_of_true (fun seg hseg => ?_) fun u hu hagain' => absurd hagain' ?_
        · have hthis := Option.mem_toList.mp hseg
          refine consistent_retransmit ht (fun hawaits => ?_) hagain hthis port
          -- the FIN has been sent, so nothing has been added since
          have hclosed : c.IsClosed := by
            intro u hu
            obtain rfl := Option.some.inj (hc.symm.trans hu)
            exact .inl hawaits
          exact ((((Conn.leadsTo_step c _).trans hD).closed hclosed).2).symm
        · obtain rfl := Option.some.inj (hc.symm.trans hu)
          exact hagain

end Step

/-- **What leaves is the stream.**  In every run of a connection, everything that leaves is a piece
of what `send` has taken while `Established` by its end, with the SYN before it and the FIN behind
it, exactly if what the timer resends is always the front of what is unacknowledged. -/
theorem outgoing_consistent_iff (key : ConnKey) (iss : UInt32) (now : Instant)
    (es : List ConnEvent)
    (hlen : (run Conn.step (Conn.opened key iss now) es).sent.length < 2 ^ 32) :
    (∀ seg ∈ (Conn.opened key iss now).emitted es,
      ConsistentSegment iss (run Conn.step (Conn.opened key iss now) es).sent
        (seg.header key.localPort) seg.payload) ↔
      Run.Guarded Conn.step Conn.ResendsFront (Conn.opened key iss now) es := by
  have hrun : ∀ c : Conn, c.Outgoing iss → (run Conn.step c es).sent.length < 2 ^ 32 →
      ((∀ seg ∈ c.emitted es, ConsistentSegment iss (run Conn.step c es).sent
        (seg.header key.localPort) seg.payload) ↔
          Run.Guarded Conn.step Conn.ResendsFront c es) := by
    clear hlen
    induction es with
    | nil => exact fun c _ _ => iff_of_true (by rintro seg ⟨⟩) trivial
    | cons e es ih =>
      intro c hc hlen
      rw [Run.run_cons] at hlen ⊢
      rw [Conn.emitted, Run.observe, List.forall_mem_append,
        consistent_iff hc (Conn.leadsTo_run (c.step e) es) hlen key.localPort]
      exact and_congr_right fun _ => ih (c.step e) (Conn.outgoing_step hc e) hlen
  exact hrun _ (Conn.outgoing_opened key iss now) hlen

/-- The demo connection sends its two bytes again after a second, and is closed. -/
def demoResend : List ConnEvent := demoEarlySend ++ [.poll 1000000000, .close 1000000000]

theorem demo_resend_consistent :
    ((Conn.opened demoKey 1000 0).emitted demoResend).map (fun seg => (seg.flags, seg.payload)) =
        [(tcpAck, []), (tcpPsh ||| tcpAck, [104, 105]), (tcpPsh ||| tcpAck, [104, 105]),
          (tcpFin ||| tcpAck, [])] ∧
      ∀ seg ∈ (Conn.opened demoKey 1000 0).emitted demoResend,
        ConsistentSegment 1000 (run Conn.step (Conn.opened demoKey 1000 0) demoResend).sent
          (seg.header demoKey.localPort) seg.payload := by
  refine ⟨by decide, (outgoing_consistent_iff demoKey 1000 0 demoResend (by decide)).mpr ?_⟩
  refine ⟨trivial, trivial, ?_, trivial, trivial⟩
  rintro t ⟨⟩ -
  exact List.prefix_refl _

end PpcaNetwork.TcpStack
