import PpcaNetwork.TcpStack.Replies
import PpcaNetwork.TcpStack.SendSide

/-!
# Flow control

What a connection puts on the wire against the window of its peer, and what it buffers
against the window that it advertises, which is `DEFAULT_WINDOW` in every segment.

* `Tcb.takesData` and `Tcb.recvBuffer_processExistingTcb` — which segments fill the
  receive buffer.
* `Watched` — a stack together with the window of the latest acceptable acknowledgement
  on one connection.
* `Watched.InWindow` and `Watched.Conforms` — flow control for what an event does, and
  the events for which there is some.
* `flow_control_iff` — flow control in a run.
-/

namespace PpcaNetwork.TcpStack

namespace Tcb

/-! ## Segments and the receive buffer -/

/-- The payload goes into the receive buffer: it is the next expected one, in a state
that takes data, and no FIN is taken from its segment after ours. -/
def takesData (t : Tcb) (header : TcpHeader) (payload : List UInt8) : Bool :=
  decide (0 < segLen payload ∧ header.seq = t.rcvNxt) &&
    match t.state with
    | .established | .closeWait => true
    | .finWait1 | .finWait2 => !t.takesFin header
    | _ => false

theorem recvBuffer_bufferData (t : Tcb) (header : TcpHeader) (payload : List UInt8) :
    (t.bufferData header payload).recvBuffer =
      if 0 < segLen payload ∧ header.seq = t.rcvNxt then t.recvBuffer ++ payload
      else t.recvBuffer := by
  unfold bufferData
  split <;> rfl

theorem recvBuffer_processEstablished (t : Tcb) (header : TcpHeader) (payload : List UInt8) :
    (t.processEstablished header payload).1.recvBuffer =
      if 0 < segLen payload ∧ header.seq = t.rcvNxt then t.recvBuffer ++ payload
      else t.recvBuffer := by
  have hsame : (t.processAck header).rcvNxt = t.rcvNxt ∧
      (t.processAck header).recvBuffer = t.recvBuffer := by
    rcases t.processAck_cases header with heq | ⟨-, heq⟩ <;> rw [heq] <;> exact ⟨rfl, rfl⟩
  rw [processEstablished]
  by_cases hacc : header.Occupies payload ∧ header.seq = (t.processAck header).rcvNxt
  · have hseq : header.seq = t.rcvNxt := hacc.2.trans hsame.1
    rw [processData_accepted hacc.1 hacc.2]
    simp only [accepted, hsame.2, hseq, and_true]
  · rw [processData_ignored hacc, hsame.2, if_neg]
    rintro ⟨hdata, hseq⟩
    exact hacc ⟨.inl hdata, hseq.trans hsame.1.symm⟩

theorem recvBuffer_finWait {t : Tcb} (hst : t.state = .finWait1 ∨ t.state = .finWait2)
    (header : TcpHeader) (payload : List UInt8) (now : Instant) :
    (t.processExistingTcb header payload now).1.recvBuffer =
      if t.takesData header payload then t.recvBuffer ++ payload else t.recvBuffer := by
  have htakes : t.takesData header payload =
      (decide (0 < segLen payload ∧ header.seq = t.rcvNxt) && !t.takesFin header) := by
    rcases hst with hst | hst <;> simp only [takesData, hst]
  rw [htakes]
  by_cases hfin : t.takesFin header = true
  · obtain ⟨-, hbuf, -, -⟩ := processExistingTcb_takesFin hfin payload now
    rw [hbuf, hfin]
    simp
  · have hnot : t.takesFin header = false := Bool.not_eq_true _ ▸ hfin
    obtain ⟨-, hbuf, -, -⟩ := processExistingTcb_buffers hst hnot payload now
    rw [hbuf, recvBuffer_bufferData, hnot]
    simp

/-- **What a segment does to the receive buffer.** -/
theorem recvBuffer_processExistingTcb (t : Tcb) (header : TcpHeader) (payload : List UInt8)
    (now : Instant) :
    (t.processExistingTcb header payload now).1.recvBuffer =
      if t.takesData header payload then t.recvBuffer ++ payload else t.recvBuffer := by
  cases hst : t.state with
  | established =>
    simp only [processExistingTcb, hst, takesData, Bool.and_true, decide_eq_true_eq]
    exact t.recvBuffer_processEstablished header payload
  | closeWait =>
    simp only [processExistingTcb, hst, takesData, Bool.and_true, decide_eq_true_eq,
      processCloseWait]
    by_cases hnext : 0 < segLen payload ∧ header.seq = t.rcvNxt
    · rw [if_pos hnext, if_pos hnext]
      simp only [recvBuffer_bufferData, if_pos hnext]
    · rw [if_neg hnext, if_neg hnext]
  | finWait1 => exact recvBuffer_finWait (.inl hst) header payload now
  | finWait2 => exact recvBuffer_finWait (.inr hst) header payload now
  | synSent =>
    simp only [processExistingTcb, hst, takesData, processSynSent]
    split_ifs <;> simp_all
  | synReceived =>
    simp only [processExistingTcb, hst, takesData, processSynReceived]
    split_ifs <;> simp_all
  | closing =>
    simp only [processExistingTcb, hst, takesData, processClosing]
    split_ifs <;> simp_all
  | lastAck =>
    simp only [processExistingTcb, hst, takesData, processLastAck]
    split_ifs <;> simp_all
  | closed => simp [processExistingTcb, hst, takesData]
  | listen => simp [processExistingTcb, hst, takesData]
  | timeWait => simp [processExistingTcb, hst, takesData]

/-- The receive buffer after any event of the connection. -/
theorem recvBuffer_onEvent (t : Tcb) (e : ConnEvent) :
    (t.onEvent e).recvBuffer =
      match e with
      | .recv => []
      | .segment header payload _ =>
        if t.takesData header payload then t.recvBuffer ++ payload else t.recvBuffer
      | _ => t.recvBuffer := by
  have hafter : ∀ (segs : List OutgoingSegment) (now : Instant) (u : Tcb),
      (u.afterSending segs now).recvBuffer = u.recvBuffer := by
    intro segs now u
    obtain ⟨r, hr⟩ := exists_afterSending segs now u
    rw [hr]
  cases e with
  | send data now =>
    simp only [onEvent, hafter, send]
    split <;> rfl
  | recv => rfl
  | close now =>
    simp only [onEvent, hafter, close]
    split <;> rfl
  | segment header payload now =>
    simp only [onEvent, hafter]
    exact t.recvBuffer_processExistingTcb header payload now
  | poll now =>
    obtain ⟨st, r, rto, n, -, heq⟩ := t.exists_retransmit now
    simp only [onEvent, heq]

/-! ## The peer's window -/

/-- The segment acknowledges something between `snd_una` and `snd_nxt`. -/
def acceptsAck (t : Tcb) (header : TcpHeader) : Bool :=
  header.has tcpAck && decide (header.ack - t.sndUna ≤ t.sndNxt - t.sndUna)

/-- The data part of a retransmission, in bytes. -/
theorem length_retransmitPayload (t : Tcb) :
    t.retransmitPayload.length = t.sendBuffer.length - (t.sndUna - (t.iss + 1)).toNat := by
  unfold retransmitPayload
  split
  · rw [List.length_drop]
  · rw [List.length_nil]
    omega

/-- The timer makes a connection in a data state send again at `now`. -/
def sendsAgain (t : Tcb) (now : Instant) : Prop :=
  (t.state = .established ∨ t.state = .closeWait) ∧ t.timerFired now = true ∧
    t.retransmitCount < maxRetransmits

theorem exists_retransmit_of_sendsAgain {t : Tcb} {now : Instant} (h : t.sendsAgain now) :
    ∃ seg, (t.retransmit now).2 = some seg := by
  obtain ⟨-, hfired, hcount⟩ := h
  rw [retransmit, if_pos hfired, if_neg (Nat.not_le.mpr hcount)]
  exact ⟨_, rfl⟩

/-- Only such a connection has data in what the timer sends. -/
theorem sendsAgain_of_retransmit {t : Tcb} {now : Instant} {seg : OutgoingSegment}
    (h : (t.retransmit now).2 = some seg) (hdata : seg.payload ≠ []) : t.sendsAgain now := by
  unfold retransmit at h
  split at h
  · rename_i hfired
    split at h
    · exact absurd h (by simp)
    · rename_i hcount
      obtain rfl := Option.some.inj h
      refine ⟨?_, hfired, Nat.not_le.mp hcount⟩
      simp only [buildRetransmit] at hdata
      split at hdata <;> simp_all
  · exact absurd h (by simp)

/-- What `send` adds to the bytes between the counters, modulo 2^32. -/
theorem toNat_sub_onEvent_send {t : Tcb} (hst : t.state = .established) (data : List UInt8)
    (now : Instant) :
    ((t.onEvent (.send data now)).sndNxt - (t.onEvent (.send data now)).sndUna).toNat =
      ((t.sndNxt - t.sndUna).toNat + data.length) % 2 ^ 32 := by
  obtain ⟨r, hr⟩ := exists_afterSending (t.send data).2 now (t.send data).1
  have hsend : (t.send data).1 =
      { t with sndNxt := t.sndNxt + segLen data, sendBuffer := t.sendBuffer ++ data } := by
    rw [send, if_neg (not_not.mpr hst)]
  have hsub : t.sndNxt + segLen data - t.sndUna = (t.sndNxt - t.sndUna) + segLen data := by
    rw [add_sub_right_comm]
  rw [onEvent, hr, hsend]
  show (t.sndNxt + segLen data - t.sndUna).toNat = _
  rw [hsub, UInt32.toNat_add, segLen, UInt32.toNat_ofNat', Nat.add_mod_mod]

end Tcb

namespace TcpCore

/-! ## What leaves under a key -/

/-- Segments leave under the key of their connection. -/
theorem mem_map_key {k key : ConnKey} {segs : List OutgoingSegment} {seg : OutgoingSegment}
    (h : (some k, seg) ∈ segs.map fun seg => (some key, seg)) : key = k ∧ seg ∈ segs := by
  obtain ⟨seg', hmem, heq⟩ := List.mem_map.mp h
  obtain ⟨hkey, rfl⟩ := Prod.mk.inj heq
  exact ⟨Option.some.inj hkey, hmem⟩

/-- Data leaves under the key of a connection by its own `send` and by its timer only. -/
theorem emitted_data {c : TcpCore} {k : ConnKey} {t : Tcb} (ht : c.get k = some t) {e : Event}
    {seg : OutgoingSegment} (hseg : (some k, seg) ∈ c.emitted e) (hdata : seg.payload ≠ []) :
    (∃ data, e = .send k data ∧ t.state = .established ∧ seg.seq = t.sndNxt ∧
        seg.payload = data) ∨
      ∃ elapsed, e = .poll elapsed ∧ (t.retransmit (c.now + elapsed)).2 = some seg := by
  have hentry : c.tcp.get k = some t := ht
  cases e with
  | connect remoteIp remotePort iss =>
    refine absurd ?_ hdata
    by_cases hr : (c.get (c.tcp.connectKey c.ourIp remoteIp remotePort)).any
        TcpManager.isReused = true
    · simp [emitted, connect, c.tcp.initiateConnect_reused c.now iss hr] at hseg
    · simp only [emitted, connect, c.tcp.initiateConnect_new c.now iss hr, List.map_cons,
        List.map_nil, List.mem_singleton, Prod.mk.injEq] at hseg
      rw [hseg.2]
  | send key data =>
    simp only [emitted, send, TcpManager.update_snd] at hseg
    obtain ⟨rfl, hmem⟩ := mem_map_key hseg
    rw [hentry, Option.elim_some, Tcb.send] at hmem
    split at hmem
    · exact absurd hmem (by simp)
    · rename_i hst
      rw [List.mem_singleton.mp hmem]
      exact .inl ⟨data, rfl, not_not.mp hst, rfl, rfl⟩
  | recv key => exact absurd hseg (by simp [emitted])
  | close key =>
    refine absurd ?_ hdata
    simp only [emitted, close, TcpManager.close, TcpManager.update_snd] at hseg
    obtain ⟨rfl, hmem⟩ := mem_map_key hseg
    rw [hentry, Option.elim_some] at hmem
    unfold Tcb.close Tcb.sendFin at hmem
    split at hmem <;> simp_all
  | segment remoteIp header payload =>
    refine absurd ?_ hdata
    by_cases hk : TcpManager.segmentKey c.ourIp remoteIp header = k
    · have hfor : c.segmentFor k (.segment remoteIp header payload) = some (header, payload) :=
        if_pos hk
      rw [(get_segmentFor ht hfor).2] at hseg
      obtain ⟨seg', hmem, heq⟩ := List.mem_map.mp hseg
      obtain ⟨-, rfl⟩ := Prod.mk.inj heq
      exact t.payload_processExistingTcb header payload c.now seg' hmem
    · obtain ⟨-, hkey⟩ := c.tcp.process_of_ne remoteIp header payload c.now hk
      obtain ⟨seg', -, heq⟩ := List.mem_map.mp hseg
      exact absurd (Prod.mk.inj heq).1 hkey
  | poll elapsed =>
    obtain ⟨⟨key, seg'⟩, hmem, heq⟩ := List.mem_map.mp hseg
    obtain ⟨hkey, rfl⟩ := Prod.mk.inj heq
    obtain rfl := Option.some.inj hkey
    obtain ⟨u, hu, hret⟩ := (TcpManager.mem_pollRetransmit ..).mp hmem
    obtain rfl : t = u := Option.some.inj (hentry.symm.trans hu)
    exact .inr ⟨elapsed, rfl, hret⟩

/-- What `send` puts on the wire. -/
theorem mem_emitted_send {c : TcpCore} {k : ConnKey} {t : Tcb} (ht : c.get k = some t)
    (hst : t.state = .established) (data : List UInt8) :
    (some k, { flags := tcpPsh ||| tcpAck, seq := t.sndNxt, ack := t.rcvNxt, payload := data,
               dstPort := t.remotePort }) ∈ c.emitted (.send k data) := by
  have hentry : c.tcp.get k = some t := ht
  simp [emitted, send, TcpManager.update_snd, hentry, Tcb.send, hst]

theorem get_step_send {c : TcpCore} {k : ConnKey} {t : Tcb} (ht : c.get k = some t)
    (data : List UInt8) :
    (c.step (.send k data)).get k = some (t.onEvent (.send data c.now)) := by
  rw [get_step, observe, if_pos rfl, ht]
  rfl

/-- What the timer puts on the wire. -/
theorem mem_emitted_poll {c : TcpCore} {k : ConnKey} {t : Tcb} (ht : c.get k = some t)
    {elapsed : Duration} {seg : OutgoingSegment}
    (hret : (t.retransmit (c.now + elapsed)).2 = some seg) :
    (some k, seg) ∈ c.emitted (.poll elapsed) :=
  List.mem_map.mpr ⟨(k, seg), (TcpManager.mem_pollRetransmit ..).mpr ⟨t, ht, hret⟩, rfl⟩

end TcpCore

/-! ## The connection and its peer's window -/

/-- A stack, and the window of the latest acceptable acknowledgement that one of its
connections has received: no field of the control block follows it. -/
structure Watched where
  core : TcpCore
  window : UInt16

namespace Watched

/-- The window after an event. -/
def windowAfter (k : ConnKey) (s : Watched) (e : Event) : UInt16 :=
  match s.core.get k, s.core.segmentFor k e with
  | some t, some (header, _) => if t.acceptsAck header then header.window else s.window
  | _, _ => s.window

/-- One event of the stack. -/
def step (k : ConnKey) (s : Watched) (e : Event) : Watched := ⟨s.core.step e, s.windowAfter k e⟩

/-- **Flow control for one event**: no byte of data leaves beyond the peer's window, a
`send` leaves no more outstanding than it, and no more is buffered than we advertise. -/
structure InWindow (k : ConnKey) (s : Watched) (e : Event) : Prop where
  onWire : ∀ t, s.core.get k = some t → ∀ seg, (some k, seg) ∈ s.core.emitted e →
    seg.payload = [] ∨ (seg.seq - t.sndUna).toNat + seg.payload.length ≤ s.window.toNat
  outstanding : ∀ data t t', e = .send k data → s.core.get k = some t → t.state = .established →
    (s.core.step e).get k = some t' → (t'.sndNxt - t'.sndUna).toNat ≤ s.window.toNat
  buffered : ∀ t', (s.core.step e).get k = some t' → t'.recvBuffer.length ≤ defaultWindow.toNat

/-- What the application, the timer and the peer must keep to. -/
def Conforms (k : ConnKey) (s : Watched) (e : Event) : Prop :=
  ∀ t, s.core.get k = some t →
    match e with
    | .send key data => key = k → t.state = .established →
      (t.sndNxt - t.sndUna).toNat + data.length ≤ s.window.toNat
    | .poll elapsed => t.sendsAgain (s.core.now + elapsed) →
      t.sendBuffer.length - (t.sndUna - (t.iss + 1)).toNat ≤ s.window.toNat
    | .segment remoteIp header payload =>
      TcpManager.segmentKey s.core.ourIp remoteIp header = k → t.takesData header payload = true →
        t.recvBuffer.length + payload.length ≤ defaultWindow.toNat
    | _ => True

/-- The receive buffer fits into the window we advertise. -/
def Fits (k : ConnKey) (s : Watched) : Prop :=
  ∀ t, s.core.get k = some t → t.recvBuffer.length ≤ defaultWindow.toNat

/-! ## The receive side -/

theorem eq_segmentFor_of_observe {c : TcpCore} {k : ConnKey} {e : Event} {header : TcpHeader}
    {payload : List UInt8} {now : Instant}
    (h : KeyEvent.conn (.segment header payload now) ∈ c.observe k e) :
    c.segmentFor k e = some (header, payload) := by
  cases e with
  | segment remoteIp header' payload' =>
    simp only [TcpCore.observe] at h
    split at h
    · rename_i hk
      obtain ⟨rfl, rfl, -⟩ : header = header' ∧ payload = payload' ∧ now = c.now := by
        simpa using h
      exact if_pos hk
    · exact absurd h (by simp)
  | poll elapsed => exact absurd h (by simp [TcpCore.observe])
  | _ =>
    simp only [TcpCore.observe] at h
    split at h
    · exact absurd h (by simp)
    · exact absurd h (by simp)

/-- Only a segment whose data is taken makes the buffer longer. -/
theorem length_recvBuffer_stepKey {k : ConnKey} {entry : Option Tcb} {bound : Nat}
    (hentry : ∀ t, entry = some t → t.recvBuffer.length ≤ bound) {e : KeyEvent}
    (htaken : ∀ t header payload now, entry = some t → e = .conn (.segment header payload now) →
      t.takesData header payload = true → t.recvBuffer.length + payload.length ≤ bound)
    {t' : Tcb} (ht' : Tcb.stepKey k entry e = some t') : t'.recvBuffer.length ≤ bound := by
  cases e with
  | opened iss now =>
    obtain rfl : k.opened iss now = t' := Option.some.inj ht'
    exact Nat.zero_le _
  | conn e =>
    cases entry with
    | none => exact absurd ht' (by simp [Tcb.stepKey])
    | some t =>
      obtain rfl : t.onEvent e = t' := Tcb.eq_onEvent_of_stepConn ht'
      rw [Tcb.recvBuffer_onEvent]
      cases e with
      | recv => exact Nat.zero_le _
      | segment header payload now =>
        simp only
        split
        · rename_i htakes
          rw [List.length_append]
          exact htaken t header payload now rfl rfl htakes
        · exact hentry t rfl
      | _ => exact hentry t rfl

/-- A step keeps the buffer within the window if the data it takes still fits. -/
theorem Fits.step {k : ConnKey} {s : Watched} (hs : s.Fits k) {e : Event}
    (htaken : ∀ t header payload, s.core.get k = some t →
      s.core.segmentFor k e = some (header, payload) → t.takesData header payload = true →
        t.recvBuffer.length + payload.length ≤ defaultWindow.toNat) :
    ∀ t', (s.core.step e).get k = some t' → t'.recvBuffer.length ≤ defaultWindow.toNat := by
  intro t' ht'
  rw [TcpCore.get_step] at ht'
  have hone : ∀ e', s.core.observe k e = [e'] →
      t'.recvBuffer.length ≤ defaultWindow.toNat := by
    intro e' he'
    rw [he', Run.run_cons, Run.run_nil] at ht'
    refine length_recvBuffer_stepKey hs ?_ ht'
    rintro t header payload now ht rfl
    exact htaken t header payload ht (eq_segmentFor_of_observe (he' ▸ List.mem_singleton_self _))
  cases hobs : s.core.observe k e with
  | nil => exact hs t' (by simpa [hobs] using ht')
  | cons e' rest =>
    refine hone e' ?_
    have hshort : (s.core.observe k e).length ≤ 1 := by
      unfold TcpCore.observe
      split <;> (try split_ifs) <;> simp
    rw [hobs] at hshort ⊢
    rw [List.length_eq_zero_iff.mp (Nat.le_zero.mp (Nat.le_of_succ_le_succ hshort))]

/-! ## One event -/

section OneEvent

variable {k : ConnKey} {s : Watched} {e : Event}

/-- What stays within both windows conforms. -/
theorem InWindow.conforms (h : s.InWindow k e) : s.Conforms k e := by
  intro t ht
  cases e with
  | send key data =>
    rintro rfl hst
    rcases h.onWire t ht _ (TcpCore.mem_emitted_send ht hst data) with hnil | hle
    · -- without data, what was outstanding before is what is outstanding afterwards
      obtain rfl : data = [] := hnil
      have hout := h.outstanding [] t _ rfl ht hst (TcpCore.get_step_send ht [])
      rwa [Tcb.toNat_sub_onEvent_send hst, List.length_nil, Nat.add_zero,
        Nat.mod_eq_of_lt (UInt32.toNat_lt _)] at hout
    · exact hle
  | poll elapsed =>
    intro hagain
    obtain ⟨seg, hret⟩ := Tcb.exists_retransmit_of_sendsAgain hagain
    obtain ⟨hseq, hpayload⟩ := Tcb.retransmit_of_data hagain.1 hret
    rw [← Tcb.length_retransmitPayload, ← hpayload]
    rcases h.onWire t ht seg (TcpCore.mem_emitted_poll ht hret) with hnil | hle
    · rw [hnil]
      exact Nat.zero_le _
    · exact le_trans (Nat.le_add_left ..) hle
  | segment remoteIp header payload =>
    intro hk htakes
    have hfor : s.core.segmentFor k (.segment remoteIp header payload) = some (header, payload) :=
      if_pos hk
    have hfits := h.buffered _ (TcpCore.get_segmentFor ht hfor).1
    rw [Tcb.recvBuffer_onEvent] at hfits
    simpa only [htakes, if_true, List.length_append] using hfits
  | _ => trivial

/-- The data that leaves for an event that conforms. -/
theorem Conforms.onWire (h : s.Conforms k e) {t : Tcb} (ht : s.core.get k = some t)
    {seg : OutgoingSegment} (hseg : (some k, seg) ∈ s.core.emitted e) (hdata : seg.payload ≠ []) :
    (seg.seq - t.sndUna).toNat + seg.payload.length ≤ s.window.toNat := by
  rcases TcpCore.emitted_data ht hseg hdata with
    ⟨data, rfl, hst, hseq, rfl⟩ | ⟨elapsed, rfl, hret⟩
  · rw [hseq]
    exact h t ht rfl hst
  · have hagain := Tcb.sendsAgain_of_retransmit hret hdata
    obtain ⟨hseq, hpayload⟩ := Tcb.retransmit_of_data hagain.1 hret
    rw [hseq, sub_self, hpayload, Tcb.length_retransmitPayload]
    simpa using h t ht hagain

/-- The data that is taken in an event that conforms. -/
theorem Conforms.takesFitting (h : s.Conforms k e) {t : Tcb} {header : TcpHeader}
    {payload : List UInt8} (ht : s.core.get k = some t)
    (hfor : s.core.segmentFor k e = some (header, payload))
    (htakes : t.takesData header payload = true) :
    t.recvBuffer.length + payload.length ≤ defaultWindow.toNat := by
  cases e with
  | segment remoteIp header' payload' =>
    simp only [TcpCore.segmentFor] at hfor
    split at hfor
    · rename_i hk
      obtain ⟨rfl, rfl⟩ := Prod.mk.inj (Option.some.inj hfor)
      exact h t ht hk htakes
    · exact absurd hfor (by simp)
  | _ => exact absurd hfor (by simp [TcpCore.segmentFor])

/-- **The step.**  While the receive buffer fits, an event is within both windows exactly
if it conforms. -/
theorem inWindow_iff (hs : s.Fits k) : s.InWindow k e ↔ s.Conforms k e := by
  refine ⟨InWindow.conforms, fun h => ⟨?_, ?_, ?_⟩⟩
  · intro t ht seg hseg
    by_cases hdata : seg.payload = []
    · exact .inl hdata
    · exact .inr (h.onWire ht hseg hdata)
  · rintro data t t' rfl ht hst ht'
    obtain rfl := Option.some.inj ((TcpCore.get_step_send ht data).symm.trans ht')
    rw [Tcb.toNat_sub_onEvent_send hst]
    exact le_trans (Nat.mod_le ..) (h t ht rfl hst)
  · exact hs.step fun t header payload => h.takesFitting

end OneEvent

end Watched

/-! ## Every run -/

/-- **Flow control.**  In every run of a stack, all events are within both windows of a
connection exactly if all of them conform: no `send` and no retransmission has more than
the peer's window allows, and no segment is taken whose data does not fit. -/
theorem flow_control_iff (ourIp : Ipv4Addr) (start : Instant) (k : ConnKey) (es : List Event) :
    Run.Guarded (Watched.step k) (Watched.InWindow k) ⟨.new ourIp start, 0⟩ es ↔
      Run.Guarded (Watched.step k) (Watched.Conforms k) ⟨.new ourIp start, 0⟩ es := by
  apply Run.guarded_congr_of_guarded (Watched.Fits k)
  · intro s e _ h
    exact h.buffered
  · intro s e hs
    exact Watched.inWindow_iff hs
  · intro t ht
    exact absurd ht (by simp [TcpCore.get, TcpCore.new, TcpManager.get, TcpManager.new])

/-- The demo's handshake, with a peer that offers a window of one byte. -/
def demoNarrowHandshake : List Event :=
  [.connect demoKey.remoteIp demoKey.remotePort 1000,
    .segment demoKey.remoteIp { demoHeader 5000 1001 (tcpSyn ||| tcpAck) with window := 1 } []]

/-- **The window is not looked at.**  The peer offers one byte, and `send` puts two on
the wire. -/
theorem demo_send_beyond_window :
    ¬ Run.Guarded (Watched.step demoKey) (Watched.InWindow demoKey) ⟨demoStack, 0⟩
      (demoNarrowHandshake ++ [.send demoKey [104, 105]]) := by
  rintro ⟨-, -, hsend, -⟩
  obtain ⟨t, ht, hst, hnone⟩ : ∃ t ∈ (run TcpCore.step demoStack demoNarrowHandshake).get demoKey,
      t.state = .established ∧ t.sndNxt - t.sndUna = 0 := by decide
  have hwindow : (run (Watched.step demoKey) ⟨demoStack, 0⟩ demoNarrowHandshake).window = 1 := by
    decide
  have hwire := hsend.onWire t ht _ (TcpCore.mem_emitted_send ht hst [104, 105])
  have hle := hwire.resolve_left (List.cons_ne_nil _ _)
  rw [hnone] at hle
  have hbeyond : 2 ≤ (run (Watched.step demoKey) ⟨demoStack, 0⟩ demoNarrowHandshake).window.toNat :=
    hle
  rw [hwindow] at hbeyond
  exact absurd hbeyond (by decide)

end PpcaNetwork.TcpStack
