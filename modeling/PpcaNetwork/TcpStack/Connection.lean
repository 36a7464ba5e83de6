import PpcaNetwork.TcpStack.Stack

/-!
# One connection of the stack

A run of the stack, seen from one key of the connection table, is a run of a
machine on that key's control block alone.  This file defines that machine and
proves the projection, so that a property of a connection can be proved on its
control block and read off the stack.

* `Tcb.onEvent` — what an event does to a control block.
* `TcpCore.observe` — what the connection under a key sees of an event.
* `TcpCore.get_run` — **the projection**: the control block under a key after a
  run of the stack is what the machine computes from the observed events.
* `TcpCore.forall_get_run` — what holds of a control block from its opening on holds of
  every entry in every reachable state.
* `TcpCore.guarded_processes_iff` — what all segments of a run do to a connection,
  from what one of them does.
* `Conn` — a control block together with the history of its connection: the
  bytes taken by `send`, how many of them were acknowledged, the bytes that
  `recv` handed out, and whether the peer's FIN has been consumed.
* `TcpCore.history_recv` — the bytes of the history are those that `recv` hands out.
-/

namespace PpcaNetwork.TcpStack

/-! ## The manager, one key at a time -/

namespace TcpManager

variable {α : Type}

theorem get_update_self (m : TcpManager) (k : ConnKey) (f : Tcb → Tcb × α) (d : α) :
    (m.update k f d).1.get k = (m.get k).map fun t => (f t).1 := by
  unfold update
  cases h : m.get k with
  | none => simp [h]
  | some t => simp [get]

theorem get_update_ne (m : TcpManager) {k k' : ConnKey} (hne : k ≠ k') (f : Tcb → Tcb × α)
    (d : α) : (m.update k' f d).1.get k = m.get k := by
  unfold update
  cases m.get k' with
  | none => rfl
  | some t => exact AList.lookup_insert_ne hne

theorem update_snd (m : TcpManager) (k : ConnKey) (f : Tcb → Tcb × α) (d : α) :
    (m.update k f d).2 = (m.get k).elim d fun t => (f t).2 := by
  unfold update
  cases m.get k <;> rfl

theorem get_recordSent_self (m : TcpManager) (k : ConnKey) (now : Instant) :
    (m.recordSent k now).get k = (m.get k).map (·.recordSent now) :=
  Table.lookup_modify ..

theorem get_recordSent_ne (m : TcpManager) {k k' : ConnKey} (hne : k ≠ k') (now : Instant) :
    (m.recordSent k' now).get k = m.get k :=
  Table.lookup_modify_ne hne ..

theorem get_pollRetransmit (m : TcpManager) (k : ConnKey) (now : Instant) :
    (m.pollRetransmit now).1.get k =
      ((m.get k).map fun t => (t.retransmit now).1).filter (·.isRetained now) := by
  simp only [pollRetransmit, get, Table.lookup_retain, Table.lookup_mapValues]

theorem initiateConnect_reused (m : TcpManager) {localIp remoteIp : Ipv4Addr}
    {remotePort : UInt16} (now : Instant) (iss : UInt32)
    (h : (m.get (m.connectKey localIp remoteIp remotePort)).any isReused = true) :
    m.initiateConnect localIp remoteIp remotePort now iss =
      (m, some (m.connectKey localIp remoteIp remotePort), []) :=
  if_pos h

theorem initiateConnect_new (m : TcpManager) {localIp remoteIp : Ipv4Addr}
    {remotePort : UInt16} (now : Instant) (iss : UInt32)
    (h : ¬ (m.get (m.connectKey localIp remoteIp remotePort)).any isReused = true) :
    m.initiateConnect localIp remoteIp remotePort now iss =
      (⟨m.connections.insert (m.connectKey localIp remoteIp remotePort)
          (Tcb.opened localIp remoteIp (m.connectKey localIp remoteIp remotePort).localPort
            remotePort iss now)⟩,
        some (m.connectKey localIp remoteIp remotePort),
        [{ flags := tcpSyn, seq := iss, ack := 0, payload := [], dstPort := remotePort }]) :=
  if_neg h

/-- A segment for a connection in the table is processed by it. -/
theorem process_of_get {m : TcpManager} {localIp remoteIp : Ipv4Addr} {header : TcpHeader}
    {t : Tcb} (ht : m.get (segmentKey localIp remoteIp header) = some t) (payload : List UInt8)
    (now : Instant) :
    (m.process localIp remoteIp header payload now).1.get (segmentKey localIp remoteIp header) =
        some (t.processExistingTcb header payload now).1 ∧
      (m.process localIp remoteIp header payload now).2 =
        (some (segmentKey localIp remoteIp header),
          (t.processExistingTcb header payload now).2) := by
  have hget := m.get_update_self (segmentKey localIp remoteIp header)
    (·.processExistingTcb header payload now) []
  rw [ht, Option.map_some] at hget
  have hsome : (m.get (segmentKey localIp remoteIp header)).isSome = true := by
    rw [ht]
    rfl
  have hout := m.update_snd (segmentKey localIp remoteIp header)
    (·.processExistingTcb header payload now) []
  rw [ht, Option.elim_some] at hout
  rw [process, if_pos hsome]
  exact ⟨hget, congrArg (Prod.mk (some (segmentKey localIp remoteIp header))) hout⟩

/-- Any other segment that is no reset is answered by one. -/
theorem process_of_get_none {m : TcpManager} {localIp remoteIp : Ipv4Addr} {header : TcpHeader}
    (ht : m.get (segmentKey localIp remoteIp header) = none) (payload : List UInt8)
    (now : Instant) :
    m.process localIp remoteIp header payload now =
      (m, none, if header.has tcpRst then [] else [strayReset header payload]) := by
  have hnone : ¬ (m.get (segmentKey localIp remoteIp header)).isSome = true := by
    rw [ht]
    simp
  rw [process, if_neg hnone]
  split <;> rfl

/-- A segment for another connection leaves this one alone. -/
theorem process_of_ne (m : TcpManager) {localIp : Ipv4Addr} (remoteIp : Ipv4Addr)
    (header : TcpHeader) (payload : List UInt8) (now : Instant) {k : ConnKey}
    (hk : segmentKey localIp remoteIp header ≠ k) :
    (m.process localIp remoteIp header payload now).1.get k = m.get k ∧
      (m.process localIp remoteIp header payload now).2.1 ≠ some k := by
  cases ht : m.get (segmentKey localIp remoteIp header) with
  | none =>
    rw [process_of_get_none ht]
    exact ⟨rfl, by simp⟩
  | some t =>
    obtain ⟨-, hout⟩ := process_of_get ht payload now
    rw [hout]
    refine ⟨?_, by simpa using hk⟩
    rw [process, if_pos (by rw [ht]; rfl)]
    exact get_update_ne _ (Ne.symm hk) _ _

/-- `poll_retransmit` returns a segment for a key exactly when that key's timer
makes it retransmit. -/
theorem mem_pollRetransmit (m : TcpManager) (k : ConnKey) (seg : OutgoingSegment)
    (now : Instant) :
    (k, seg) ∈ (m.pollRetransmit now).2 ↔
      ∃ t, m.get k = some t ∧ (t.retransmit now).2 = some seg := by
  simp only [pollRetransmit, Table.mem_collect, get, Option.map_eq_some_iff]
  constructor
  · rintro ⟨k', t, ht, seg', hseg, heq⟩
    obtain ⟨rfl, rfl⟩ := Prod.mk.inj heq
    exact ⟨t, ht, hseg⟩
  · rintro ⟨t, ht, hseg⟩
    exact ⟨k, t, ht, seg, hseg, rfl⟩

end TcpManager

/-! ## The timer started by sending -/

namespace Tcb

/-- Sending `segs` under this connection: one `record_sent` for each of them. -/
def afterSending (segs : List OutgoingSegment) (now : Instant) (t : Tcb) : Tcb :=
  segs.foldl (fun t _ => t.recordSent now) t

@[simp] theorem afterSending_nil (now : Instant) (t : Tcb) : afterSending [] now t = t := rfl

@[simp] theorem afterSending_singleton (seg : OutgoingSegment) (now : Instant) (t : Tcb) :
    afterSending [seg] now t = t.recordSent now := rfl

/-- `record_sent` leaves a running timer alone. -/
theorem recordSent_of_isSome {t : Tcb} (h : t.retransmitAt.isSome) (now : Instant) :
    t.recordSent now = t := by
  rw [recordSent, if_neg (by simp [Option.isNone_iff_eq_none, Option.isSome_iff_ne_none.mp h])]

theorem afterSending_of_isSome {t : Tcb} (h : t.retransmitAt.isSome)
    (segs : List OutgoingSegment) (now : Instant) : afterSending segs now t = t := by
  induction segs with
  | nil => rfl
  | cons seg segs ih =>
    have hcons : afterSending (seg :: segs) now t = afterSending segs now (t.recordSent now) := rfl
    rw [hcons, recordSent_of_isSome h, ih]

/-- A connection that retransmits has its timer running afterwards. -/
theorem retransmitAt_of_retransmit {t : Tcb} {now : Instant} {seg : OutgoingSegment}
    (h : (t.retransmit now).2 = some seg) : (t.retransmit now).1.retransmitAt.isSome := by
  unfold retransmit at h ⊢
  split at h
  · split at h
    · exact absurd h (by simp)
    · rename_i hfired hcount
      simp [hfired, hcount]
  · exact absurd h (by simp)

end Tcb

/-! ## The machine on one control block -/

/-- What a connection sees of the stack: everything that touches its control
block, with the stack's clock at that moment. -/
inductive ConnEvent where
  | send (data : List UInt8) (now : Instant)
  | recv
  | close (now : Instant)
  | segment (header : TcpHeader) (payload : List UInt8) (now : Instant)
  | poll (now : Instant)
  deriving DecidableEq, Repr

/-- What a key of the connection table sees: a connection is opened under it, or
something happens to the connection it has. -/
inductive KeyEvent where
  | opened (iss : UInt32) (now : Instant)
  | conn (e : ConnEvent)
  deriving DecidableEq, Repr

/-- The control block `initiate_connect` puts under `key`. -/
def ConnKey.opened (key : ConnKey) (iss : UInt32) (now : Instant) : Tcb :=
  Tcb.opened key.localIp key.remoteIp key.localPort key.remotePort iss now

namespace Tcb

/-- What an event does to a control block that is in the table. -/
def onEvent (t : Tcb) : ConnEvent → Tcb
  | .send data now => (t.send data).1.afterSending (t.send data).2 now
  | .recv => t.drainData.1
  | .close now => (t.close now).1.afterSending (t.close now).2 now
  | .segment header payload now =>
    (t.processExistingTcb header payload now).1.afterSending
      (t.processExistingTcb header payload now).2 now
  | .poll now => (t.retransmit now).1

/-- What an event does to the entry of a connection, which a `poll` may remove. -/
def stepConn (t : Option Tcb) (e : ConnEvent) : Option Tcb :=
  match e with
  | .poll now => (t.map (·.onEvent e)).filter (·.isRetained now)
  | _ => t.map (·.onEvent e)

/-- What an event does to the entry of `key`. -/
def stepKey (key : ConnKey) (t : Option Tcb) : KeyEvent → Option Tcb
  | .opened iss now => some (key.opened iss now)
  | .conn e => stepConn t e

@[simp] theorem stepConn_none (e : ConnEvent) : stepConn none e = none := by
  cases e <;> rfl

/-- A connection that is still in the table is what the event has made of it. -/
theorem eq_onEvent_of_stepConn {t t' : Tcb} {e : ConnEvent}
    (h : stepConn (some t) e = some t') : t.onEvent e = t' := by
  cases e with
  | poll now =>
    have hkept : Option.filter (·.isRetained now) (some (t.onEvent (.poll now))) = some t' := h
    exact Option.some.inj (Option.filter_eq_some_iff.mp hkept).1
  | _ => exact Option.some.inj h

end Tcb

namespace TcpCore

/-! ## What the stack's operations do to one key -/

@[simp] theorem sendFrame_now (c : TcpCore) (key : Option ConnKey) :
    (c.sendFrame key).now = c.now := by
  cases key <;> rfl

theorem get_sendFrame_self (c : TcpCore) (k : ConnKey) :
    (c.sendFrame (some k)).get k = (c.get k).map (·.recordSent c.now) :=
  TcpManager.get_recordSent_self ..

theorem get_sendFrame_ne (c : TcpCore) {k : ConnKey} {key : Option ConnKey} (hne : key ≠ some k) :
    (c.sendFrame key).get k = c.get k := by
  cases key with
  | none => rfl
  | some k' => exact TcpManager.get_recordSent_ne _ (by rintro rfl; exact hne rfl) _

@[simp] theorem sendSegments_now (c : TcpCore) (segs : List OutgoingSegment)
    (key : Option ConnKey) : (c.sendSegments segs key).now = c.now := by
  induction segs generalizing c with
  | nil => rfl
  | cons seg segs ih => exact (ih (c.sendFrame key)).trans (c.sendFrame_now key)

theorem get_sendSegments_self (c : TcpCore) (segs : List OutgoingSegment) (k : ConnKey) :
    (c.sendSegments segs (some k)).get k = (c.get k).map (Tcb.afterSending segs c.now) := by
  induction segs generalizing c with
  | nil => exact (congrFun Option.map_id (c.get k)).symm
  | cons seg segs ih =>
    have hcons : c.sendSegments (seg :: segs) (some k)
        = (c.sendFrame (some k)).sendSegments segs (some k) := rfl
    rw [hcons, ih, get_sendFrame_self, sendFrame_now, Option.map_map]
    rfl

theorem get_sendSegments_ne (c : TcpCore) (segs : List OutgoingSegment) {k : ConnKey}
    {key : Option ConnKey} (hne : key ≠ some k) : (c.sendSegments segs key).get k = c.get k := by
  induction segs generalizing c with
  | nil => rfl
  | cons seg segs ih => exact (ih (c.sendFrame key)).trans (get_sendFrame_ne c hne)

/-- Frames sent under a key whose timer is running leave its control block alone. -/
theorem get_foldl_sendFrame (c : TcpCore) (segs : List (ConnKey × OutgoingSegment))
    (k : ConnKey)
    (h : ∀ seg, (k, seg) ∈ segs → ∀ t, c.get k = some t → t.retransmitAt.isSome) :
    (segs.foldl (fun c s => c.sendFrame (some s.1)) c).get k = c.get k := by
  induction segs generalizing c with
  | nil => rfl
  | cons s segs ih =>
    have hhead : (c.sendFrame (some s.1)).get k = c.get k := by
      by_cases hk : s.1 = k
      · subst hk
        rw [get_sendFrame_self]
        cases ht : c.get s.1 with
        | none => rfl
        | some t =>
          have hrun := h s.2 (by simp) t ht
          rw [Option.map_some, Tcb.recordSent_of_isSome hrun]
      · exact get_sendFrame_ne c (by simpa using hk)
    rw [List.foldl_cons, ih, hhead]
    intro seg hseg t ht
    exact h seg (List.mem_cons_of_mem _ hseg) t (hhead ▸ ht)

/-! ## The projection -/

/-- What the connection under `k` sees of an event. -/
def observe (k : ConnKey) (c : TcpCore) : Event → List KeyEvent
  | .connect remoteIp remotePort iss =>
    if c.tcp.connectKey c.ourIp remoteIp remotePort = k ∧
        (c.get k).any TcpManager.isReused = false then [.opened iss c.now] else []
  | .send key data => if key = k then [.conn (.send data c.now)] else []
  | .recv key => if key = k then [.conn .recv] else []
  | .close key => if key = k then [.conn (.close c.now)] else []
  | .segment remoteIp header payload =>
    if TcpManager.segmentKey c.ourIp remoteIp header = k then
      [.conn (.segment header payload c.now)]
    else []
  | .poll elapsed => [.conn (.poll (c.now + elapsed))]

theorem get_connect (c : TcpCore) (k : ConnKey) (remoteIp : Ipv4Addr) (remotePort : UInt16)
    (iss : UInt32) :
    (c.connect remoteIp remotePort iss).1.get k =
      run (Tcb.stepKey k) (c.get k) (c.observe k (.connect remoteIp remotePort iss)) := by
  simp only [connect, observe]
  by_cases hk : c.tcp.connectKey c.ourIp remoteIp remotePort = k
  · by_cases hr : (c.get k).any TcpManager.isReused = true
    · have hreuse := c.tcp.initiateConnect_reused c.now iss (hk ▸ hr)
      rw [hreuse, if_neg (by simp [hr])]
      rfl
    · have hnew := c.tcp.initiateConnect_new c.now iss (hk ▸ hr)
      have hopen : Tcb.opened c.ourIp remoteIp k.localPort remotePort iss c.now
          = k.opened iss c.now := by
        subst hk; rfl
      rw [hnew, hk, hopen, if_pos ⟨rfl, by simpa using hr⟩, get_sendSegments_self]
      have hget : ({ c with tcp := ⟨c.tcp.connections.insert k (k.opened iss c.now)⟩ } :
          TcpCore).get k = some (k.opened iss c.now) := AList.lookup_insert _
      rw [hget, Option.map_some, Tcb.afterSending_of_isSome rfl]
      rfl
  · rw [if_neg (by rintro ⟨h, -⟩; exact hk h)]
    have hkey : some (c.tcp.connectKey c.ourIp remoteIp remotePort) ≠ some k := by simpa using hk
    by_cases hr : (c.get (c.tcp.connectKey c.ourIp remoteIp remotePort)).any
        TcpManager.isReused = true
    · rw [c.tcp.initiateConnect_reused _ _ hr]
      exact get_sendSegments_ne _ _ hkey
    · rw [c.tcp.initiateConnect_new _ _ hr, get_sendSegments_ne _ _ hkey]
      exact AList.lookup_insert_ne (Ne.symm hk)

theorem get_segment (c : TcpCore) (k : ConnKey) (remoteIp : Ipv4Addr) (header : TcpHeader)
    (payload : List UInt8) :
    (c.handleSegment remoteIp header payload).1.get k =
      run (Tcb.stepKey k) (c.get k) (c.observe k (.segment remoteIp header payload)) := by
  rw [observe]
  by_cases hk : TcpManager.segmentKey c.ourIp remoteIp header = k
  · subst hk
    rw [if_pos rfl]
    cases ht : c.tcp.get (TcpManager.segmentKey c.ourIp remoteIp header) with
    | none =>
      have hnone : c.get (TcpManager.segmentKey c.ourIp remoteIp header) = none := ht
      simp only [handleSegment, TcpManager.process_of_get_none ht, hnone]
      exact (get_sendSegments_ne _ _ (by simp)).trans hnone
    | some t =>
      obtain ⟨hget, hout⟩ := TcpManager.process_of_get ht payload c.now
      simp only [handleSegment, hout, get_sendSegments_self]
      simp only [get, hget, ht]
      rfl
  · rw [if_neg hk]
    obtain ⟨hget, hkey⟩ := c.tcp.process_of_ne remoteIp header payload c.now hk
    exact (get_sendSegments_ne _ _ hkey).trans hget

theorem get_poll (c : TcpCore) (k : ConnKey) (elapsed : Duration) :
    (c.poll elapsed).1.get k = Tcb.stepConn (c.get k) (.poll (c.now + elapsed)) := by
  simp only [poll]
  rw [get_foldl_sendFrame]
  · exact TcpManager.get_pollRetransmit ..
  · intro seg hseg t ht
    obtain ⟨u, hu, hret⟩ := (TcpManager.mem_pollRetransmit ..).mp hseg
    have hpoll := TcpManager.get_pollRetransmit c.tcp k (c.now + elapsed)
    rw [hu, Option.map_some] at hpoll
    have hsome : Option.filter (·.isRetained (c.now + elapsed))
        (some (u.retransmit (c.now + elapsed)).1) = some t := hpoll ▸ ht
    obtain ⟨heq, -⟩ := Option.filter_eq_some_iff.mp hsome
    exact Option.some.inj heq ▸ Tcb.retransmitAt_of_retransmit hret

/-- One event of the stack acts on the entry of each key as the events that the
connection observes. -/
theorem get_step (k : ConnKey) (c : TcpCore) (e : Event) :
    (c.step e).get k = run (Tcb.stepKey k) (c.get k) (c.observe k e) := by
  cases e with
  | connect remoteIp remotePort iss => exact c.get_connect k remoteIp remotePort iss
  | segment remoteIp header payload => exact c.get_segment k remoteIp header payload
  | poll elapsed => exact c.get_poll k elapsed
  | send key data =>
    simp only [step, send, observe]
    by_cases hk : key = k
    · rw [if_pos hk, hk, get_sendSegments_self, TcpManager.update_snd]
      simp only [get, TcpManager.get_update_self]
      cases c.tcp.get k <;> rfl
    · rw [if_neg hk, get_sendSegments_ne _ _ (by simpa using hk)]
      exact TcpManager.get_update_ne _ (Ne.symm hk) _ _
  | recv key =>
    simp only [step, recv, observe, TcpManager.drainData]
    by_cases hk : key = k
    · rw [if_pos hk, hk]
      exact TcpManager.get_update_self ..
    · rw [if_neg hk]
      exact TcpManager.get_update_ne _ (Ne.symm hk) _ _
  | close key =>
    simp only [step, close, observe, TcpManager.close]
    by_cases hk : key = k
    · rw [if_pos hk, hk, get_sendSegments_self, TcpManager.update_snd]
      simp only [get, TcpManager.get_update_self]
      cases c.tcp.get k <;> rfl
    · rw [if_neg hk, get_sendSegments_ne _ _ (by simpa using hk)]
      exact TcpManager.get_update_ne _ (Ne.symm hk) _ _

/-- **The projection.**  The control block under a key after a run of the stack
is the result of the one-connection machine on what that connection observed. -/
theorem get_run (k : ConnKey) (c : TcpCore) (es : List Event) :
    (run step c es).get k = run (Tcb.stepKey k) (c.get k) (Run.observe step (observe k) c es) :=
  Run.project (fun c : TcpCore => c.get k) (get_step k) c es

/-- **The rule for control blocks.**  What holds of a control block when it is opened, and
through everything that happens to it, holds of every entry in every reachable state. -/
theorem forall_get_run (P : Tcb → Prop)
    (hopened : ∀ (k : ConnKey) iss now, P (k.opened iss now))
    (hevent : ∀ t e, P t → P (t.onEvent e)) (ourIp : Ipv4Addr) (start : Instant)
    (es : List Event) {k : ConnKey} {t : Tcb}
    (ht : (run step (.new ourIp start) es).get k = some t) : P t := by
  rw [get_run] at ht
  refine Run.invariant (fun entry : Option Tcb => ∀ t, entry = some t → P t) ?_ ?_ _ t ht
  · intro entry e hentry t' ht'
    cases e with
    | opened iss now => exact Option.some.inj ht' ▸ hopened k iss now
    | conn e =>
      cases entry with
      | none => exact absurd ht' (by simp [Tcb.stepKey])
      | some t => exact Tcb.eq_onEvent_of_stepConn ht' ▸ hevent t e (hentry t rfl)
  · intro t ht
    exact absurd ht (by simp [get, new, TcpManager.get, TcpManager.new])

/-! ## Segments that arrive at a connection -/

@[simp] theorem sendFrame_ourIp (c : TcpCore) (key : Option ConnKey) :
    (c.sendFrame key).ourIp = c.ourIp := by
  cases key <;> rfl

@[simp] theorem sendSegments_ourIp (c : TcpCore) (segs : List OutgoingSegment)
    (key : Option ConnKey) : (c.sendSegments segs key).ourIp = c.ourIp := by
  induction segs generalizing c with
  | nil => rfl
  | cons seg segs ih => exact (ih (c.sendFrame key)).trans (c.sendFrame_ourIp key)

theorem foldl_sendFrame_ourIp (c : TcpCore) (segs : List (ConnKey × OutgoingSegment)) :
    (segs.foldl (fun c s => c.sendFrame (some s.1)) c).ourIp = c.ourIp := by
  induction segs generalizing c with
  | nil => rfl
  | cons s segs ih => exact (ih (c.sendFrame (some s.1))).trans (c.sendFrame_ourIp _)

/-- The stack's address never changes. -/
theorem step_ourIp (c : TcpCore) (e : Event) : (c.step e).ourIp = c.ourIp := by
  cases e with
  | poll elapsed => exact foldl_sendFrame_ourIp ..
  | recv key => rfl
  | _ => exact sendSegments_ourIp ..

theorem run_ourIp (c : TcpCore) (es : List Event) : (run step c es).ourIp = c.ourIp :=
  Run.invariant (fun c' : TcpCore => c'.ourIp = c.ourIp)
    (fun c' e h => (c'.step_ourIp e).trans h) rfl es

/-- The segment that an event brings to the connection under `k`. -/
def segmentFor (c : TcpCore) (k : ConnKey) : Event → Option (TcpHeader × List UInt8)
  | .segment remoteIp header payload =>
    if TcpManager.segmentKey c.ourIp remoteIp header = k then some (header, payload) else none
  | _ => none

/-- The connection processes the segment, and what it returns is sent under its key. -/
theorem get_segmentFor {c : TcpCore} {k : ConnKey} {t : Tcb} (ht : c.get k = some t) {e : Event}
    {header : TcpHeader} {payload : List UInt8} (he : c.segmentFor k e = some (header, payload)) :
    (c.step e).get k = some (t.onEvent (.segment header payload c.now)) ∧
      c.emitted e = (t.processExistingTcb header payload c.now).2.map (some k, ·) := by
  cases e with
  | segment remoteIp header' payload' =>
    by_cases hk : TcpManager.segmentKey c.ourIp remoteIp header' = k
    · simp only [segmentFor, if_pos hk] at he
      obtain ⟨rfl, rfl⟩ := Prod.mk.inj (Option.some.inj he)
      constructor
      · rw [get_step, observe, if_pos hk, ht]
        rfl
      · have hentry : c.tcp.get (TcpManager.segmentKey c.ourIp remoteIp header') = some t := hk ▸ ht
        obtain ⟨-, hout⟩ := TcpManager.process_of_get hentry payload' c.now
        simp only [emitted, handleSegment, hout, hk]
    · simp [segmentFor, hk] at he
  | _ => simp [segmentFor] at he

/-- If the event brings the connection under `k` a segment, then `R` relates what
the control block was, the segment, and what the control block is afterwards. -/
def Processes (k : ConnKey) (R : Tcb → TcpHeader → List UInt8 → Tcb → Prop) (c : TcpCore)
    (e : Event) : Prop :=
  ∀ t header payload t', c.get k = some t → c.segmentFor k e = some (header, payload) →
    (c.step e).get k = some t' → R t header payload t'

instance (k : ConnKey) (R : Tcb → TcpHeader → List UInt8 → Tcb → Prop)
    [∀ t header payload t', Decidable (R t header payload t')] (c : TcpCore) (e : Event) :
    Decidable (Processes k R c e) :=
  decidable_of_iff
    (∀ t ∈ c.get k, ∀ s ∈ c.segmentFor k e, ∀ t' ∈ (c.step e).get k, R t s.1 s.2 t')
    ⟨fun h t header payload t' ht he ht' => h t ht (header, payload) he t' ht',
      fun h t ht s hs t' ht' => h t s.1 s.2 t' ht hs ht'⟩

/-- If the event brings the connection under `k` a segment, then `Q` holds of the
control block and the segment. -/
def Meets (k : ConnKey) (Q : Tcb → TcpHeader → List UInt8 → Prop) (c : TcpCore) (e : Event) :
    Prop :=
  ∀ t header payload, c.get k = some t → c.segmentFor k e = some (header, payload) →
    Q t header payload

/-- **The rule for segments.**  A relation that a segment establishes exactly when
it meets a condition is established by all segments of a run exactly when all of
them meet it. -/
theorem guarded_processes_iff {R : Tcb → TcpHeader → List UInt8 → Tcb → Prop}
    {Q : Tcb → TcpHeader → List UInt8 → Prop}
    (h : ∀ t header payload now,
      R t header payload (t.onEvent (.segment header payload now)) ↔ Q t header payload)
    (k : ConnKey) (c : TcpCore) (es : List Event) :
    Run.Guarded step (Processes k R) c es ↔ Run.Guarded step (Meets k Q) c es := by
  refine Run.guarded_congr (fun _ => True) (fun _ _ _ => trivial) ?_ trivial
  intro c e _
  constructor
  · intro hR t header payload ht he
    exact (h t header payload c.now).mp (hR t header payload _ ht he (get_segmentFor ht he).1)
  · intro hQ t header payload t' ht he ht'
    obtain rfl : t.onEvent (.segment header payload c.now) = t' :=
      Option.some.inj ((get_segmentFor ht he).1.symm.trans ht')
    exact (h t header payload c.now).mpr (hQ t header payload ht he)

end TcpCore

/-! ## A connection with its history -/

/-- The entry of one connection together with what has happened to it: the
history is recorded beside the control block and never read by it. -/
structure Conn where
  tcb : Option Tcb
  /-- The bytes passed to `send` while `Established`, in order. -/
  sent : List UInt8
  /-- How many sequence numbers ACK processing has moved `snd_una` over while `Established`. -/
  acked : Nat
  /-- What `drain_data` has handed to `recv`, in order. -/
  returned : List UInt8
  /-- A segment carrying the peer's FIN has been the next expected one while `Established`. -/
  finConsumed : Bool
  deriving DecidableEq, Repr

namespace Conn

/-- No connection under the key yet. -/
def absent : Conn := ⟨none, [], 0, [], false⟩

/-- A connection that `initiate_connect` has just put under `key`. -/
def opened (key : ConnKey) (iss : UInt32) (now : Instant) : Conn :=
  ⟨some (key.opened iss now), [], 0, [], false⟩

/-- The bytes passed to `send` that ACK processing has not covered yet. -/
def unacked (c : Conn) : List UInt8 := c.sent.drop c.acked

/-- What an event adds to the history of a connection with control block `t`. -/
def record (c : Conn) (t : Tcb) : ConnEvent → Conn
  | .send data _ => { c with sent := if t.state = .established then c.sent ++ data else c.sent }
  | .recv => { c with returned := c.returned ++ t.drainData.2 }
  | .segment header payload now =>
    { c with
      acked := if t.state = .established then
          c.acked + ((t.processExistingTcb header payload now).1.sndUna - t.sndUna).toNat
        else c.acked
      finConsumed := c.finConsumed ||
        (t.state = .established && header.has tcpFin && header.seq = t.rcvNxt) }
  | _ => c

/-- One event, on the control block and on the history. -/
def step (c : Conn) (e : ConnEvent) : Conn :=
  match c.tcb with
  | none => c
  | some t => { c.record t e with tcb := Tcb.stepConn c.tcb e }

/-- One event of the key: a connection that is opened starts a new history. -/
def stepKey (key : ConnKey) (c : Conn) : KeyEvent → Conn
  | .opened iss now => opened key iss now
  | .conn e => c.step e

@[simp] theorem step_tcb (c : Conn) (e : ConnEvent) : (c.step e).tcb = Tcb.stepConn c.tcb e := by
  unfold step
  cases h : c.tcb with
  | none => simp [h]
  | some t => simp

/-- A connection that is still in the table was there before, and is what the event has made of
it. -/
theorem exists_tcb_of_step {c : Conn} {e : ConnEvent} {t' : Tcb}
    (h : (c.step e).tcb = some t') :
    ∃ t, c.tcb = some t ∧ t.onEvent e = t' ∧ c.step e = { c.record t e with tcb := some t' } := by
  rw [step_tcb] at h
  cases hc : c.tcb with
  | none =>
    rw [hc, Tcb.stepConn_none] at h
    cases h
  | some t =>
    rw [hc] at h
    refine ⟨t, rfl, Tcb.eq_onEvent_of_stepConn h, ?_⟩
    simp only [step, hc, h]

theorem stepKey_tcb (key : ConnKey) (c : Conn) (e : KeyEvent) :
    (c.stepKey key e).tcb = Tcb.stepKey key c.tcb e := by
  cases e with
  | opened iss now => rfl
  | conn e => exact step_tcb c e

/-- The history does not influence the control block. -/
theorem run_stepKey_tcb (key : ConnKey) (c : Conn) (es : List KeyEvent) :
    (run (stepKey key) c es).tcb = run (Tcb.stepKey key) c.tcb es := by
  induction es generalizing c with
  | nil => rfl
  | cons e es ih => rw [Run.run_cons, Run.run_cons, ih, stepKey_tcb]

end Conn

/-- The connection under `k` after a run of the stack, with its history. -/
def TcpCore.history (k : ConnKey) (c : TcpCore) (es : List Event) : Conn :=
  run (Conn.stepKey k) Conn.absent (Run.observe TcpCore.step (TcpCore.observe k) c es)

/-- On a stack that starts without connections, the history of a key is about
the control block that is in the table. -/
theorem TcpCore.history_tcb (k : ConnKey) (ourIp : Ipv4Addr) (now : Instant) (es : List Event) :
    (TcpCore.history k (.new ourIp now) es).tcb = (run TcpCore.step (.new ourIp now) es).get k := by
  rw [TcpCore.history, Conn.run_stepKey_tcb, TcpCore.get_run]
  rfl

/-- What `recv` hands out is what the connection's `drain_data` returns. -/
theorem TcpCore.recv_snd (c : TcpCore) (k : ConnKey) :
    (c.recv k).2 = (c.get k).elim [] fun t => t.drainData.2 :=
  c.tcp.update_snd k (·.drainData) []

/-- **The bytes returned.**  After any run of the stack, what a `recv` hands to the application is
what the history of the connection grows by. -/
theorem TcpCore.history_recv (k : ConnKey) (ourIp : Ipv4Addr) (now : Instant) (es : List Event) :
    (TcpCore.history k (.new ourIp now) (es ++ [.recv k])).returned =
      (TcpCore.history k (.new ourIp now) es).returned ++
        ((run TcpCore.step (.new ourIp now) es).recv k).2 := by
  have hstep : TcpCore.history k (.new ourIp now) (es ++ [.recv k]) =
      (TcpCore.history k (.new ourIp now) es).step .recv := by
    rw [TcpCore.history, Run.observe_append, Run.run_append]
    simp only [Run.observe, TcpCore.observe, if_true]
    rfl
  rw [hstep, TcpCore.recv_snd, ← TcpCore.history_tcb]
  cases hc : (TcpCore.history k (.new ourIp now) es).tcb with
  | none => simp [Conn.step, hc]
  | some t => simp only [Conn.step, hc, Conn.record, Option.elim_some]

/-! ## The demo connection

The connection of `DEMO.md`, from 10.0.0.2:40000 to 10.0.0.1:9999, on which the
concrete runs of this development take place. -/

/-- The connection of the source's demo. -/
def demoKey : ConnKey := ⟨⟨10, 0, 0, 2⟩, 40000, ⟨10, 0, 0, 1⟩, 9999⟩

/-- The stack before its first connection. -/
def demoStack : TcpCore := .new demoKey.localIp 0

/-- A segment of the demo's peer. -/
def demoSegment (seq ack : UInt32) (flags : UInt8) (payload : List UInt8) : Event :=
  .segment demoKey.remoteIp
    { srcPort := 9999, dstPort := 40000, seq := seq, ack := ack, dataOffset := 5, flags := flags,
      window := 65535, checksum := 0, urgent := 0 } payload

/-- Connect with `iss = 1000`; the peer answers with `irs = 5000`. -/
def demoHandshake : List Event :=
  [.connect demoKey.remoteIp demoKey.remotePort 1000,
    demoSegment 5000 1001 (tcpSyn ||| tcpAck) []]

/-- After the handshake both sides have counted the SYN and nothing else. -/
example : ((run TcpCore.step demoStack demoHandshake).get demoKey).map
    (fun t => (t.state, t.sndUna, t.sndNxt, t.rcvNxt)) =
      some (.established, 1001, 1001, 5001) := by decide

end PpcaNetwork.TcpStack
