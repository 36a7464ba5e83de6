import PpcaNetwork.Lib.Lockstep
import PpcaNetwork.TcpStack.EphemeralPorts
import PpcaNetwork.TcpStack.Replies

/-!
# Connections do not interfere

All connections share one table, one timer loop and one way out.  Only the local port of
a new connection depends on the others, because `next_ephemeral` takes the first one that
is free; apart from that, a connection goes the same way whatever the others do.

* `Event.Concerns` — the events of a connection: its own, and every `poll`.
* `TcpCore.stepFrom` — the stack with the local port of new connections as a parameter.
* `TcpCore.SameEntry.stepFrom` — what a step does to a key depends on its entry alone.
* `replay_agrees` — **the replay**: the events of one connection, taken alone from its own
  local port, give the same control block and the same segments.
-/

namespace PpcaNetwork.TcpStack

/-! ## The local port as a parameter -/

namespace TcpManager

/-- `initiate_connect`, were `port` what `next_ephemeral` returns. -/
def initiateConnectFrom (port : UInt16) (m : TcpManager) (localIp remoteIp : Ipv4Addr)
    (remotePort : UInt16) (now : Instant) (iss : UInt32) :
    TcpManager × Option ConnKey × List OutgoingSegment :=
  let key : ConnKey := ⟨localIp, port, remoteIp, remotePort⟩
  if (m.get key).any isReused then (m, some key, [])
  else
    (⟨m.connections.insert key (Tcb.opened localIp remoteIp key.localPort remotePort iss now)⟩,
      some key,
      [{ flags := tcpSyn, seq := iss, ack := 0, payload := [], dstPort := remotePort }])

theorem initiateConnectFrom_nextEphemeral (m : TcpManager) (localIp remoteIp : Ipv4Addr)
    (remotePort : UInt16) (now : Instant) (iss : UInt32) :
    m.initiateConnectFrom m.nextEphemeral localIp remoteIp remotePort now iss =
      m.initiateConnect localIp remoteIp remotePort now iss := rfl

theorem initiateConnectFrom_reused (m : TcpManager) {port : UInt16} {localIp remoteIp : Ipv4Addr}
    {remotePort : UInt16} (now : Instant) (iss : UInt32)
    (h : (m.get ⟨localIp, port, remoteIp, remotePort⟩).any isReused = true) :
    m.initiateConnectFrom port localIp remoteIp remotePort now iss =
      (m, some ⟨localIp, port, remoteIp, remotePort⟩, []) :=
  if_pos h

theorem initiateConnectFrom_new (m : TcpManager) {port : UInt16} {localIp remoteIp : Ipv4Addr}
    {remotePort : UInt16} (now : Instant) (iss : UInt32)
    (h : ¬ (m.get ⟨localIp, port, remoteIp, remotePort⟩).any isReused = true) :
    m.initiateConnectFrom port localIp remoteIp remotePort now iss =
      (⟨m.connections.insert ⟨localIp, port, remoteIp, remotePort⟩
          (Tcb.opened localIp remoteIp port remotePort iss now)⟩,
        some ⟨localIp, port, remoteIp, remotePort⟩,
        [{ flags := tcpSyn, seq := iss, ack := 0, payload := [], dstPort := remotePort }]) :=
  if_neg h

end TcpManager

namespace Tcb

variable {t : Tcb} {seg : OutgoingSegment}

theorem dstPort_send {data : List UInt8} (h : seg ∈ (t.send data).2) :
    seg.dstPort = t.remotePort := by
  unfold send at h
  split at h
  · exact absurd h (by simp)
  · rw [List.mem_singleton.mp h]

theorem dstPort_close {now : Instant} (h : seg ∈ (t.close now).2) :
    seg.dstPort = t.remotePort := by
  unfold close at h
  split at h
  case h_1 | h_2 => rw [List.mem_singleton.mp h]
  case h_6 => rw [List.mem_singleton.mp h]
  all_goals exact absurd h (by simp)

theorem dstPort_buildRetransmit (t : Tcb) : t.buildRetransmit.dstPort = t.remotePort := by
  unfold buildRetransmit
  split <;> rfl

theorem dstPort_retransmit {now : Instant} (h : (t.retransmit now).2 = some seg) :
    seg.dstPort = t.remotePort := by
  unfold retransmit at h
  split at h
  · split at h
    · exact absurd h (by simp)
    · rw [← Option.some.inj h]
      exact dstPort_buildRetransmit _
  · exact absurd h (by simp)

end Tcb

namespace TcpCore

/-- `connect` from the local port `port`. -/
def connectFrom (port : UInt16) (c : TcpCore) (remoteIp : Ipv4Addr) (remotePort : UInt16)
    (iss : UInt32) : TcpCore × List (Option ConnKey × OutgoingSegment) :=
  let (tcp, key, segs) := c.tcp.initiateConnectFrom port c.ourIp remoteIp remotePort c.now iss
  (({ c with tcp := tcp } : TcpCore).sendSegments segs key, segs.map (key, ·))

/-- One event, when connections are opened from `port`. -/
def stepFrom (port : UInt16) (c : TcpCore) : Event → TcpCore
  | .connect remoteIp remotePort iss => (c.connectFrom port remoteIp remotePort iss).1
  | e => c.step e

/-- What is emitted because of one event, when connections are opened from `port`. -/
def emittedFrom (port : UInt16) (c : TcpCore) :
    Event → List (Option ConnKey × OutgoingSegment)
  | .connect remoteIp remotePort iss => (c.connectFrom port remoteIp remotePort iss).2
  | e => c.emitted e

theorem stepFrom_nextEphemeral (c : TcpCore) (e : Event) :
    c.stepFrom c.tcp.nextEphemeral e = c.step e := by
  cases e with
  | connect remoteIp remotePort iss =>
    rw [stepFrom, connectFrom, TcpManager.initiateConnectFrom_nextEphemeral]
    rfl
  | _ => rfl

theorem emittedFrom_nextEphemeral (c : TcpCore) (e : Event) :
    c.emittedFrom c.tcp.nextEphemeral e = c.emitted e := by
  cases e with
  | connect remoteIp remotePort iss =>
    rw [emittedFrom, connectFrom, TcpManager.initiateConnectFrom_nextEphemeral]
    rfl
  | _ => rfl

/-! ## One key -/

/-- The segments emitted under `k`. -/
def under (k : ConnKey) (segs : List (Option ConnKey × OutgoingSegment)) :
    List OutgoingSegment :=
  segs.filterMap fun s => if s.1 = some k then some s.2 else none

@[simp] theorem under_map_self (k : ConnKey) (segs : List OutgoingSegment) :
    under k (segs.map (some k, ·)) = segs := by
  simp [under, List.filterMap_map]

theorem under_map_ne {k : ConnKey} {key : Option ConnKey} (hne : key ≠ some k)
    (segs : List OutgoingSegment) : under k (segs.map (key, ·)) = [] := by
  simp [under, List.filterMap_map, hne]

/-- The event concerns the connection under `k`: it is a call on that key, a segment on
that four-tuple, or a `poll`. -/
def Concerns (k : ConnKey) (c : TcpCore) : Event → Prop
  | .connect remoteIp remotePort _ => c.tcp.connectKey c.ourIp remoteIp remotePort = k
  | .send key _ => key = k
  | .recv key => key = k
  | .close key => key = k
  | .segment remoteIp header _ => TcpManager.segmentKey c.ourIp remoteIp header = k
  | .poll _ => True

instance decidableConcerns (k : ConnKey) (c : TcpCore) : (e : Event) → Decidable (Concerns k c e)
  | .connect .. => inferInstanceAs (Decidable (_ = _))
  | .send .. => inferInstanceAs (Decidable (_ = _))
  | .recv _ => inferInstanceAs (Decidable (_ = _))
  | .close _ => inferInstanceAs (Decidable (_ = _))
  | .segment .. => inferInstanceAs (Decidable (_ = _))
  | .poll _ => inferInstanceAs (Decidable True)

/-- Nobody but the connection itself sees its events. -/
theorem observe_of_not_concerns {k : ConnKey} {c : TcpCore} {e : Event} (h : ¬ Concerns k c e) :
    c.observe k e = [] := by
  cases e with
  | connect remoteIp remotePort iss => exact if_neg fun hopens => h hopens.1
  | poll elapsed => exact absurd trivial h
  | _ => exact if_neg h

/-- A connection's events come from its own local port. -/
theorem stepFrom_of_concerns {k : ConnKey} {c : TcpCore} {e : Event} (h : Concerns k c e) :
    c.stepFrom k.localPort e = c.step e ∧ c.emittedFrom k.localPort e = c.emitted e := by
  cases e with
  | connect remoteIp remotePort iss =>
    have hport : k.localPort = c.tcp.nextEphemeral := by
      rw [← show c.tcp.connectKey c.ourIp remoteIp remotePort = k from h]
      rfl
    rw [hport]
    exact ⟨c.stepFrom_nextEphemeral _, c.emittedFrom_nextEphemeral _⟩
  | _ => exact ⟨rfl, rfl⟩

/-! ## What a step does to one key -/

/-- Only `poll` moves the clock. -/
theorem step_now (c : TcpCore) (e : Event) :
    (c.step e).now = match e with
      | .poll elapsed => c.now + elapsed
      | _ => c.now := by
  cases e with
  | poll elapsed =>
    simp only [step, poll]
    generalize (c.tcp.pollRetransmit (c.now + elapsed)).2 = segs
    generalize hc : ({ c with tcp := _, now := c.now + elapsed } : TcpCore) = c'
    have hnow : c'.now = c.now + elapsed := by rw [← hc]
    clear hc
    induction segs generalizing c' with
    | nil => exact hnow
    | cons s segs ih => exact ih _ ((c'.sendFrame_now _).trans hnow)
  | recv key => rfl
  | _ => exact sendSegments_now ..

theorem stepFrom_now (port : UInt16) (c : TcpCore) (e : Event) :
    (c.stepFrom port e).now = (c.step e).now := by
  cases e with
  | connect remoteIp remotePort iss =>
    have hnow := c.step_now (.connect remoteIp remotePort iss)
    rw [hnow]
    exact sendSegments_now ..
  | _ => rfl

theorem stepFrom_ourIp (port : UInt16) (c : TcpCore) (e : Event) :
    (c.stepFrom port e).ourIp = c.ourIp := by
  cases e with
  | connect remoteIp remotePort iss => exact sendSegments_ourIp ..
  | _ => exact c.step_ourIp _

/-- A connection that is opened from `port`: what becomes of the entry of `k`, and what is
emitted under it. -/
theorem get_connectFrom (port : UInt16) (c : TcpCore) (k : ConnKey) (remoteIp : Ipv4Addr)
    (remotePort : UInt16) (iss : UInt32) :
    (c.connectFrom port remoteIp remotePort iss).1.get k =
        (if ⟨c.ourIp, port, remoteIp, remotePort⟩ = k ∧
            (c.get k).any TcpManager.isReused = false then some (k.opened iss c.now)
          else c.get k) ∧
      under k (c.connectFrom port remoteIp remotePort iss).2 =
        (if ⟨c.ourIp, port, remoteIp, remotePort⟩ = k ∧
            (c.get k).any TcpManager.isReused = false then
          [{ flags := tcpSyn, seq := iss, ack := 0, payload := [], dstPort := remotePort }]
          else []) := by
  simp only [connectFrom]
  by_cases hk : (⟨c.ourIp, port, remoteIp, remotePort⟩ : ConnKey) = k
  · by_cases hr : (c.get k).any TcpManager.isReused = true
    · have hreuse := c.tcp.initiateConnectFrom_reused c.now iss (hk ▸ hr)
      rw [hreuse, if_neg (by simp [hr]), if_neg (by simp [hr])]
      exact ⟨rfl, rfl⟩
    · have hnew := c.tcp.initiateConnectFrom_new c.now iss (hk ▸ hr)
      have hopens : (⟨c.ourIp, port, remoteIp, remotePort⟩ : ConnKey) = k ∧
          (c.get k).any TcpManager.isReused = false := ⟨hk, by simpa using hr⟩
      rw [hnew, if_pos hopens, if_pos hopens]
      subst hk
      refine ⟨?_, under_map_self ..⟩
      rw [get_sendSegments_self, get, TcpManager.get, AList.lookup_insert, Option.map_some,
        Tcb.afterSending_of_isSome rfl]
      rfl
  · have hkey : some (⟨c.ourIp, port, remoteIp, remotePort⟩ : ConnKey) ≠ some k := by
      simpa using hk
    rw [if_neg fun h => hk h.1, if_neg fun h => hk h.1]
    by_cases hr : (c.get ⟨c.ourIp, port, remoteIp, remotePort⟩).any TcpManager.isReused = true
    · rw [c.tcp.initiateConnectFrom_reused _ _ hr]
      exact ⟨get_sendSegments_ne _ _ hkey, rfl⟩
    · rw [c.tcp.initiateConnectFrom_new _ _ hr, get_sendSegments_ne _ _ hkey]
      exact ⟨AList.lookup_insert_ne (Ne.symm hk), under_map_ne hkey _⟩

theorem under_update (m : TcpManager) (key k : ConnKey)
    (f : Tcb → Tcb × List OutgoingSegment) :
    under k ((m.update key f []).2.map (some key, ·)) =
      if key = k then (m.get k).elim [] fun t => (f t).2 else [] := by
  split
  · rename_i hk
    rw [hk, under_map_self, TcpManager.update_snd]
  · rename_i hk
    exact under_map_ne (by simpa using hk) _

theorem under_segment (c : TcpCore) (k : ConnKey) (remoteIp : Ipv4Addr) (header : TcpHeader)
    (payload : List UInt8) :
    under k (c.handleSegment remoteIp header payload).2 =
      if TcpManager.segmentKey c.ourIp remoteIp header = k then
        (c.get k).elim [] fun t => (t.processExistingTcb header payload c.now).2
      else [] := by
  simp only [handleSegment]
  split
  · rename_i hk
    subst hk
    cases ht : c.get (TcpManager.segmentKey c.ourIp remoteIp header) with
    | none =>
      rw [TcpManager.process_of_get_none ht]
      exact under_map_ne (by simp) _
    | some t =>
      obtain ⟨-, hout⟩ := TcpManager.process_of_get ht payload c.now
      simp only [hout, under_map_self, Option.elim_some]
  · rename_i hk
    exact under_map_ne (c.tcp.process_of_ne remoteIp header payload c.now hk).2 _

/-- `poll` emits at most one segment under each key. -/
theorem under_poll (c : TcpCore) (k : ConnKey) (elapsed : Duration) :
    under k (c.poll elapsed).2 =
      ((c.get k).bind fun t => (t.retransmit (c.now + elapsed)).2).toList := by
  have hone := Table.collect_single k (fun t => (t.retransmit (c.now + elapsed)).2)
    c.tcp.connections
  rw [get, TcpManager.get, ← hone, poll, TcpManager.pollRetransmit, under]
  simp only [Table.collect, List.filterMap_map, List.filterMap_filterMap]
  congr 1
  funext e
  cases (e.2.retransmit (c.now + elapsed)).2 with
  | none => simp
  | some seg => simp

/-- For the connection under `k`, two stacks are the same. -/
structure SameEntry (k : ConnKey) (c c' : TcpCore) : Prop where
  get : c.get k = c'.get k
  ourIp : c.ourIp = c'.ourIp
  now : c.now = c'.now

variable {k : ConnKey} {c c' : TcpCore}

/-- They stay the same, and show the same, whatever happens to both. -/
theorem SameEntry.stepFrom (h : SameEntry k c c') (port : UInt16) (e : Event) :
    SameEntry k (c.stepFrom port e) (c'.stepFrom port e) ∧
      under k (c.emittedFrom port e) = under k (c'.emittedFrom port e) := by
  obtain ⟨hget, hip, hnow⟩ := h
  have hnext : (c.stepFrom port e).now = (c'.stepFrom port e).now := by
    rw [stepFrom_now, stepFrom_now, step_now, step_now, hnow]
  have haddr : (c.stepFrom port e).ourIp = (c'.stepFrom port e).ourIp := by
    rw [stepFrom_ourIp, stepFrom_ourIp, hip]
  suffices hkey : (c.stepFrom port e).get k = (c'.stepFrom port e).get k ∧
      under k (c.emittedFrom port e) = under k (c'.emittedFrom port e) from
    ⟨⟨hkey.1, haddr, hnext⟩, hkey.2⟩
  -- but for `connect`, the entry afterwards is what `k` observes of the event
  have hobserve (he : ∀ ip port iss, e ≠ .connect ip port iss) :
      (c.step e).get k = (c'.step e).get k := by
    rw [get_step, get_step, hget]
    congr 1
    cases e with
    | connect ip port iss => exact absurd rfl (he ip port iss)
    | _ => simp only [observe, hip, hnow]
  cases e with
  | connect ip port' iss =>
    obtain ⟨hfst, hsnd⟩ := get_connectFrom port c k ip port' iss
    obtain ⟨hfst', hsnd'⟩ := get_connectFrom port c' k ip port' iss
    constructor
    · exact hfst.trans (by rw [hget, hip, hnow]; exact hfst'.symm)
    · exact hsnd.trans (by rw [hget, hip]; exact hsnd'.symm)
  | send key data =>
    refine ⟨hobserve (by simp), ?_⟩
    have hentry : c.tcp.get k = c'.tcp.get k := hget
    exact (under_update ..).trans (hentry ▸ (under_update ..).symm)
  | recv key => exact ⟨hobserve (by simp), rfl⟩
  | close key =>
    refine ⟨hobserve (by simp), ?_⟩
    have hentry : c.tcp.get k = c'.tcp.get k := hget
    simp only [emittedFrom, emitted, close, TcpManager.close, under_update, hentry, hnow]
  | segment ip header payload =>
    refine ⟨hobserve (by simp), ?_⟩
    simp only [emittedFrom, emitted, under_segment, hget, hip, hnow]
  | poll elapsed =>
    refine ⟨hobserve (by simp), ?_⟩
    simp only [emittedFrom, emitted, under_poll, hget, hnow]

/-! ## The events of others -/

/-- What happens to other connections is not noticed, and shows nothing. -/
theorem SameEntry.of_not_concerns (h : SameEntry k c c') {e : Event} (he : ¬ Concerns k c e) :
    SameEntry k (c.step e) c' ∧ under k (c.emitted e) = [] := by
  have hget : (c.step e).get k = c.get k := by
    rw [get_step, observe_of_not_concerns he, Run.run_nil]
  have hnow : (c.step e).now = c.now := by
    rw [step_now]
    cases e with
    | poll elapsed => exact absurd trivial he
    | _ => rfl
  refine ⟨⟨hget.trans h.get, (c.step_ourIp e).trans h.ourIp, hnow.trans h.now⟩, ?_⟩
  cases e with
  | connect ip port iss =>
    obtain ⟨-, hunder⟩ := get_connectFrom c.tcp.nextEphemeral c k ip port iss
    rw [if_neg fun hopens => he hopens.1] at hunder
    exact hunder
  | send key data => exact (under_update ..).trans (if_neg he)
  | recv key => rfl
  | close key => exact (under_update ..).trans (if_neg he)
  | segment ip header payload => exact (under_segment ..).trans (if_neg he)
  | poll elapsed => exact absurd trivial he

/-! ## Where the segments of a key go -/

/-- What a connection sends goes to its peer's port. -/
theorem dstPort_of_mem_under (hc : c.Addressed) (e : Event) :
    ∀ seg ∈ under k (c.emitted e), seg.dstPort = k.remotePort := by
  have hentry : ∀ t, c.tcp.get k = some t → t.remotePort = k.remotePort := fun t ht =>
    (hc k t ht).2
  cases e with
  | connect ip port iss =>
    obtain ⟨-, hunder⟩ := get_connectFrom c.tcp.nextEphemeral c k ip port iss
    have hemitted : under k (c.emitted (.connect ip port iss)) = _ := hunder
    rw [hemitted]
    split
    · rename_i hopens
      intro seg hseg
      rw [List.mem_singleton.mp hseg, ← hopens.1]
    · simp
  | send key data =>
    have hemitted : under k (c.emitted (.send key data)) = _ := under_update ..
    rw [hemitted]
    split
    · cases ht : c.tcp.get k with
      | none => simp
      | some t =>
        intro seg hseg
        exact (t.dstPort_send hseg).trans (hentry t ht)
    · simp
  | recv key =>
    intro seg hseg
    exact absurd hseg (by simp [emitted, under])
  | close key =>
    have hemitted : under k (c.emitted (.close key)) = _ := under_update ..
    rw [hemitted]
    split
    · cases ht : c.tcp.get k with
      | none => simp
      | some t =>
        intro seg hseg
        exact (t.dstPort_close hseg).trans (hentry t ht)
    · simp
  | segment ip header payload =>
    have hemitted : under k (c.emitted (.segment ip header payload)) = _ := under_segment ..
    rw [hemitted]
    split
    · cases ht : c.get k with
      | none => simp
      | some t =>
        intro seg hseg
        exact ((t.remotePort_processExistingTcb header payload c.now).2 seg hseg).trans
          (hentry t ht)
    · simp
  | poll elapsed =>
    have hemitted : under k (c.emitted (.poll elapsed)) = _ := under_poll ..
    rw [hemitted]
    cases ht : c.get k with
    | none => simp
    | some t =>
      intro seg hseg
      exact (t.dstPort_retransmit (Option.mem_toList.mp hseg)).trans (hentry t ht)

end TcpCore

/-- **The replay.**  In every run of the stack, the events of one connection and the polls,
taken alone on a stack that opens the connection from the port it has, lead to the same
control block and the same segments, all of which go to the port of its peer. -/
theorem replay_agrees (ourIp : Ipv4Addr) (start : Instant) (es : List Event) (k : ConnKey) :
    let c := TcpCore.new ourIp start
    let own := Run.restrict TcpCore.step (TcpCore.Concerns k) c es
    let shown := Run.observe TcpCore.step (fun c e => TcpCore.under k (c.emitted e)) c es
    (run (TcpCore.stepFrom k.localPort) c own).get k = (run TcpCore.step c es).get k ∧
      Run.observe (TcpCore.stepFrom k.localPort)
        (fun c e => TcpCore.under k (c.emittedFrom k.localPort e)) c own = shown ∧
      ∀ seg ∈ shown, seg.dstPort = k.remotePort := by
  intro c own shown
  have hown : ∀ c c' e, TcpCore.SameEntry k c c' → TcpCore.Concerns k c e →
      TcpCore.SameEntry k (c.step e) (c'.stepFrom k.localPort e) ∧
        TcpCore.under k (c.emitted e) = TcpCore.under k (c'.emittedFrom k.localPort e) := by
    intro c c' e h he
    obtain ⟨hstep, hemitted⟩ := TcpCore.stepFrom_of_concerns he
    rw [← hstep, ← hemitted]
    exact h.stepFrom k.localPort e
  have hreplay := Run.replay (R := TcpCore.SameEntry k)
    (fun c c' e h he => h.of_not_concerns he) hown (s := c) (t := c) ⟨rfl, rfl, rfl⟩ es
  refine ⟨hreplay.1.get.symm, hreplay.2.symm, ?_⟩
  refine Run.forall_observe TcpCore.Addressed (fun c e h => h.step e) ?_ ?_ es
  · intro c e h
    exact TcpCore.dstPort_of_mem_under h e
  · exact TcpCore.addressed_run ourIp start []

/-- **The port depends on the others.**  Two connections to the demo's peer take the ports
40000 and 40001; the second one, replayed alone, takes 40000, so nothing happens under the
key it had. -/
theorem demo_replay_other_port :
    let k := demoKeyAt 1
    let es : List Event := [.connect demoKey.remoteIp demoKey.remotePort 1000,
      .connect demoKey.remoteIp demoKey.remotePort 2000]
    let own := Run.restrict TcpCore.step (TcpCore.Concerns k) demoStack es
    own = [.connect demoKey.remoteIp demoKey.remotePort 2000] ∧
      ((run TcpCore.step demoStack es).get k).map (·.state) = some .synSent ∧
      (run TcpCore.step demoStack own).get k = none ∧
      Run.observe TcpCore.step (fun c e => TcpCore.under k (c.emitted e)) demoStack own ≠
        Run.observe TcpCore.step (fun c e => TcpCore.under k (c.emitted e)) demoStack es := by
  decide
end PpcaNetwork.TcpStack
