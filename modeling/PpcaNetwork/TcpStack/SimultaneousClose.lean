import PpcaNetwork.Lib.Pair
import PpcaNetwork.TcpStack.Transitions

/-!
# Both sides close at once

Two connections that run this state machine, each the peer of the other, over a
network that reorders and repeats segments.

* `OutgoingSegment.header` — a segment as the other side reads it.
* `Closing.receive`, `Closing.poll` — one side of the pair.
* `Mirrored` and `Closing.start` — both sides have closed, and both FINs are on their
  way.
* `Closing.Stuck` — what holds from then on.
* `simultaneous_close_never` — the close does not complete.
-/

namespace PpcaNetwork.TcpStack

/-! ## One side -/

/-- The header that `build_tcp_segment` writes, as `parse_tcp` reads it; the checksum
is not looked at again. -/
def OutgoingSegment.header (seg : OutgoingSegment) (srcPort : UInt16) : TcpHeader where
  srcPort := srcPort
  dstPort := seg.dstPort
  seq := seg.seq
  ack := seg.ack
  dataOffset := 5
  flags := seg.flags
  window := defaultWindow
  checksum := 0
  urgent := 0

namespace Closing

/-- A segment on its way. -/
abbrev Wire := TcpHeader × List UInt8

section Ports

-- the local port of each side
variable (port : Side → UInt16)

/-- The segments of a side, as they arrive. -/
def onWire (side : Side) (segs : List OutgoingSegment) : List Wire :=
  segs.map fun seg => (seg.header (port side), seg.payload)

/-- A segment arrives: at the connection, or, when that is gone, at a stack that
answers with a reset. -/
def receive (side : Side) (now : Instant) (entry : Option Tcb) (m : Wire) :
    Option Tcb × List Wire :=
  match entry with
  | some t =>
    (some (t.onEvent (.segment m.1 m.2 now)),
      onWire port side (t.processExistingTcb m.1 m.2 now).2)
  | none =>
    (none, onWire port side (if m.1.has tcpRst then [] else [TcpManager.strayReset m.1 m.2]))

/-- A side polls. -/
def poll (side : Side) (entry : Option Tcb) (now : Instant) : Option Tcb × List Wire :=
  (Tcb.stepConn entry (.poll now),
    onWire port side (entry.bind fun t => (t.retransmit now).2).toList)

end Ports

/-- Both applications have closed, at the given times. -/
def start (port : Side → UInt16) (tcb : Side → Tcb) (closed : Side → Instant) :
    Pair (Option Tcb) Wire where
  state side := some ((tcb side).onEvent (.close (closed side)))
  inFlight side :=
    onWire port side.other ((tcb side.other).close (closed side.other)).2

end Closing

/-- Both connections are `Established`, everything sent has arrived and has been
acknowledged. -/
structure Mirrored (tcb : Side → Tcb) : Prop where
  established : ∀ side, (tcb side).state = .established
  acknowledged : ∀ side, (tcb side).sndUna = (tcb side).sndNxt
  received : ∀ side, (tcb side).sndNxt = (tcb side.other).rcvNxt

/-! ## What holds from then on -/

namespace Closing

section Invariant

-- the sequence number of each side's FIN
variable (fin : Side → UInt32)

/-- A connection that is still there has only sent its FIN. -/
def Stuck (side : Side) (entry : Option Tcb) : Prop :=
  ∀ t ∈ entry, t.state = .finWait1 ∧ t.sndNxt = fin side + 1 ∧ t.rcvNxt = fin side.other

/-- All that is on its way to a side acknowledges nothing of its FIN: it is the other
side's FIN, or a reset for the one that has come there. -/
structure Useless (side : Side) (m : Wire) : Prop where
  flags : m.1.flags = tcpFin ||| tcpAck ∨ m.1.flags = tcpRst ||| tcpAck
  seq : m.1.seq = fin side.other
  ack : m.1.ack = fin side
  payload : m.2 = []

variable {fin} {side : Side}

theorem Useless.has_ack {m : Wire} (h : Useless fin side m) : m.1.has tcpAck = true := by
  rcases h.flags with hflags | hflags <;> rw [TcpHeader.has, hflags] <;> decide

theorem Useless.no_syn {m : Wire} (h : Useless fin side m) : m.1.flagLen tcpSyn = 0 := by
  rcases h.flags with hflags | hflags <;> rw [TcpHeader.flagLen, TcpHeader.has, hflags] <;> decide

/-- A segment that acknowledges something else than our FIN is only searched for
data in `FinWait1`. -/
theorem Stuck.onEvent_segment {t : Tcb} (h : Stuck fin side (some t)) {m : Wire}
    (hm : Useless fin side m) (now : Instant) :
    t.onEvent (.segment m.1 m.2 now) = t ∧ (t.processExistingTcb m.1 m.2 now).2 = [] := by
  obtain ⟨hst, hnxt, -⟩ := h t rfl
  have hack : ¬ m.1.ack = t.sndNxt := by
    rw [hm.ack, hnxt]
    simp
  have hstays : t.processExistingTcb m.1 m.2 now = (t, []) := by
    simp only [Tcb.processExistingTcb, hst, Tcb.processFinWait1]
    rw [if_pos hm.has_ack, if_neg hack, hm.payload]
    rfl
  rw [Tcb.onEvent, hstays]
  exact ⟨rfl, rfl⟩

/-- The reset for a segment that acknowledges nothing of our FIN does not acknowledge
the other side's. -/
theorem Useless.strayReset {m : Wire} (h : Useless fin side m) (srcPort : UInt16) :
    Useless fin side.other
      ((TcpManager.strayReset m.1 m.2).header srcPort,
        (TcpManager.strayReset m.1 m.2).payload) where
  flags := .inr rfl
  seq := by
    show (if m.1.has tcpAck then m.1.ack else 0) = _
    rw [if_pos h.has_ack, h.ack, Side.other_other]
  ack := by
    show m.1.seq + (segLen m.2 + m.1.flagLen tcpSyn) = _
    rw [h.seq, h.payload, h.no_syn]
    simp
  payload := rfl

/-- What a connection in `FinWait1` retransmits is its FIN. -/
theorem Stuck.retransmit {t : Tcb} (h : Stuck fin side (some t)) {now : Instant}
    {seg : OutgoingSegment} (hseg : (t.retransmit now).2 = some seg) (srcPort : UInt16) :
    Useless fin side.other (seg.header srcPort, seg.payload) := by
  obtain ⟨hst, hnxt, hrcv⟩ := h t rfl
  have heq : seg = { flags := tcpFin ||| tcpAck, seq := t.sndNxt - 1, ack := t.rcvNxt
                     payload := [], dstPort := t.remotePort } := by
    unfold Tcb.retransmit at hseg
    split at hseg
    · split at hseg
      · exact absurd hseg (by simp)
      · rw [← Option.some.inj hseg]
        simp [Tcb.buildRetransmit, hst]
    · exact absurd hseg (by simp)
  rw [heq]
  refine ⟨.inl rfl, ?_, ?_, rfl⟩
  · show t.sndNxt - 1 = _
    rw [hnxt, Side.other_other]
    simp
  · exact hrcv

/-- A poll leaves the connection in `FinWait1` or removes it. -/
theorem Stuck.stepConn_poll {entry : Option Tcb} (h : Stuck fin side entry) (now : Instant) :
    Stuck fin side (Tcb.stepConn entry (.poll now)) := by
  intro t' ht'
  cases entry with
  | none =>
    rw [Tcb.stepConn_none] at ht'
    exact absurd ht' (by simp)
  | some t =>
    have hkept : Option.filter (·.isRetained now) (some (t.onEvent (.poll now))) = some t' := ht'
    obtain ⟨heq, hretained⟩ := Option.filter_eq_some_iff.mp hkept
    obtain rfl : t.onEvent (.poll now) = t' := Option.some.inj heq
    obtain ⟨hst, hnxt, hrcv⟩ := h t rfl
    obtain ⟨st, r, rto, n, rfl | rfl, hpoll⟩ := t.exists_retransmit now
    · simp only [Tcb.onEvent, hpoll]
      exact ⟨hst, hnxt, hrcv⟩
    · simp [Tcb.onEvent, hpoll, Tcb.isRetained] at hretained

theorem useless_of_mem_onWire {port : Side → UInt16} {segs : List OutgoingSegment} {dst : Side}
    (h : ∀ seg ∈ segs, ∀ srcPort, Useless fin dst (seg.header srcPort, seg.payload)) :
    ∀ m ∈ onWire port side segs, Useless fin dst m := by
  intro m hm
  obtain ⟨seg, hseg, rfl⟩ := List.mem_map.mp hm
  exact h seg hseg (port side)

/-- **The step** of the invariant, when a segment arrives. -/
theorem Stuck.receive {entry : Option Tcb} (h : Stuck fin side entry) {m : Wire}
    (hm : Useless fin side m) (port : Side → UInt16) (now : Instant) :
    Stuck fin side (Closing.receive port side now entry m).1 ∧
      ∀ m' ∈ (Closing.receive port side now entry m).2, Useless fin side.other m' := by
  cases entry with
  | none =>
    refine ⟨h, useless_of_mem_onWire ?_⟩
    intro seg hseg srcPort
    by_cases hrst : m.1.has tcpRst = true
    · rw [if_pos hrst] at hseg
      exact absurd hseg (by simp)
    · rw [if_neg hrst] at hseg
      obtain rfl := List.mem_singleton.mp hseg
      exact hm.strayReset srcPort
  | some t =>
    obtain ⟨hstays, hsilent⟩ := h.onEvent_segment hm now
    simp only [Closing.receive, hstays, hsilent]
    exact ⟨h, fun m' hm' => absurd hm' (by simp [onWire])⟩

/-- **The step** of the invariant, when a side polls. -/
theorem Stuck.poll {entry : Option Tcb} (h : Stuck fin side entry) (port : Side → UInt16)
    (now : Instant) :
    Stuck fin side (Closing.poll port side entry now).1 ∧
      ∀ m' ∈ (Closing.poll port side entry now).2, Useless fin side.other m' := by
  refine ⟨h.stepConn_poll now, useless_of_mem_onWire ?_⟩
  intro seg hseg srcPort
  obtain ⟨t, rfl, hsent⟩ := Option.bind_eq_some_iff.mp (Option.mem_toList.mp hseg)
  exact h.retransmit hsent srcPort

end Invariant

/-- So it is when both have closed. -/
theorem stuck_start {tcb : Side → Tcb} (h : Mirrored tcb) (port : Side → UInt16)
    (closed : Side → Instant) :
    Pair.Holds (Stuck fun side => (tcb side).sndNxt) (Useless fun side => (tcb side).sndNxt)
      (start port tcb closed) := by
  intro side
  constructor
  · intro t ht
    obtain rfl : (tcb side).onEvent (.close (closed side)) = t := Option.some.inj ht
    rw [Tcb.onEvent, Tcb.close, h.established, Tcb.sendFin, Tcb.afterSending_singleton,
      Tcb.recordSent_of_isSome rfl]
    exact ⟨rfl, rfl, by simpa using (h.received side.other).symm⟩
  · apply useless_of_mem_onWire
    intro seg hseg srcPort
    rw [Tcb.close, h.established] at hseg
    obtain rfl := List.mem_singleton.mp hseg
    exact ⟨.inl rfl, rfl, (h.received side).symm, rfl⟩

/-- What happens to the two sides. -/
abbrev Event := PairEvent Instant Instant

/-- The pair after both have closed and `es` has happened. -/
def after (port : Side → UInt16) (tcb : Side → Tcb) (closed : Side → Instant)
    (es : List Event) : Pair (Option Tcb) Wire :=
  run (Pair.step (receive port) (poll port)) (start port tcb closed) es

/-- Nothing is on its way. -/
def Delivered (p : Pair (Option Tcb) Wire) : Prop := ∀ side, p.inFlight side = []

/-- Both sides are in `TimeWait` and have counted the other's FIN. -/
def Completed (tcb : Side → Tcb) (p : Pair (Option Tcb) Wire) : Prop :=
  ∀ side, ∃ t, p.state side = some t ∧
    t.state = .timeWait ∧ t.rcvNxt = (tcb side.other).sndNxt + 1

/-- In every run both are waiting for an acknowledgement of the FIN, or have given up. -/
theorem stuck_after {tcb : Side → Tcb} (h : Mirrored tcb) (port : Side → UInt16)
    (closed : Side → Instant) (es : List Event) (side : Side) :
    Stuck (fun side => (tcb side).sndNxt) side ((after port tcb closed es).state side) :=
  (Pair.invariant (receive port) (poll port)
    (fun _ now _ _ hstuck hm => hstuck.receive hm port now)
    (fun _ _ now hstuck => hstuck.poll port now) (stuck_start h port closed) es side).1

/-- A segment that arrives at a connection that is still there has no effect. -/
theorem step_deliver {p : Pair (Option Tcb) Wire} {fin : Side → UInt32}
    (hp : Pair.Holds (Stuck fin) (Useless fin) p) {side : Side} {t : Tcb} {m : Wire}
    (ht : p.state side = some t) (hm : (p.inFlight side)[0]? = some m) (port : Side → UInt16)
    (now : Instant) :
    Pair.step (receive port) (poll port) p (.deliver side 0 false now) = p.take side 0 := by
  have hstuck : Stuck fin side (some t) := ht ▸ (hp side).1
  obtain ⟨hstays, hsilent⟩ :=
    hstuck.onEvent_segment ((hp side).2 m (List.mem_of_getElem? hm)) now
  have hreceive : receive port side now (p.state side) m = (p.state side, []) := by
    simp only [receive, ht, hstays, hsilent]
    rfl
  simp only [Pair.step, hm]
  rw [hreceive]
  simp [Pair.put, Pair.take]

/-- With each FIN delivered once everything has been delivered: none of them is
answered. -/
theorem delivered_after_fins {tcb : Side → Tcb} (h : Mirrored tcb) (port : Side → UInt16)
    (closed : Side → Instant) (now : Instant) :
    Delivered (after port tcb closed
      [.deliver .left 0 false now, .deliver .right 0 false now]) := by
  have hfin : ∀ side, ∃ m, (start port tcb closed).inFlight side = [m] := by
    intro side
    simp only [start, Tcb.close, h.established, Tcb.sendFin]
    exact ⟨_, rfl⟩
  obtain ⟨mLeft, hLeft⟩ := hfin .left
  obtain ⟨mRight, hRight⟩ := hfin .right
  have hstart := stuck_start h port closed
  rw [after, Run.run_cons, step_deliver hstart rfl (by rw [hLeft]; rfl), Run.run_cons,
    step_deliver (m := mRight) (hstart.take .left 0) rfl (by simp [Pair.take, hRight]),
    Run.run_nil]
  intro side
  cases side with
  | left => simp [Pair.take, hLeft]
  | right => simp [Pair.take, hRight]

end Closing

open Closing in
/-- **A simultaneous close.**  For two connections with mirrored counters that both
close, no run of deliveries and polls completes the close; in particular not all of
those do that deliver everything. -/
theorem simultaneous_close_never (port : Side → UInt16) (tcb : Side → Tcb)
    (closed : Side → Instant) (h : Mirrored tcb) :
    (∀ es, ¬ Completed tcb (after port tcb closed es)) ∧
      ¬ ∀ es, Delivered (after port tcb closed es) → Completed tcb (after port tcb closed es) := by
  have hnever : ∀ es, ¬ Completed tcb (after port tcb closed es) := by
    intro es hcompleted
    obtain ⟨t, ht, hwait, -⟩ := hcompleted .left
    obtain ⟨hst, -⟩ := stuck_after h port closed es .left t ht
    rw [hst] at hwait
    exact absurd hwait (by simp)
  refine ⟨hnever, ?_⟩
  intro hall
  exact hnever _ (hall _ (delivered_after_fins h port closed 0))

/-- The demo connection and the one it has at the peer, both `Established`. -/
def demoMirrored : Side → Tcb
  | .left =>
    { demoKey.opened 1000 0 with
      state := .established, irs := 5000, rcvNxt := 5001, sndUna := 1001, sndNxt := 1001
      retransmitAt := none }
  | .right =>
    { demoKey.opened 5000 0 with
      localIp := demoKey.remoteIp, remoteIp := demoKey.localIp
      localPort := demoKey.remotePort, remotePort := demoKey.localPort
      state := .established, irs := 1000, rcvNxt := 1001, sndUna := 5001, sndNxt := 5001
      retransmitAt := none }

/-- The ports of the two sides. -/
def demoPorts (side : Side) : UInt16 := (demoMirrored side).localPort

/-- Each FIN arrives, the one to the left twice; both retransmit theirs. -/
def demoCrossing : List Closing.Event :=
  [.deliver .left 0 true 0, .deliver .right 0 false 0, .act .left (Duration.fromSecs 1),
    .act .right (Duration.fromSecs 1), .deliver .left 0 false (Duration.fromSecs 1)]

theorem demo_mirrored_never_completed :
    ¬ Closing.Completed demoMirrored
      (Closing.after demoPorts demoMirrored (fun _ => 0) demoCrossing) :=
  (simultaneous_close_never demoPorts demoMirrored (fun _ => 0)
    ⟨fun side => by cases side <;> rfl, fun side => by cases side <;> rfl,
      fun side => by cases side <;> rfl⟩).1 demoCrossing

/-- **Two crossing FINs.**  Both have arrived, nothing is on its way, and both sides
are in `FinWait1` with the other's FIN not counted. -/
theorem demo_fins_cross :
    let p := Closing.after demoPorts demoMirrored (fun _ => 0)
      [.deliver .left 0 false 0, .deliver .right 0 false 0]
    Closing.Delivered p ∧
      (p.state .left).map (fun t => (t.state, t.rcvNxt)) = some (.finWait1, 5001) ∧
      (p.state .right).map (fun t => (t.state, t.rcvNxt)) = some (.finWait1, 1001) ∧
      ¬ Closing.Completed demoMirrored p := by
  refine ⟨?_, by decide, by decide, ?_⟩
  · intro side
    cases side <;> decide
  · intro hcompleted
    obtain ⟨t, ht, hwait, -⟩ := hcompleted .left
    have hst : ((Closing.after demoPorts demoMirrored (fun _ => 0)
        [.deliver .left 0 false 0, .deliver .right 0 false 0]).state .left).map (·.state) =
          some .finWait1 := by
      decide
    rw [ht, Option.map_some, hwait] at hst
    exact absurd hst (by decide)

end PpcaNetwork.TcpStack
