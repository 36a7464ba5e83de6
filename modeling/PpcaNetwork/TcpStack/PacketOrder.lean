import PpcaNetwork.TcpStack.ArpQueue

/-!
# Packets for one destination

Packets that find no address wait in `pending`, and only an ARP reply takes them out.  But
the address can be learned from other traffic before that, and a packet that then finds it
is written at once, past those that wait.

* `Link.InTurn` — the condition on a call of `send_frame`.
* `Link.keepsTurn_iff` — it is what it takes for nothing to be written past what waits.
* `packets_in_order_iff` — the same for runs, and the order that follows.
-/

namespace PpcaNetwork.TcpStack

namespace Link

/-- While packets wait for its destination, `send_frame` finds no address. -/
def InTurn (l : Link) : Event → Prop
  | .transmit dstIp _ => l.waiting dstIp ≠ [] → (l.arp.lookup dstIp l.clock).1 = none
  | _ => True

/-- While packets wait for its destination, `send_frame` writes none to it. -/
def KeepsTurn (l : Link) : Event → Prop
  | .transmit dstIp ipPacket => l.waiting dstIp ≠ [] →
      ((l.transmit dstIp ipPacket).neighbour dstIp).written = (l.neighbour dstIp).written
  | _ => True

theorem keepsTurn_iff {l : Link} {e : Event} (he : l.SendsAddressed e) :
    l.KeepsTurn e ↔ l.InTurn e := by
  cases e with
  | transmit dstIp ipPacket =>
    have hseen := l.neighbour_transmit dstIp (show destination ipPacket = some dstIp from he)
    refine forall_congr' fun _ => ?_
    rw [hseen]
    simp only [observe, if_true]
    cases (l.arp.lookup dstIp l.clock).1 with
    | none =>
      refine iff_of_true ?_ rfl
      show ((l.neighbour dstIp).queue ipPacket l.now).written = _
      unfold Neighbour.queue
      split
      · exact (Neighbour.written_record ..).trans (List.append_nil _)
      · exact (Neighbour.written_record ..).trans (List.append_nil _)
    | some mac =>
      refine iff_of_false ?_ (by simp)
      obtain ⟨-, hwritten, -⟩ := (l.neighbour dstIp).packets_direct ipPacket l.now
      show ¬ ((l.neighbour dstIp).step (.direct ipPacket l.now)).written = _
      rw [hwritten]
      simp
  | _ => exact Iff.rfl

/-- Seen from an address, a packet is written at once only in its turn. -/
theorem inTurn_observe {l : Link} {e : Event} (he : l.InTurn e) (ip : Ipv4Addr) :
    Run.Guarded Neighbour.step Neighbour.InTurn (l.neighbour ip) (l.observe ip e) := by
  cases e with
  | tick => exact ⟨trivial, trivial⟩
  | learn ip' mac => trivial
  | arp payload =>
    simp only [observe]
    split
    · trivial
    · split
      · exact ⟨trivial, trivial⟩
      · trivial
  | transmit dstIp packet =>
    simp only [observe]
    split
    · rename_i hip
      subst hip
      cases hfound : (l.arp.lookup dstIp l.clock).1 with
      | none => exact ⟨trivial, trivial⟩
      | some mac =>
        refine ⟨?_, trivial⟩
        show l.waiting dstIp = []
        by_contra hwaiting
        exact absurd ((he hwaiting).symm.trans hfound) (by simp)
    · trivial

/-- Below every address, things are in order. -/
structure Orderly (l : Link) : Prop where
  addressed : l.WellAddressed
  inOrder : ∀ ip, (l.neighbour ip).InOrder

theorem Orderly.step {l : Link} (h : l.Orderly) {e : Event} (hs : l.SendsAddressed e)
    (he : l.InTurn e) : (l.step e).Orderly := by
  refine ⟨h.addressed.step hs, fun ip => ?_⟩
  rw [neighbour_step h.addressed hs ip]
  exact Run.invariant_of_guarded Neighbour.InOrder (fun _ _ hn he => hn.step he) (h.inOrder ip)
    (inTurn_observe he ip)

end Link

namespace Stack

/-- Every call of `send_frame` of an event is in its turn. -/
def InTurn (s : Stack) (e : StackEvent) : Prop :=
  Run.Guarded Link.step Link.InTurn s.toLink (s.linkEvents e)

/-- No call of `send_frame` of an event writes past packets that wait. -/
def KeepsTurn (s : Stack) (e : StackEvent) : Prop :=
  Run.Guarded Link.step Link.KeepsTurn s.toLink (s.linkEvents e)

theorem sendsAddressed_step (s : Stack) (e : StackEvent) :
    Run.Guarded Link.step Link.SendsAddressed s.toLink (s.linkEvents e) :=
  Run.guarded_of_forall (fun l e' he' => s.sendsAddressed e l e' he') _

/-- An event in its turn. -/
theorem orderly_step {s : Stack} (h : s.toLink.Orderly) {e : StackEvent} (he : s.InTurn e) :
    (s.step e).toLink.Orderly := by
  rw [link_step]
  refine Run.invariant_of_guarded Link.Orderly (G := fun l e => l.SendsAddressed e ∧ l.InTurn e)
    (fun _ _ h he => h.step he.1 he.2) h ?_
  exact Run.guarded_and.mpr ⟨s.sendsAddressed_step e, he⟩

theorem keepsTurn_iff (s : Stack) (e : StackEvent) : s.KeepsTurn e ↔ s.InTurn e :=
  Run.guarded_congr_on (fun _ _ he => Link.keepsTurn_iff he) (s.sendsAddressed_step e)

theorem orderly_new (ourIp : Ipv4Addr) (ourMac : MacAddr) (clock : Clock) :
    (new ourIp ourMac clock).toLink.Orderly := by
  refine ⟨?_, fun _ => Neighbour.inOrder_absent⟩
  intro ip packet hpacket
  exact absurd hpacket (by simp [Link.waiting, new, ArpCache.new])

end Stack

/-- **When packets keep their order.**  In a run of the stack no `send_frame` writes past
packets that wait for the same destination exactly if none finds an address while packets
wait for it, and then what has been written to each destination is at any time a
subsequence of what was handed over for it. -/
theorem packets_in_order_iff (ourIp : Ipv4Addr) (ourMac : MacAddr) (clock : Clock)
    (es : List StackEvent) :
    ((∀ fs, fs <+: es → ∀ ip,
        let n := (run Stack.step (.new ourIp ourMac clock) fs).neighbour ip
        n.written.Sublist n.handed) ∧
      Run.Guarded Stack.step Stack.KeepsTurn (.new ourIp ourMac clock) es) ↔
    Run.Guarded Stack.step Stack.InTurn (.new ourIp ourMac clock) es := by
  have hturn : Run.Guarded Stack.step Stack.KeepsTurn (.new ourIp ourMac clock) es ↔
      Run.Guarded Stack.step Stack.InTurn (.new ourIp ourMac clock) es :=
    Run.guarded_congr (fun _ => True) (fun _ _ _ => trivial) (fun s e _ => s.keepsTurn_iff e)
      trivial
  rw [hturn]
  refine ⟨And.right, fun h => ⟨?_, h⟩⟩
  rintro fs ⟨gs, rfl⟩ ip
  have horderly : (run Stack.step (.new ourIp ourMac clock) fs).toLink.Orderly :=
    Run.invariant_of_guarded (fun s : Stack => s.toLink.Orderly)
      (fun _ _ h he => Stack.orderly_step h he) (Stack.orderly_new ..) (Run.guarded_append.mp h).1
  exact (List.sublist_append_left ..).trans (horderly.inOrder ip)

/-! ## Overtaken -/

/-- The hardware address of the demo's stack. -/
def demoMac : MacAddr := ⟨2, 0, 0, 0, 0, 2⟩

/-- That of its peer. -/
def demoPeerMac : MacAddr := ⟨2, 0, 0, 0, 0, 1⟩

/-- The demo's stack, all of it, with a clock that stands still. -/
def demoFullStack : Stack := .new demoKey.localIp demoMac ⟨0, []⟩

/-- An ARP packet from the demo's peer. -/
def demoArpFrame (oper : UInt16) : StackEvent :=
  .frame (buildFrame demoMac demoPeerMac ethTypeArp
    (buildArp arpHtypeEther arpPtypeIpv4 arpHlenEther arpPlenIpv4 oper demoPeerMac demoKey.remoteIp
      demoMac demoKey.localIp))

/-- The SYN of a connection to the demo's peer. -/
def demoSyn (port : UInt16) (iss : UInt32) : TcpPacket where
  srcPort := port
  dstIp := demoKey.remoteIp
  segment := { flags := tcpSyn, seq := iss, ack := 0, payload := [], dstPort := demoKey.remotePort }

/-- The demo's peer asks for our address before it answers our request for its own, and we
connect to it twice, once before it asks and once after. -/
def demoOvertaking : List StackEvent :=
  [.connect demoKey.remoteIp demoKey.remotePort 1000, .poll, demoArpFrame arpOpRequest,
    .connect demoKey.remoteIp demoKey.remotePort 2000, .poll, demoArpFrame arpOpReply]

theorem demo_syns_ne :
    (demoSyn 40000 1000).bytes demoKey.localIp ≠ (demoSyn 40001 2000).bytes demoKey.localIp := by
  intro heq
  obtain ⟨header, hfirst, -, -, hseq, -⟩ :=
    receiveTcp_bytes (p := demoSyn 40000 1000) demoKey.localIp (by decide)
  obtain ⟨header', hsecond, -, -, hseq', -⟩ :=
    receiveTcp_bytes (p := demoSyn 40001 2000) demoKey.localIp (by decide)
  rw [heq, hsecond] at hfirst
  obtain ⟨-, rfl, -⟩ := Arrival.mk.inj (Option.some.inj hfirst)
  exact absurd (hseq.symm.trans hseq') (by decide)

/-- The second packet finds the address, the first has to wait for the reply. -/
theorem Neighbour.overtaken (first second : List UInt8) :
    let n := run Neighbour.step .absent
      [.queued first 0, .tick 0, .direct second 0, .tick 0, .resolved 0]
    n.handed = [first, second] ∧ n.written = [second, first] :=
  ⟨rfl, rfl⟩

/-- **A packet overtakes another.**  The second SYN is written first. -/
theorem demo_syn_overtaken :
    let n := (run Stack.step demoFullStack demoOvertaking).neighbour demoKey.remoteIp
    let first := (demoSyn 40000 1000).bytes demoKey.localIp
    let second := (demoSyn 40001 2000).bytes demoKey.localIp
    n.handed = [first, second] ∧ n.written = [second, first] ∧ ¬ n.written.Sublist n.handed := by
  intro n first second
  have hevents : demoFullStack.neighbourEvents demoKey.remoteIp demoOvertaking =
      [.queued first 0, .tick 0, .direct second 0, .tick 0, .resolved 0] := rfl
  have hne : first ≠ second := demo_syns_ne
  -- from here on the packets are any two different ones
  clear_value first second
  have hrun : n = run Neighbour.step .absent
      (demoFullStack.neighbourEvents demoKey.remoteIp demoOvertaking) :=
    Stack.neighbour_run demoKey.localIp demoMac ⟨0, []⟩ demoOvertaking demoKey.remoteIp
  rw [hevents] at hrun
  obtain ⟨hhanded, hwritten⟩ := Neighbour.overtaken first second
  rw [← hrun] at hhanded hwritten
  refine ⟨hhanded, hwritten, ?_⟩
  rw [hhanded, hwritten]
  intro hsublist
  have hsame : [second, first] = [first, second] := hsublist.eq_of_length (by simp)
  exact hne (List.cons.inj hsame).1.symm

end PpcaNetwork.TcpStack
