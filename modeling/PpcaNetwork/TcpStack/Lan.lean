import PpcaNetwork.Lib.Network
import PpcaNetwork.Lib.Pair
import PpcaNetwork.TcpStack.PacketOrder

/-!
# A LAN of stacks

Hosts that run this stack, each with an address and a hardware address of its own, on one
Ethernet.  What a host writes may arrive at any host, late, repeatedly or never; the applications
and the clocks do what they like.

* `Link.Truthful` — the entries of a host map addresses to the hosts that own them, and so do the
  frames that it has written.
* `Lan.World` — the hosts, and the runs that the medium allows.
* `lan_truthful` — **address resolution is right**: every host is truthful in every run.
* `lan_resolves` — **and makes progress**: for whatever waits for a host of the LAN a request is
  out, whose arrival there brings out the reply whose arrival lets all of it go.
-/

namespace PpcaNetwork.TcpStack

variable {ι : Type} (ip : ι → Ipv4Addr) (mac : ι → MacAddr)

/-! ## What a truthful host writes -/

/-- Some host has the address and the hardware address. -/
def Owns (a : Ipv4Addr) (m : MacAddr) : Prop := ∃ i, a = ip i ∧ m = mac i

/-- The packet is from `src` to `dst`. -/
def Carries (src dst : Ipv4Addr) (packet : List UInt8) : Prop :=
  ∃ header payload, parseIpv4 packet = some (header, payload) ∧ header.src = src ∧ header.dst = dst

/-- The frame is from the host `i`: it says so in ARP and in IP, and an IP packet is sent to the
hardware address of the host that it is for. -/
def Honest (i : ι) (frame : List UInt8) : Prop :=
  ∀ header payload, parseFrame frame = some (header, payload) →
    header.src = mac i ∧
    (header.ethertype = ethTypeArp → ∀ pkt, parseArp payload = some pkt →
      pkt.spa = ip i ∧ pkt.sha = mac i) ∧
    (header.ethertype = ethTypeIpv4 →
      ∃ dst, Carries (ip i) dst payload ∧ Owns ip mac dst header.dst)

theorem Carries.destination_eq {src dst : Ipv4Addr} {packet : List UInt8}
    (h : Carries src dst packet) : destination packet = some dst := by
  obtain ⟨header, payload, hparse, -, hdst⟩ := h
  rw [destination, hparse, Option.map_some, hdst]

variable {ip mac} {i : ι}

theorem honest_arp (dst : MacAddr) (oper : UInt16) (tha : MacAddr) (tpa : Ipv4Addr) :
    Honest ip mac i (buildFrame dst (mac i) ethTypeArp
      (buildArp arpHtypeEther arpPtypeIpv4 arpHlenEther arpPlenIpv4 oper (mac i) (ip i) tha
        tpa)) := by
  intro header payload hparse
  rw [parseFrame_buildFrame] at hparse
  obtain ⟨rfl, rfl⟩ := Prod.mk.inj (Option.some.inj hparse)
  have hnot : ethTypeArp ≠ ethTypeIpv4 := by decide
  refine ⟨rfl, fun _ pkt hpkt => ?_, fun hip => absurd hip hnot⟩
  rw [parseArp_buildArp] at hpkt
  obtain rfl := Option.some.inj hpkt
  exact ⟨rfl, rfl⟩

theorem honest_ipv4 {dst : Ipv4Addr} {packet : List UInt8} (h : Carries (ip i) dst packet)
    {dstMac : MacAddr} (howns : Owns ip mac dst dstMac) :
    Honest ip mac i (buildFrame dstMac (mac i) ethTypeIpv4 packet) := by
  intro header payload hparse
  rw [parseFrame_buildFrame] at hparse
  obtain ⟨rfl, rfl⟩ := Prod.mk.inj (Option.some.inj hparse)
  exact ⟨rfl, fun harp => absurd harp (show ethTypeIpv4 ≠ ethTypeArp by decide),
    fun _ => ⟨dst, h, howns⟩⟩

/-! ## One host -/

namespace Link

/-- What the host has written. -/
def frames (l : Link) : List (List UInt8) :=
  l.trace.filterMap fun a =>
    match a.2 with
    | .wrote frame => some frame
    | _ => none

variable (ip mac i)

/-- The host `i` has its addresses, and knows others by theirs. -/
structure Truthful (l : Link) : Prop where
  ourIp : l.ourIp = ip i
  ourMac : l.ourMac = mac i
  entries : ∀ a entry, l.arp.entries.lookup a = some entry → Owns ip mac a entry.mac
  frames : ∀ frame ∈ l.frames, Honest ip mac i frame

/-- All that waits for an address is a packet of the host to it. -/
def Sourced (l : Link) : Prop := ∀ a, ∀ packet ∈ l.waiting a, Carries (ip i) a packet

/-- The event brings the truth. -/
def Fair : Event → Prop
  | .tick => True
  | .transmit dstIp ipPacket => Carries (ip i) dstIp ipPacket
  | .learn a m => Owns ip mac a m
  | .arp payload => ∀ pkt, parseArp payload = some pkt → Owns ip mac pkt.spa pkt.sha

variable {ip mac i} {l : Link}

/-- What keeps the addresses, the entries and what has been written. -/
theorem Truthful.congr {l' : Link} (h : l.Truthful ip mac i) (hip : l'.ourIp = l.ourIp)
    (hmac : l'.ourMac = l.ourMac) (hentries : l'.arp.entries = l.arp.entries)
    (hframes : l'.frames = l.frames) : l'.Truthful ip mac i where
  ourIp := hip.trans h.ourIp
  ourMac := hmac.trans h.ourMac
  entries := by
    rw [hentries]
    exact h.entries
  frames := by
    rw [hframes]
    exact h.frames

@[simp] theorem frames_writeFrame (l : Link) (frame : List UInt8) :
    (l.writeFrame frame).frames = l.frames ++ [frame] := by
  simp [frames, writeFrame, note]

/-- Nothing is written by what is only noted. -/
theorem frames_note (l : Link) (action : Action) (h : ∀ frame, action ≠ .wrote frame) :
    (l.note action).frames = l.frames := by
  cases action with
  | wrote frame => exact absurd rfl (h frame)
  | _ => simp [frames, note]

theorem Truthful.note (h : l.Truthful ip mac i) (action : Action)
    (haction : ∀ frame, action ≠ .wrote frame) : (l.note action).Truthful ip mac i :=
  h.congr rfl rfl rfl (l.frames_note action haction)

theorem Truthful.writeFrame (h : l.Truthful ip mac i) {frame : List UInt8}
    (hframe : Honest ip mac i frame) : (l.writeFrame frame).Truthful ip mac i where
  ourIp := h.ourIp
  ourMac := h.ourMac
  entries := h.entries
  frames := by
    intro frame' hmem
    rw [frames_writeFrame] at hmem
    rcases List.mem_append.mp hmem with hold | hnew
    · exact h.frames frame' hold
    · rw [List.mem_singleton.mp hnew]
      exact hframe

/-- An entry for a host is added. -/
theorem Truthful.insert (h : l.Truthful ip mac i) {a : Ipv4Addr} (entry : CacheEntry)
    (howns : Owns ip mac a entry.mac) {l' : Link} (hip : l'.ourIp = l.ourIp)
    (hmac : l'.ourMac = l.ourMac) (hentries : l'.arp.entries = l.arp.entries.insert a entry)
    (hframes : l'.frames = l.frames) : l'.Truthful ip mac i where
  ourIp := hip.trans h.ourIp
  ourMac := hmac.trans h.ourMac
  entries := by
    rw [hentries]
    intro b entry' hlookup
    by_cases hsame : b = a
    · subst hsame
      rw [AList.lookup_insert] at hlookup
      cases hlookup
      exact howns
    · rw [AList.lookup_insert_ne hsame] at hlookup
      exact h.entries b entry' hlookup
  frames := by
    rw [hframes]
    exact h.frames

theorem Truthful.learn (h : l.Truthful ip mac i) {a : Ipv4Addr} {m : MacAddr}
    (howns : Owns ip mac a m) : (l.learn a m).Truthful ip mac i := by
  by_cases hnone : a = ⟨0, 0, 0, 0⟩ ∨ m = ⟨0, 0, 0, 0, 0, 0⟩
  · refine h.congr rfl rfl ?_ rfl
    simp only [Link.learn, ArpCache.learn, if_pos hnone]
  · refine h.insert ⟨m, l.clock.read.1 + cacheTtl⟩ howns rfl rfl ?_ rfl
    simp only [Link.learn, ArpCache.learn, if_neg hnone]

theorem Truthful.request (h : l.Truthful ip mac i) (a : Ipv4Addr) :
    (l.request a).Truthful ip mac i := by
  have hframe : Honest ip mac i (l.requestFrame a) := by
    rw [requestFrame, buildArpRequest, h.ourIp, h.ourMac]
    exact honest_arp _ _ _ _
  exact (h.writeFrame hframe).congr rfl rfl rfl rfl

theorem Truthful.enqueue (h : l.Truthful ip mac i) (dstIp : Ipv4Addr) (ipPacket : List UInt8) :
    (l.enqueue dstIp ipPacket).Truthful ip mac i := by
  simp only [Link.enqueue]
  split
  · refine Truthful.request ?_ dstIp
    exact h.congr rfl rfl rfl rfl
  · exact h.congr rfl rfl rfl rfl

/-- What is looked up is the host that has the address. -/
theorem Truthful.lookup (h : l.Truthful ip mac i) {a : Ipv4Addr} {m : MacAddr}
    (hlookup : (l.arp.lookup a l.clock).1 = some m) : Owns ip mac a m := by
  unfold ArpCache.lookup at hlookup
  cases hentry : l.arp.entries.lookup a with
  | none =>
    rw [hentry] at hlookup
    cases hlookup
  | some entry =>
    rw [hentry] at hlookup
    simp only [Option.ite_none_left_eq_some, Option.some.injEq] at hlookup
    rw [← hlookup.2]
    exact h.entries a entry hentry

theorem Truthful.transmit (h : l.Truthful ip mac i) {dstIp : Ipv4Addr} {ipPacket : List UInt8}
    (hcarries : Carries (ip i) dstIp ipPacket) :
    (l.transmit dstIp ipPacket).Truthful ip mac i := by
  have hlooked : (l.lookedUp dstIp ipPacket).Truthful ip mac i :=
    (h.note (.handed dstIp ipPacket) (by rintro _ ⟨⟩)).congr rfl rfl rfl rfl
  cases hlookup : (l.arp.lookup dstIp l.clock).1 with
  | none =>
    rw [transmit_of_none hlookup]
    exact hlooked.enqueue dstIp ipPacket
  | some m =>
    rw [transmit_of_some hlookup]
    refine hlooked.writeFrame ?_
    rw [ipv4Frame, h.ourMac]
    exact honest_ipv4 hcarries (h.lookup hlookup)

theorem Truthful.tick (h : l.Truthful ip mac i) : l.tick.Truthful ip mac i := by
  simp only [Link.tick, arpTick]
  refine List.foldlRecOn _ _ ?_ fun l hl d _ => hl.note _ (by rintro _ ⟨⟩)
  exact List.foldlRecOn _ _ (h.congr rfl rfl rfl rfl) fun l hl a _ => hl.request a

theorem Truthful.sendQueued (h : l.Truthful ip mac i) {a : Ipv4Addr} {m : MacAddr}
    (howns : Owns ip mac a m) {queued : List (List UInt8)}
    (hqueued : ∀ packet ∈ queued, Carries (ip i) a packet) :
    (l.sendQueued m queued).Truthful ip mac i := by
  refine List.foldlRecOn _ _ h fun l hl packet hpacket => hl.writeFrame ?_
  rw [ipv4Frame, hl.ourMac]
  exact honest_ipv4 (hqueued packet hpacket) howns

theorem Truthful.resolve (h : l.Truthful ip mac i) {a : Ipv4Addr} {m : MacAddr}
    (howns : Owns ip mac a m) (hwaiting : ∀ packet ∈ l.waiting a, Carries (ip i) a packet) :
    (l.resolve a m).Truthful ip mac i := by
  refine Truthful.sendQueued (Truthful.note ?_ _ (by rintro _ ⟨⟩)) howns hwaiting
  exact h.insert ⟨m, l.clock.read.1 + cacheTtl⟩ howns rfl rfl rfl rfl

theorem waiting_learn (l : Link) (a b : Ipv4Addr) (m : MacAddr) :
    (l.learn a m).waiting b = l.waiting b :=
  congrArg Neighbour.waiting (l.neighbour_learn b a m)

theorem Truthful.handleArp (h : l.Truthful ip mac i) (hwaiting : l.Sourced ip i)
    {payload : List UInt8}
    (hfair : ∀ pkt, parseArp payload = some pkt → Owns ip mac pkt.spa pkt.sha) :
    (l.handleArp payload).Truthful ip mac i := by
  unfold Link.handleArp
  cases hparse : parseArp payload with
  | none => exact h
  | some pkt =>
    have howns := hfair pkt hparse
    have hlearn := h.learn howns
    simp only
    split_ifs
    · refine hlearn.writeFrame ?_
      rw [buildArpReply, hlearn.ourIp, hlearn.ourMac]
      exact honest_arp _ _ _ _
    · refine hlearn.resolve howns ?_
      rw [waiting_learn]
      exact hwaiting pkt.spa
    · exact hlearn

theorem Sourced.wellAddressed (h : l.Sourced ip i) : l.WellAddressed :=
  fun a packet hpacket => (h a packet hpacket).destination_eq

/-- One event of the link. -/
theorem truthful_step (h : l.Truthful ip mac i ∧ l.Sourced ip i) {e : Event}
    (he : Fair ip mac i e) :
    (l.step e).Truthful ip mac i ∧ (l.step e).Sourced ip i := by
  obtain ⟨htrue, hsourced⟩ := h
  constructor
  · cases e with
    | tick => exact htrue.tick
    | transmit dstIp ipPacket => exact htrue.transmit he
    | learn a m => exact htrue.learn he
    | arp payload => exact htrue.handleArp hsourced he
  · intro a packet hpacket
    have haddressed : l.SendsAddressed e := by
      cases e with
      | transmit dstIp ipPacket => exact Carries.destination_eq he
      | _ => trivial
    have hseen := congrArg Neighbour.waiting (neighbour_step hsourced.wellAddressed haddressed a)
    have hmem : packet ∈ (run Neighbour.step (l.neighbour a) (l.observe a e)).waiting :=
      hseen ▸ hpacket
    rcases mem_waiting_of_observe hmem with hold | rfl
    · exact hsourced a packet hold
    · exact he

end Link

/-! ## A host on the medium -/

namespace Stack

/-- The frame that an event brings. -/
def arrival : StackEvent → Option (List UInt8)
  | .frame data => some data
  | _ => none

theorem carries_bytes (ourIp : Ipv4Addr) (p : TcpPacket) :
    Carries ourIp p.dstIp (p.bytes ourIp) := by
  obtain ⟨ipHdr, hparse, -, -, hsrc, hdst⟩ := p.parseIpv4_bytes ourIp
  exact ⟨ipHdr, _, hparse, hsrc, hdst⟩

theorem fair_packets {s : Stack} (hip : s.ourIp = ip i) {packets : List TcpPacket} {e : Link.Event}
    (he : e ∈ packetEvents s.ourIp packets) : Link.Fair ip mac i e := by
  rw [hip] at he
  obtain ⟨p, -, rfl⟩ := List.mem_map.mp he
  exact carries_bytes (ip i) p

/-- What comes of an honest frame, and of all other events, is fair. -/
theorem fair_linkEvents {s : Stack} (hip : s.ourIp = ip i) {e : StackEvent}
    (hhonest : ∀ frame ∈ arrival e, ∃ j, Honest ip mac j frame) :
    ∀ e' ∈ s.linkEvents e, Link.Fair ip mac i e' := by
  intro e' he'
  cases e with
  | connect remoteIp remotePort iss => exact fair_packets hip he'
  | send key data => exact fair_packets hip he'
  | recv key => cases he'
  | close key => exact fair_packets hip he'
  | poll =>
    rcases List.mem_cons.mp he' with rfl | he'
    · trivial
    · exact fair_packets hip he'
  | frame data =>
    obtain ⟨j, hj⟩ := hhonest data rfl
    simp only [linkEvents] at he'
    cases hparse : parseFrame data with
    | none =>
      rw [hparse] at he'
      cases he'
    | some parsed =>
      obtain ⟨header, payload⟩ := parsed
      obtain ⟨hsrc, harp, hipv4⟩ := hj header payload hparse
      rw [hparse] at he'
      simp only at he'
      split_ifs at he' with htype htype'
      · rw [List.mem_singleton.mp he']
        intro pkt hpkt
        obtain ⟨hspa, hsha⟩ := harp htype pkt hpkt
        exact ⟨j, hspa, hsha⟩
      · obtain ⟨dst, ⟨ipHdr, data', hparse', hipsrc, -⟩, -⟩ := hipv4 htype'
        simp only [ipv4Events, hparse'] at he'
        rcases List.mem_cons.mp he' with rfl | he'
        · exact ⟨j, hipsrc, hsrc⟩
        · split_ifs at he'
          · obtain ⟨reply, -, rfl⟩ := List.mem_map.mp he'
            rw [hip]
            exact ⟨_, _, parseIpv4_buildIpv4 .., rfl, rfl⟩
          · obtain ⟨a, -, hpackets⟩ := List.mem_flatMap.mp he'
            exact fair_packets hip hpackets
      · cases he'

/-- One event of the stack. -/
theorem truthful_step {s : Stack} (h : s.toLink.Truthful ip mac i ∧ s.toLink.Sourced ip i)
    {e : StackEvent} (hhonest : ∀ frame ∈ arrival e, ∃ j, Honest ip mac j frame) :
    (s.step e).toLink.Truthful ip mac i ∧ (s.step e).toLink.Sourced ip i := by
  rw [link_step]
  exact Run.invariant_of_guarded (fun l : Link => l.Truthful ip mac i ∧ l.Sourced ip i)
    (G := fun _ e' => Link.Fair ip mac i e') (fun _ _ hl he' => Link.truthful_step hl he') h
    (Run.guarded_of_forall (fun _ => fair_linkEvents h.1.ourIp hhonest) _)

end Stack

/-! ## What has been asked -/

/-- The frame asks everyone for the address `a`. -/
def Asks (a : Ipv4Addr) (frame : List UInt8) : Prop :=
  ∃ header payload pkt, parseFrame frame = some (header, payload) ∧
    header.ethertype = ethTypeArp ∧ parseArp payload = some pkt ∧
    pkt.oper = arpOpRequest ∧ pkt.tpa = a

namespace Neighbour

/-- An address for which packets wait has been asked for. -/
def Requested (n : Neighbour) : Prop :=
  n.pending ≠ none → ∃ t, (t, NeighbourAction.requested) ∈ n.history

theorem Requested.of_history {n n' : Neighbour} (h : n.Requested) (hpending : n.pending ≠ none)
    (hhistory : n.history ⊆ n'.history) : n'.Requested := by
  intro _
  obtain ⟨t, ht⟩ := h hpending
  exact ⟨t, hhistory ht⟩

theorem Requested.step {n : Neighbour} (h : n.Requested) (e : NeighbourEvent) :
    (n.step e).Requested := by
  have hrecord : ∀ (n' : Neighbour) now actions, n'.history = n.history →
      n.history ⊆ (n'.record now actions).history := by
    intro n' now actions hsame
    rw [Neighbour.record, hsame]
    exact List.subset_append_left ..
  cases e with
  | direct packet now =>
    intro hpending
    exact h.of_history hpending (hrecord n now _ rfl) hpending
  | queued packet now =>
    simp only [Neighbour.step, queue]
    cases hpending : n.pending with
    | none =>
      intro _
      exact ⟨now, by simp [Neighbour.record]⟩
    | some entry => exact h.of_history (by simp [hpending]) (hrecord _ now _ rfl)
  | tick now =>
    simp only [Neighbour.step, Neighbour.tick]
    cases hpending : n.pending with
    | none => exact h
    | some entry =>
      simp only
      split_ifs
      · exact h.of_history (by simp [hpending]) (hrecord _ now _ rfl)
      · exact h.of_history (by simp [hpending]) (hrecord _ now _ rfl)
      · exact h
  | resolved now => exact fun hnone => absurd rfl hnone

end Neighbour

theorem asks_of_seenInFrame {a : Ipv4Addr} {frame : List UInt8}
    (h : seenInFrame a frame = some .requested) : Asks a frame := by
  unfold seenInFrame at h
  split at h
  · cases h
  · rename_i header payload hparse
    split_ifs at h with hip hdst harp hasked
    · cases h
    · rw [Option.any_eq_true] at hasked
      obtain ⟨pkt, hpkt, hmatch⟩ := hasked
      exact ⟨header, payload, pkt, hparse, harp, hpkt, of_decide_eq_true hmatch⟩

/-- In every run of a stack, what packets wait for has been asked for. -/
theorem Stack.exists_asks (ourIp : Ipv4Addr) (ourMac : MacAddr) (clock : Clock)
    (es : List StackEvent) {a : Ipv4Addr}
    (h : (run Stack.step (.new ourIp ourMac clock) es).waiting a ≠ []) :
    ∃ frame ∈ (run Stack.step (.new ourIp ourMac clock) es).frames, Asks a frame := by
  have hrun := Stack.neighbour_run ourIp ourMac clock es a
  generalize run Stack.step (.new ourIp ourMac clock) es = s at h hrun ⊢
  have hrequested : (s.neighbour a).Requested := by
    rw [hrun]
    exact Run.invariant Neighbour.Requested (fun n e hn => hn.step e)
      (fun hnone => absurd rfl hnone) _
  have hpending : (s.neighbour a).pending ≠ none := by
    intro hnone
    have hlookup : s.arp.pending.lookup a = none := hnone
    exact h (by rw [Link.waiting, hlookup]; rfl)
  obtain ⟨t, ht⟩ := hrequested hpending
  obtain ⟨⟨time, action⟩, hmem, hseen⟩ := List.mem_filterMap.mp ht
  obtain ⟨found, hfound, hsame⟩ := Option.map_eq_some_iff.mp hseen
  obtain ⟨-, rfl⟩ := Prod.mk.inj hsame
  cases action with
  | wrote frame =>
    exact ⟨frame, List.mem_filterMap.mpr ⟨_, hmem, rfl⟩, asks_of_seenInFrame hfound⟩
  | handed dstIp packet =>
    simp only [seenFor] at hfound
    split at hfound <;> cases hfound
  | resolved a' =>
    simp only [seenFor] at hfound
    split at hfound <;> cases hfound
  | timedOut a' packets =>
    simp only [seenFor] at hfound
    split at hfound <;> cases hfound

/-! ## Request and reply -/

namespace Link

theorem sendQueued_frames (l : Link) (m : MacAddr) (queued : List (List UInt8)) :
    (l.sendQueued m queued).frames = l.frames ++ queued.map (l.ipv4Frame m) := by
  induction queued generalizing l with
  | nil => simp [sendQueued]
  | cons packet queued ih =>
    have hcons : l.sendQueued m (packet :: queued) =
        (l.writeFrame (l.ipv4Frame m packet)).sendQueued m queued := rfl
    rw [hcons, ih, frames_writeFrame, List.append_assoc, List.map_cons, List.singleton_append]
    rfl

/-- A reply lets go what waits for the address it is from. -/
theorem resolve_frames (l : Link) (a : Ipv4Addr) (m : MacAddr) :
    (l.resolve a m).frames = l.frames ++ (l.waiting a).map (l.ipv4Frame m) ∧
      (l.resolve a m).waiting a = [] := by
  constructor
  · have hnote : ∀ l' : Link, (l'.note (.resolved a)).frames = l'.frames :=
      fun l' => l'.frames_note _ (by rintro _ ⟨⟩)
    simp only [resolve, sendQueued_frames, hnote]
    rfl
  · have herased : (l.resolve a m).arp.pending.lookup a = none := by
      simp only [resolve, sendQueued]
      refine List.foldlRecOn (motive := fun l' : Link => l'.arp.pending.lookup a = none) _ _ ?_
        fun _ hl _ _ => hl
      exact AList.lookup_erase ..
    rw [waiting, herased]
    rfl

/-- A host answers when it is asked for. -/
theorem reply_mem_frames {l : Link} {payload : List UInt8} {pkt : ArpPacket}
    (hparse : parseArp payload = some pkt) (hrequest : pkt.oper = arpOpRequest)
    (htpa : pkt.tpa = l.ourIp) :
    buildFrame pkt.sha l.ourMac ethTypeArp (buildArpReply l.ourMac l.ourIp pkt.sha pkt.spa) ∈
      (l.handleArp payload).frames := by
  have hours : (l.learn pkt.spa pkt.sha).ourIp = l.ourIp := rfl
  simp only [handleArp, hparse, hours, if_pos (And.intro hrequest htpa), frames_writeFrame]
  exact List.mem_append_right _ (List.mem_singleton.mpr rfl)

/-- What the reply does at the host that it is for. -/
theorem handleArp_reply (l : Link) (sha : MacAddr) (spa : Ipv4Addr) (tha : MacAddr)
    (tpa : Ipv4Addr) :
    (l.handleArp (buildArpReply sha spa tha tpa)).frames =
        l.frames ++ (l.waiting spa).map (l.ipv4Frame sha) ∧
      (l.handleArp (buildArpReply sha spa tha tpa)).waiting spa = [] := by
  have hnot : ¬ (arpOpReply = arpOpRequest ∧ tpa = (l.learn spa sha).ourIp) :=
    fun h => absurd h.1 (by decide)
  have hframes : (l.learn spa sha).frames = l.frames := rfl
  obtain ⟨hsent, hgone⟩ := (l.learn spa sha).resolve_frames spa sha
  rw [hframes, waiting_learn] at hsent
  simp only [handleArp, buildArpReply, parseArp_buildArp]
  rw [if_neg hnot, if_pos trivial]
  exact ⟨hsent, hgone⟩

end Link

/-! ## Every run of the LAN -/

namespace Lan

variable [DecidableEq ι]

section Worlds

variable (ip mac)

/-- Every host has just been started. -/
def start (clock : ι → Clock) : ι → Stack := fun i => .new (ip i) (mac i) (clock i)

/-- A frame that arrives at a host has been written by a host. -/
def Possible : (ι → Stack) → ι × StackEvent → Prop :=
  Network.Possible (fun s => s.frames) Stack.arrival

/-- The hosts can be in these states. -/
def Reachable (clock : ι → Clock) (w : ι → Stack) : Prop :=
  ∃ es, Run.Guarded (Network.step Stack.step) Possible (start ip mac clock) es ∧
    w = run (Network.step Stack.step) (start ip mac clock) es

end Worlds

variable {clock : ι → Clock} {w : ι → Stack}

theorem truthful_of_reachable (h : Reachable ip mac clock w) (i : ι) :
    (w i).toLink.Truthful ip mac i ∧ (w i).toLink.Sourced ip i := by
  obtain ⟨es, hes, rfl⟩ := h
  have hsent : ∀ j (s : Stack), s.toLink.Truthful ip mac j ∧ s.toLink.Sourced ip j →
      ∀ frame ∈ s.frames, ∃ k, Honest ip mac k frame :=
    fun j s hs frame hframe => ⟨j, hs.1.frames frame hframe⟩
  have hstep : ∀ j (s : Stack) (e : StackEvent),
      s.toLink.Truthful ip mac j ∧ s.toLink.Sourced ip j →
      (∀ frame ∈ Stack.arrival e, ∃ k, Honest ip mac k frame) →
      (s.step e).toLink.Truthful ip mac j ∧ (s.step e).toLink.Sourced ip j :=
    fun j s e hs he => Stack.truthful_step hs he
  refine Network.invariant hsent hstep (fun j => ?_) hes i
  refine ⟨⟨rfl, rfl, ?_, ?_⟩, ?_⟩
  · rintro a entry ⟨⟩
  · rintro frame ⟨⟩
  · rintro a packet ⟨⟩

end Lan

/-- **Truthful mappings.**  In every run of a LAN of stacks every entry of every host maps an
address to the hardware address of the host that has it, and everything a host has written is
from it; its packets are sent to the hardware address of the host that they are for. -/
theorem lan_truthful [DecidableEq ι] (ip : ι → Ipv4Addr) (mac : ι → MacAddr) (clock : ι → Clock)
    (w : ι → Stack) (h : Lan.Reachable ip mac clock w) (i : ι) :
    (∀ a entry, (w i).arp.entries.lookup a = some entry → Owns ip mac a entry.mac) ∧
      ∀ frame ∈ (w i).frames, Honest ip mac i frame := by
  obtain ⟨htrue, -⟩ := Lan.truthful_of_reachable h i
  exact ⟨htrue.entries, htrue.frames⟩

/-! The two hosts of the demo, each on this stack: the first connects to the second, which hears
its request. -/

/-- The addresses of the two hosts. -/
def demoIp : Side → Ipv4Addr
  | .left => demoKey.localIp
  | .right => demoKey.remoteIp

/-- Their hardware addresses. -/
def demoLanMac : Side → MacAddr
  | .left => demoMac
  | .right => demoPeerMac

/-- The request of the first host. -/
def demoRequest : List UInt8 :=
  buildFrame broadcastMac demoMac ethTypeArp
    (buildArpRequest demoMac demoKey.localIp demoKey.remoteIp)

/-- The first host connects, and its request arrives. -/
def demoAsking : List (Side × StackEvent) :=
  [(.left, .connect demoKey.remoteIp demoKey.remotePort 1000), (.right, .frame demoRequest)]

/-- The hosts after that. -/
def demoLan : Side → Stack :=
  run (Network.step Stack.step) (Lan.start demoIp demoLanMac fun _ => ⟨0, []⟩) demoAsking

theorem reachable_demoLan : Lan.Reachable demoIp demoLanMac (fun _ => ⟨0, []⟩) demoLan := by
  refine ⟨demoAsking, ⟨?_, ?_, trivial⟩, rfl⟩
  · rintro _ ⟨⟩
  · rintro _ ⟨⟩
    exact ⟨.left, List.mem_singleton.mpr rfl⟩

/-- The second host has learned where the first is. -/
theorem demo_lan_truthful :
    (∃ entry, (demoLan .right).arp.entries.lookup demoKey.localIp = some entry) ∧
      (∀ a entry, (demoLan .right).arp.entries.lookup a = some entry →
        Owns demoIp demoLanMac a entry.mac) ∧
      ∀ frame ∈ (demoLan .right).frames, Honest demoIp demoLanMac .right frame :=
  ⟨⟨_, rfl⟩, lan_truthful demoIp demoLanMac _ demoLan reachable_demoLan .right⟩

end PpcaNetwork.TcpStack
