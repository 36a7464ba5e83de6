import PpcaNetwork.TcpStack.PacketOrder

/-!
# What the ARP cache maps to

`learn` passes over the address 0.0.0.0 and the hardware address of zeros, which name no host;
`insert`, with which `handle_arp` takes a reply, does not.

* `Link.Usable` — no entry has either, and no packet has been sent to zeros.
* `Link.Unusable` — an ARP packet that is taken for a reply, with either.
* `Link.usable_step_iff` — what one event of the link does to it.
* `usable_mappings_iff` — every run of the stack.
-/

namespace PpcaNetwork.TcpStack

/-- 0.0.0.0. -/
def noIp : Ipv4Addr := ⟨0, 0, 0, 0⟩

/-- 00:00:00:00:00:00. -/
def noMac : MacAddr := ⟨0, 0, 0, 0, 0, 0⟩

namespace Link

/-- The frame does not carry an IPv4 packet to the hardware address of zeros. -/
def Addressed (frame : List UInt8) : Prop :=
  ∀ header payload, parseFrame frame = some (header, payload) →
    header.ethertype = ethTypeIpv4 → header.dst ≠ noMac

/-- The entries can be used, and nothing has been sent that could not arrive. -/
structure Usable (l : Link) : Prop where
  entries : ∀ ip entry, l.arp.entries.lookup ip = some entry → ip ≠ noIp ∧ entry.mac ≠ noMac
  frames : ∀ time frame, (time, Action.wrote frame) ∈ l.trace → Addressed frame

/-- An ARP packet that `handle_arp` takes for a reply, and that has no address to be used. -/
def Unusable (payload : List UInt8) : Prop :=
  ∃ pkt, parseArp payload = some pkt ∧ pkt.oper = arpOpReply ∧ (pkt.spa = noIp ∨ pkt.sha = noMac)

theorem addressed_ipv4Frame (l : Link) {mac : MacAddr} (h : mac ≠ noMac) (packet : List UInt8) :
    Addressed (l.ipv4Frame mac packet) := by
  intro header payload hparse _
  rw [ipv4Frame, parseFrame_buildFrame] at hparse
  cases hparse
  exact h

theorem addressed_arp (dst src : MacAddr) (packet : List UInt8) :
    Addressed (buildFrame dst src ethTypeArp packet) := by
  intro header payload hparse hip
  rw [parseFrame_buildFrame] at hparse
  cases hparse
  exact absurd hip (show ethTypeArp ≠ ethTypeIpv4 by decide)

section Steps

variable {l : Link}

/-- What keeps the entries and writes nothing. -/
theorem Usable.congr {l' : Link} (h : l.Usable) (hentries : l'.arp.entries = l.arp.entries)
    (htrace : l'.trace = l.trace) : l'.Usable where
  entries := by
    rw [hentries]
    exact h.entries
  frames := by
    rw [htrace]
    exact h.frames

theorem Usable.note (h : l.Usable) (action : Action)
    (haction : ∀ frame, action = .wrote frame → Addressed frame) : (l.note action).Usable where
  entries := h.entries
  frames := by
    intro time frame hmem
    rcases List.mem_append.mp hmem with hold | hnew
    · exact h.frames time frame hold
    · rw [List.mem_singleton, Prod.mk.injEq] at hnew
      exact haction frame hnew.2.symm

theorem Usable.writeFrame (h : l.Usable) {frame : List UInt8} (hframe : Addressed frame) :
    (l.writeFrame frame).Usable := by
  refine h.note _ ?_
  rintro _ ⟨⟩
  exact hframe

/-- An entry that can be used is added. -/
theorem Usable.insert (h : l.Usable) {ip : Ipv4Addr} (entry : CacheEntry) (hip : ip ≠ noIp)
    (hmac : entry.mac ≠ noMac) {l' : Link}
    (hentries : l'.arp.entries = l.arp.entries.insert ip entry) (htrace : l'.trace = l.trace) :
    l'.Usable where
  entries := by
    rw [hentries]
    intro ip' entry' hlookup
    by_cases hsame : ip' = ip
    · subst hsame
      rw [AList.lookup_insert] at hlookup
      cases hlookup
      exact ⟨hip, hmac⟩
    · rw [AList.lookup_insert_ne hsame] at hlookup
      exact h.entries ip' entry' hlookup
  frames := by
    rw [htrace]
    exact h.frames

theorem Usable.learn (h : l.Usable) (ip : Ipv4Addr) (mac : MacAddr) : (l.learn ip mac).Usable := by
  by_cases hnone : ip = ⟨0, 0, 0, 0⟩ ∨ mac = ⟨0, 0, 0, 0, 0, 0⟩
  · refine h.congr ?_ rfl
    simp only [Link.learn, ArpCache.learn, if_pos hnone]
  · obtain ⟨hip, hmac⟩ := not_or.mp hnone
    refine h.insert ⟨mac, l.clock.read.1 + cacheTtl⟩ hip hmac ?_ rfl
    simp only [Link.learn, ArpCache.learn, if_neg hnone]

theorem Usable.request (h : l.Usable) (ip : Ipv4Addr) : (l.request ip).Usable :=
  (h.writeFrame (addressed_arp _ _ _)).congr rfl rfl

theorem Usable.enqueue (h : l.Usable) (dstIp : Ipv4Addr) (ipPacket : List UInt8) :
    (l.enqueue dstIp ipPacket).Usable := by
  simp only [Link.enqueue]
  split
  · refine Usable.request ?_ dstIp
    exact h.congr rfl rfl
  · exact h.congr rfl rfl

/-- What is looked up can be used. -/
theorem Usable.lookup_ne (h : l.Usable) {dstIp : Ipv4Addr} {mac : MacAddr}
    (hlookup : (l.arp.lookup dstIp l.clock).1 = some mac) : mac ≠ noMac := by
  unfold ArpCache.lookup at hlookup
  cases hentry : l.arp.entries.lookup dstIp with
  | none =>
    rw [hentry] at hlookup
    cases hlookup
  | some entry =>
    rw [hentry] at hlookup
    simp only [Option.ite_none_left_eq_some, Option.some.injEq] at hlookup
    rw [← hlookup.2]
    exact (h.entries dstIp entry hentry).2

theorem Usable.transmit (h : l.Usable) (dstIp : Ipv4Addr) (ipPacket : List UInt8) :
    (l.transmit dstIp ipPacket).Usable := by
  have hlooked : (l.lookedUp dstIp ipPacket).Usable :=
    (h.note (.handed dstIp ipPacket) (by rintro _ ⟨⟩)).congr rfl rfl
  cases hlookup : (l.arp.lookup dstIp l.clock).1 with
  | none =>
    rw [transmit_of_none hlookup]
    exact hlooked.enqueue dstIp ipPacket
  | some mac =>
    rw [transmit_of_some hlookup]
    exact hlooked.writeFrame (l.addressed_ipv4Frame (h.lookup_ne hlookup) ipPacket)

theorem Usable.tick (h : l.Usable) : l.tick.Usable := by
  simp only [Link.tick, arpTick]
  refine List.foldlRecOn _ _ ?_ fun l hl d _ => hl.note _ (by rintro _ ⟨⟩)
  exact List.foldlRecOn _ _ (h.congr rfl rfl) fun l hl ip _ => hl.request ip

/-- The packets that waited are sent to the address that has been inserted. -/
theorem Usable.resolve (h : l.Usable) {ip : Ipv4Addr} {mac : MacAddr} (hip : ip ≠ noIp)
    (hmac : mac ≠ noMac) : (l.resolve ip mac).Usable := by
  simp only [Link.resolve, sendQueued]
  refine List.foldlRecOn _ _ ?_ fun l hl packet _ =>
    hl.writeFrame (l.addressed_ipv4Frame hmac packet)
  refine Usable.note ?_ _ (by rintro _ ⟨⟩)
  exact h.insert ⟨mac, l.clock.read.1 + cacheTtl⟩ hip hmac rfl rfl

theorem resolve_entries (ip : Ipv4Addr) (mac : MacAddr) :
    (l.resolve ip mac).arp.entries = l.arp.entries.insert ip ⟨mac, l.clock.read.1 + cacheTtl⟩ := by
  simp only [Link.resolve, sendQueued]
  exact List.foldlRecOn (motive := fun l' : Link => l'.arp.entries =
    l.arp.entries.insert ip ⟨mac, l.clock.read.1 + cacheTtl⟩) _ _ rfl fun _ hl _ _ => hl

theorem not_usable_resolve {ip : Ipv4Addr} {mac : MacAddr} (hbad : ip = noIp ∨ mac = noMac) :
    ¬ (l.resolve ip mac).Usable := by
  intro h
  have hentry : (l.resolve ip mac).arp.entries.lookup ip =
      some ⟨mac, l.clock.read.1 + cacheTtl⟩ := by
    rw [resolve_entries, AList.lookup_insert]
  obtain ⟨hip, hmac⟩ := h.entries ip _ hentry
  exact hbad.elim hip hmac

/-- Of the ARP packets, a reply without an address to be used is what does harm. -/
theorem Usable.handleArp_iff (h : l.Usable) (payload : List UInt8) :
    (l.handleArp payload).Usable ↔ ¬ Unusable payload := by
  unfold Link.handleArp Unusable
  cases parseArp payload with
  | none => simpa using h
  | some pkt =>
    have hlearn := h.learn pkt.spa pkt.sha
    simp only [Option.some.injEq, exists_eq_left']
    split_ifs with hrequest hreply
    · refine iff_of_true (hlearn.writeFrame (addressed_arp _ _ _)) fun hbad => ?_
      rw [hrequest.1] at hbad
      exact absurd hbad.1 (by decide)
    · rw [and_iff_right hreply, not_or]
      constructor
      · intro husable
        exact not_or.mp fun hbad => not_usable_resolve hbad husable
      · rintro ⟨hip, hmac⟩
        exact hlearn.resolve hip hmac
    · exact iff_of_true hlearn fun hbad => hreply hbad.1

/-- What one event does. -/
theorem usable_step_iff (h : l.Usable) (e : Event) :
    (l.step e).Usable ↔ ∀ payload, e = .arp payload → ¬ Unusable payload := by
  cases e with
  | tick => exact iff_of_true h.tick fun _ he => nomatch he
  | transmit dstIp ipPacket => exact iff_of_true (h.transmit dstIp ipPacket) fun _ he => nomatch he
  | learn ip mac => exact iff_of_true (h.learn ip mac) fun _ he => nomatch he
  | arp payload =>
    rw [step, h.handleArp_iff]
    constructor
    · rintro hgood _ ⟨⟩
      exact hgood
    · exact fun hgood => hgood payload rfl

end Steps
end Link

namespace Stack

/-- The event is a frame with an ARP reply that has no address to be used. -/
def BringsUnusable : StackEvent → Prop
  | .frame data => ∃ header payload, parseFrame data = some (header, payload) ∧
      header.ethertype = ethTypeArp ∧ Link.Unusable payload
  | _ => False

/-- Only frames with ARP's type come to `handle_arp`. -/
theorem arp_of_mem_linkEvents {s : Stack} {e : StackEvent} {payload : List UInt8}
    (h : .arp payload ∈ s.linkEvents e) :
    ∃ data header, e = .frame data ∧ parseFrame data = some (header, payload) ∧
      header.ethertype = ethTypeArp := by
  have hpackets : ∀ packets, Link.Event.arp payload ∉ packetEvents s.ourIp packets := by
    intro packets hmem
    obtain ⟨p, -, hp⟩ := List.mem_map.mp hmem
    cases hp
  cases e with
  | connect remoteIp remotePort iss => exact absurd h (hpackets _)
  | send key data => exact absurd h (hpackets _)
  | recv key => cases h
  | close key => exact absurd h (hpackets _)
  | poll =>
    rcases List.mem_cons.mp h with hhead | hrest
    · cases hhead
    · exact absurd hrest (hpackets _)
  | frame data =>
    simp only [linkEvents] at h
    cases hparse : parseFrame data with
    | none =>
      rw [hparse] at h
      cases h
    | some parsed =>
      obtain ⟨header, body⟩ := parsed
      rw [hparse] at h
      simp only at h
      split_ifs at h with harp hip
      · obtain rfl : payload = body := by simpa using h
        exact ⟨data, header, rfl, hparse, harp⟩
      · simp only [ipv4Events] at h
        split at h
        · cases h
        · rcases List.mem_cons.mp h with hhead | hrest
          · cases hhead
          · split_ifs at hrest
            · obtain ⟨reply, -, hreply⟩ := List.mem_map.mp hrest
              cases hreply
            · obtain ⟨a, -, ha⟩ := List.mem_flatMap.mp hrest
              exact absurd ha (hpackets _)
      · cases h

/-- What one event of the stack does. -/
theorem usable_step_iff {s : Stack} (h : s.toLink.Usable) (e : StackEvent) :
    (s.step e).toLink.Usable ↔ ¬ BringsUnusable e := by
  rw [link_step]
  constructor
  · intro husable hbad
    cases e with
    | frame data =>
      obtain ⟨header, payload, hparse, harp, hunusable⟩ := hbad
      have hevents : s.linkEvents (.frame data) = [.arp payload] := by
        simp only [linkEvents, hparse, if_pos harp]
      rw [hevents] at husable
      exact (h.handleArp_iff payload).mp husable hunusable
    | connect remoteIp remotePort iss => exact hbad
    | send key data => exact hbad
    | recv key => exact hbad
    | close key => exact hbad
    | poll => exact hbad
  · intro hgood
    refine Run.invariant_of_guarded Link.Usable
      (G := fun _ x => ∀ payload, x = .arp payload → ¬ Link.Unusable payload)
      (fun l x hl hx => (Link.usable_step_iff hl x).mpr hx) h
      (Run.guarded_of_forall (fun _ x hx payload heq hunusable => hgood ?_) _)
    subst heq
    obtain ⟨data, header, rfl, hparse, harp⟩ := arp_of_mem_linkEvents hx
    exact ⟨header, payload, hparse, harp, hunusable⟩

end Stack

/-- **Usable mappings.**  In every state of a run the entries can be used, and no packet has been
sent to the hardware address of zeros, exactly when the run has no ARP reply from 0.0.0.0 or with
that address. -/
theorem usable_mappings_iff (ourIp : Ipv4Addr) (ourMac : MacAddr) (clock : Clock)
    (es : List StackEvent) :
    (∀ fs, fs <+: es → (run Stack.step (.new ourIp ourMac clock) fs).toLink.Usable) ↔
      ∀ e ∈ es, ¬ Stack.BringsUnusable e := by
  have hnew : (Stack.new ourIp ourMac clock).toLink.Usable :=
    ⟨fun ip entry hnone => (nomatch hnone), fun _ _ hnone => (nomatch hnone)⟩
  rw [Run.invariant_iff_guarded (fun s : Stack => s.toLink.Usable) (D := fun _ _ => True)
    (G := fun _ e => ¬ Stack.BringsUnusable e) (fun s e h _ => Stack.usable_step_iff h e) hnew
    (Run.guarded_of_forall (fun _ _ _ => trivial) _)]
  exact Run.guarded_iff_forall

/-- A reply from the demo's peer that gives zeros for its hardware address. -/
def demoZeroReply : StackEvent :=
  .frame (buildFrame demoMac demoPeerMac ethTypeArp
    (buildArp arpHtypeEther arpPtypeIpv4 arpHlenEther arpPlenIpv4 arpOpReply noMac
      demoKey.remoteIp demoMac demoKey.localIp))

/-- The SYN that waits for the peer's address goes to zeros, and so would what follows. -/
theorem demo_sent_to_zeros :
    let l := (run Stack.step demoFullStack
      [.connect demoKey.remoteIp demoKey.remotePort 1000, demoZeroReply]).toLink
    (∃ entry, l.arp.entries.lookup demoKey.remoteIp = some entry ∧ entry.mac = noMac) ∧
      (0, Action.wrote (l.ipv4Frame noMac ((demoSyn 40000 1000).bytes demoKey.localIp))) ∈ l.trace ∧
      ¬ l.Usable := by
  intro l
  have hentry : l.arp.entries.lookup demoKey.remoteIp = some ⟨noMac, cacheTtl⟩ := rfl
  refine ⟨⟨_, hentry, rfl⟩, ?_, fun h => (h.entries _ _ hentry).2 rfl⟩
  have htrace : l.trace[3]? = some (0, Action.wrote (l.ipv4Frame noMac
    ((demoSyn 40000 1000).bytes demoKey.localIp))) := rfl
  exact List.mem_of_getElem? htrace

end PpcaNetwork.TcpStack
