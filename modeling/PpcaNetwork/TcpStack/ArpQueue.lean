import PpcaNetwork.Lib.Loop
import PpcaNetwork.TcpStack.FullStack
import PpcaNetwork.TcpStack.Neighbour

/-!
# The link, one address at a time

* `Link.neighbour` — what has been done for an address, read off the link: the frames of
  the trace are taken apart by the parsers.
* `Link.neighbour_step` — an event of the link is at most one event of the machine of each
  address.
* `Stack.neighbour_run` — the same for runs of the stack, whose packets are all addressed
  to where they are sent.
* `Stack.handed_run` — what the events of a run hand to `send_frame` for an address.
* `arp_queue_conserved` — **conservation**: no packet is lost, none is written twice, and
  an address is asked for three times at most, three seconds apart.
-/

namespace PpcaNetwork.TcpStack

/-! ## What is done for an address -/

/-- The destination of a packet. -/
def destination (packet : List UInt8) : Option Ipv4Addr := (parseIpv4 packet).map (·.1.dst)

/-- What a frame does for `ip`: it brings a packet to it, or asks for it. -/
def seenInFrame (ip : Ipv4Addr) (frame : List UInt8) : Option NeighbourAction :=
  match parseFrame frame with
  | none => none
  | some (header, payload) =>
    if header.ethertype = ethTypeIpv4 then
      if destination payload = some ip then some (.wrote payload) else none
    else if header.ethertype = ethTypeArp then
      if (parseArp payload).any fun p => p.oper = arpOpRequest ∧ p.tpa = ip then some .requested
      else none
    else none

/-- What an action does for `ip`. -/
def seenFor (ip : Ipv4Addr) : Action → Option NeighbourAction
  | .handed dstIp packet => if dstIp = ip then some (.handed packet) else none
  | .wrote frame => seenInFrame ip frame
  | .resolved ip' => if ip' = ip then some .resolved else none
  | .timedOut ip' packets => if ip' = ip then some (.timedOut packets) else none

namespace Link

/-- The link, seen from `ip`. -/
def neighbour (ip : Ipv4Addr) (l : Link) : Neighbour where
  pending := l.arp.pending.lookup ip
  history := l.trace.filterMap fun a => (seenFor ip a.2).map (a.1, ·)

theorem neighbour_note (l : Link) (action : Action) (ip : Ipv4Addr) :
    (l.note action).neighbour ip = (l.neighbour ip).record l.now (seenFor ip action).toList := by
  cases h : seenFor ip action <;> simp [neighbour, note, Neighbour.record, h]

theorem seenFor_ipv4Frame (l : Link) (ip : Ipv4Addr) (mac : MacAddr) (packet : List UInt8) :
    seenFor ip (.wrote (l.ipv4Frame mac packet)) =
      if destination packet = some ip then some (.wrote packet) else none := by
  simp [seenFor, seenInFrame, ipv4Frame, parseFrame_buildFrame]

theorem seenFor_arpFrame (dst src : MacAddr) (ip tpa : Ipv4Addr) (oper : UInt16) (sha tha : MacAddr)
    (spa : Ipv4Addr) :
    seenFor ip (.wrote (buildFrame dst src ethTypeArp
        (buildArp arpHtypeEther arpPtypeIpv4 arpHlenEther arpPlenIpv4 oper sha spa tha tpa))) =
      if oper = arpOpRequest ∧ tpa = ip then some .requested else none := by
  have hne : ethTypeArp ≠ ethTypeIpv4 := by decide
  simp [seenFor, seenInFrame, parseFrame_buildFrame, parseArp_buildArp, hne]

theorem seenFor_requestFrame (l : Link) (ip ip' : Ipv4Addr) :
    seenFor ip (.wrote (l.requestFrame ip')) = if ip' = ip then some .requested else none := by
  rw [requestFrame, buildArpRequest, seenFor_arpFrame]
  simp

/-- What waits for an address is addressed to it. -/
def WellAddressed (l : Link) : Prop :=
  ∀ ip, ∀ packet ∈ l.waiting ip, destination packet = some ip

/-- A packet that is sent is addressed to where it is sent. -/
def SendsAddressed (_ : Link) : Event → Prop
  | .transmit dstIp ipPacket => destination ipPacket = some dstIp
  | _ => True

/-- What `ip` sees of an event of the link. -/
def observe (ip : Ipv4Addr) (l : Link) : Event → List NeighbourEvent
  | .tick => [.tick l.clock.read.1]
  | .transmit dstIp ipPacket =>
    if dstIp = ip then
      match (l.arp.lookup dstIp l.clock).1 with
      | some _ => [.direct ipPacket l.now]
      | none => [.queued ipPacket l.now]
    else []
  | .learn _ _ => []
  | .arp payload =>
    match parseArp payload with
    | none => []
    | some pkt => if pkt.oper = arpOpReply ∧ pkt.spa = ip then [.resolved l.now] else []

/-! ## One operation at a time -/

theorem neighbour_learn (l : Link) (ip ip' : Ipv4Addr) (mac : MacAddr) :
    (l.learn ip' mac).neighbour ip = l.neighbour ip := by
  have hpending : (l.arp.learn ip' mac l.clock).1.pending = l.arp.pending := by
    unfold ArpCache.learn
    split <;> rfl
  simp only [neighbour, learn, hpending]

/-- `record_request`, seen from one address. -/
def requested (n : Neighbour) (now : Instant) : Neighbour :=
  let entry : PendingEntry :=
    match n.pending with
    | some entry => { entry with lastRequest := now, retries := entry.retries + 1 }
    | none => { packets := [], lastRequest := now, retries := 1 }
  ({ n with pending := some entry } : Neighbour).record now [.requested]

theorem neighbour_request_self (l : Link) (ip : Ipv4Addr) :
    (l.request ip).neighbour ip = requested (l.neighbour ip) l.now := by
  have hnote := l.neighbour_note (.wrote (l.requestFrame ip)) ip
  rw [seenFor_requestFrame, if_pos rfl] at hnote
  have hhistory := congrArg Neighbour.history hnote
  simp only [neighbour, request, ArpCache.recordRequest, AList.lookup_insert, requested,
    Neighbour.record] at hhistory ⊢
  rw [Neighbour.mk.injEq]
  exact ⟨rfl, hhistory⟩

theorem neighbour_request_ne (l : Link) {ip ip' : Ipv4Addr} (hne : ip' ≠ ip) :
    (l.request ip').neighbour ip = l.neighbour ip := by
  have hnote := l.neighbour_note (.wrote (l.requestFrame ip')) ip
  rw [seenFor_requestFrame, if_neg hne] at hnote
  have hhistory := congrArg Neighbour.history hnote
  simp only [Neighbour.record, Option.toList_none, List.map_nil, List.append_nil] at hhistory
  rw [neighbour, neighbour, Neighbour.mk.injEq]
  exact ⟨AList.lookup_insert_ne (Ne.symm hne), hhistory⟩

/-- The cache with one more packet queued. -/
def queuedUnder (l : Link) (dstIp : Ipv4Addr) (entry : PendingEntry) : Link :=
  { l with arp := { l.arp with pending := l.arp.pending.insert dstIp entry } }

theorem neighbour_queuedUnder (l : Link) (ip dstIp : Ipv4Addr) (entry : PendingEntry) :
    (l.queuedUnder dstIp entry).neighbour ip =
      if dstIp = ip then { l.neighbour ip with pending := some entry } else l.neighbour ip := by
  split
  · rename_i hip
    subst hip
    simp [neighbour, queuedUnder]
  · rename_i hip
    simp [neighbour, queuedUnder, AList.lookup_insert_ne (Ne.symm hip)]

theorem enqueue_of_none {l : Link} {dstIp : Ipv4Addr} (h : l.arp.pending.lookup dstIp = none)
    (packet : List UInt8) :
    l.enqueue dstIp packet = (l.queuedUnder dstIp ⟨[packet], l.now, 0⟩).request dstIp := by
  simp [enqueue, ArpCache.queuePacket, h, queuedUnder]

theorem enqueue_of_some {l : Link} {dstIp : Ipv4Addr} {entry : PendingEntry}
    (h : l.arp.pending.lookup dstIp = some entry) (packet : List UInt8) :
    l.enqueue dstIp packet =
      l.queuedUnder dstIp { entry with packets := entry.packets ++ [packet] } := by
  simp [enqueue, ArpCache.queuePacket, h, queuedUnder]

/-- `queue_packet` and the request that may follow, seen from one address. -/
def pushed (n : Neighbour) (packet : List UInt8) (now : Instant) : Neighbour :=
  match n.pending with
  | none => requested { n with pending := some ⟨[packet], now, 0⟩ } now
  | some entry => { n with pending := some { entry with packets := entry.packets ++ [packet] } }

theorem neighbour_enqueue (l : Link) (ip dstIp : Ipv4Addr) (packet : List UInt8) :
    (l.enqueue dstIp packet).neighbour ip =
      if dstIp = ip then pushed (l.neighbour ip) packet l.now else l.neighbour ip := by
  split
  · rename_i hip
    subst hip
    cases hp : l.arp.pending.lookup dstIp with
    | none =>
      have hpending : (l.neighbour dstIp).pending = none := hp
      rw [enqueue_of_none hp, neighbour_request_self, neighbour_queuedUnder, if_pos rfl]
      simp only [pushed, hpending]
      rfl
    | some entry =>
      have hpending : (l.neighbour dstIp).pending = some entry := hp
      rw [enqueue_of_some hp, neighbour_queuedUnder, if_pos rfl]
      simp only [pushed, hpending]
  · rename_i hip
    cases hp : l.arp.pending.lookup dstIp with
    | none => rw [enqueue_of_none hp, neighbour_request_ne _ hip, neighbour_queuedUnder, if_neg hip]
    | some entry => rw [enqueue_of_some hp, neighbour_queuedUnder, if_neg hip]

theorem pushed_record (n : Neighbour) (packet : List UInt8) (now : Instant) :
    pushed (n.record now [.handed packet]) packet now = n.queue packet now := by
  cases hp : n.pending with
  | none => simp [pushed, requested, Neighbour.queue, Neighbour.record, hp]
  | some entry => simp [pushed, Neighbour.queue, Neighbour.record, hp]

/-- `send_frame`. -/
theorem neighbour_transmit (l : Link) (ip : Ipv4Addr) {dstIp : Ipv4Addr} {packet : List UInt8}
    (hdst : destination packet = some dstIp) :
    (l.transmit dstIp packet).neighbour ip =
      run Neighbour.step (l.neighbour ip) (l.observe ip (.transmit dstIp packet)) := by
  have hnote : (l.lookedUp dstIp packet).neighbour ip = (l.neighbour ip).record l.now
      (if dstIp = ip then some (.handed packet) else none).toList := l.neighbour_note ..
  have hdest : destination packet = some ip ↔ dstIp = ip := by
    rw [hdst, Option.some.injEq]
  have hnow : (l.lookedUp dstIp packet).now = l.now := rfl
  cases hfound : (l.arp.lookup dstIp l.clock).1 with
  | none =>
    rw [transmit_of_none hfound, neighbour_enqueue, hnote]
    simp only [observe, hfound]
    split
    · exact pushed_record ..
    · simp [Neighbour.record]
  | some mac =>
    rw [transmit_of_some hfound, writeFrame, neighbour_note, seenFor_ipv4Frame, hnote, hnow]
    simp only [observe, hfound, hdest]
    split
    · simp [Neighbour.record, Neighbour.step]
    · simp [Neighbour.record]

/-- The packets that waited for `spa`. -/
theorem neighbour_sendQueued (l : Link) (ip spa : Ipv4Addr) (mac : MacAddr)
    {queued : List (List UInt8)} (hdst : ∀ packet ∈ queued, destination packet = some spa) :
    (l.sendQueued mac queued).neighbour ip =
      (l.neighbour ip).record l.now (if spa = ip then queued.map .wrote else []) := by
  induction queued generalizing l with
  | nil => simp [sendQueued, Neighbour.record]
  | cons packet queued ih =>
    have hcons : l.sendQueued mac (packet :: queued) =
        (l.writeFrame (l.ipv4Frame mac packet)).sendQueued mac queued := rfl
    have hdest : destination packet = some ip ↔ spa = ip := by
      rw [hdst packet List.mem_cons_self, Option.some.injEq]
    have hhead : (l.writeFrame (l.ipv4Frame mac packet)).neighbour ip = _ := l.neighbour_note _ ip
    rw [hcons, ih _ fun p hp => hdst p (List.mem_cons_of_mem _ hp), hhead, seenFor_ipv4Frame]
    simp only [hdest]
    split
    · simp [Neighbour.record, writeFrame]
    · simp [Neighbour.record]

theorem neighbour_insert (l : Link) (ip ip' : Ipv4Addr) (mac : MacAddr) :
    ({ l with arp := (l.arp.insert ip' mac l.clock).1
              clock := (l.arp.insert ip' mac l.clock).2.2 } : Link).neighbour ip =
      if ip' = ip then { l.neighbour ip with pending := none } else l.neighbour ip := by
  split
  · rename_i hip
    subst hip
    simp [neighbour, ArpCache.insert]
  · rename_i hip
    simp [neighbour, ArpCache.insert, AList.lookup_erase_ne (Ne.symm hip)]

/-- A reply from `ip'`. -/
theorem neighbour_resolve {l : Link} (h : l.WellAddressed) (ip ip' : Ipv4Addr) (mac : MacAddr) :
    (l.resolve ip' mac).neighbour ip =
      if ip' = ip then (l.neighbour ip).resolve l.now else l.neighbour ip := by
  have hqueued : (l.arp.insert ip' mac l.clock).2.1 = l.waiting ip' := rfl
  simp only [resolve, hqueued]
  rw [neighbour_sendQueued _ _ _ _ (h ip'), neighbour_note, neighbour_insert]
  simp only [seenFor, note_now]
  split
  · rename_i hip
    subst hip
    simp only [Neighbour.resolve, Neighbour.record, Option.toList_some, List.map_cons,
      List.map_nil, List.append_assoc, List.singleton_append]
    rfl
  · simp [Neighbour.record]

/-- `handle_arp`. -/
theorem neighbour_handleArp {l : Link} (h : l.WellAddressed) (ip : Ipv4Addr)
    (payload : List UInt8) :
    (l.handleArp payload).neighbour ip =
      run Neighbour.step (l.neighbour ip) (l.observe ip (.arp payload)) := by
  simp only [handleArp, observe]
  cases parseArp payload with
  | none => rfl
  | some pkt =>
    have hlearn := l.neighbour_learn ip pkt.spa pkt.sha
    simp only
    split
    · rename_i hrequest
      have hnot : ¬ (pkt.oper = arpOpReply ∧ pkt.spa = ip) := by
        rw [hrequest.1]
        exact fun hreply => absurd hreply.1 (by decide)
      have hunseen : ¬ (arpOpReply = arpOpRequest ∧ pkt.spa = ip) := fun hboth =>
        absurd hboth.1 (by decide)
      rw [if_neg hnot, writeFrame, neighbour_note, buildArpReply, seenFor_arpFrame, if_neg hunseen,
        hlearn]
      simp [Neighbour.record]
    · split
      · rename_i hreply
        have hwell : (l.learn pkt.spa pkt.sha).WellAddressed := by
          intro ip' packet hpacket
          refine h ip' packet ?_
          have hsame : (l.learn pkt.spa pkt.sha).waiting ip' = l.waiting ip' :=
            congrArg Neighbour.waiting (l.neighbour_learn ip' pkt.spa pkt.sha)
          exact hsame ▸ hpacket
        rw [neighbour_resolve hwell, hlearn]
        simp only [hreply, true_and]
        split <;> rfl
      · rename_i hreply
        rw [if_neg fun hboth => hreply hboth.1]
        exact hlearn

/-! ## `tick` -/

end Link

namespace ArpCache

theorem timedOutIps_eq (cache : ArpCache) (now : Instant) :
    (cache.tick now).2.timedOutIps = (cache.pending.retain (isTimedOut now)).keys :=
  Table.collect_keys ..

theorem retryIps_eq (cache : ArpCache) (now : Instant) :
    (cache.tick now).2.retryIps = (cache.pending.retain (isRetried now)).keys :=
  Table.collect_keys ..

theorem lookup_pending_tick (cache : ArpCache) (now : Instant) (ip : Ipv4Addr) :
    (cache.tick now).1.pending.lookup ip =
      if ip ∈ (cache.tick now).2.timedOutIps then none else cache.pending.lookup ip := by
  have hnodup : (cache.tick now).2.timedOutIps.Nodup := by
    rw [timedOutIps_eq]
    exact AList.keys_nodup _
  have hsingle := Loop.foldl_single (fun pending : Table Ipv4Addr PendingEntry => pending.lookup ip)
    (g := fun pending ip => pending.erase ip) (a := ip)
    (fun pending ip' hne => AList.lookup_erase_ne (Ne.symm hne))
    (fun pending pending' _ => by rw [AList.lookup_erase, AList.lookup_erase]) hnodup cache.pending
  rw [AList.lookup_erase] at hsingle
  exact hsingle

end ArpCache

namespace Link

/-- What an address sees of the link, with the time. -/
def seen (ip : Ipv4Addr) (l : Link) : Neighbour × Instant := (l.neighbour ip, l.now)

/-- The requests of `arp_tick`: one for each address that is to be asked for again. -/
theorem seen_requests {l : Link} {ips : List Ipv4Addr} (hnodup : ips.Nodup) (ip : Ipv4Addr) :
    (ips.foldl request l).seen ip =
      if ip ∈ ips then (requested (l.neighbour ip) l.now, l.now) else l.seen ip := by
  have hself : ∀ l : Link, (l.request ip).seen ip = (requested (l.neighbour ip) l.now, l.now) :=
    fun l => by rw [seen, neighbour_request_self]; rfl
  rw [Loop.foldl_single (seen ip) (a := ip) ?_ ?_ hnodup, hself]
  · intro l ip' hne
    rw [seen, neighbour_request_ne l hne]
    rfl
  · intro l l' hsame
    obtain ⟨hneighbour, hnow⟩ := Prod.mk.inj hsame
    rw [hself, hself, hneighbour, hnow]

/-- The timeouts of `arp_tick`. -/
theorem seen_timeouts {l : Link} {ips : List Ipv4Addr} (hnodup : ips.Nodup)
    (packets : Ipv4Addr → List (List UInt8)) (ip : Ipv4Addr) :
    (ips.foldl (fun l ip' => l.note (.timedOut ip' (packets ip'))) l).seen ip =
      if ip ∈ ips then ((l.neighbour ip).record l.now [.timedOut (packets ip)], l.now)
      else l.seen ip := by
  have hself : ∀ l : Link, (l.note (.timedOut ip (packets ip))).seen ip =
      ((l.neighbour ip).record l.now [.timedOut (packets ip)], l.now) := by
    intro l
    simp only [seen, neighbour_note, seenFor, if_true, Option.toList_some, note_now]
  rw [Loop.foldl_single (seen ip) (a := ip) ?_ ?_ hnodup, hself]
  · intro l ip' hne
    simp [seen, neighbour_note, seenFor, hne, Neighbour.record]
  · intro l l' hsame
    obtain ⟨hneighbour, hnow⟩ := Prod.mk.inj hsame
    rw [hself, hself, hneighbour, hnow]

theorem mem_timedOutIps (l : Link) (ip : Ipv4Addr) :
    ip ∈ (l.arp.tick l.now).2.timedOutIps ↔
      ∃ entry, (l.neighbour ip).pending = some entry ∧ ArpCache.isTimedOut l.now entry = true := by
  rw [ArpCache.timedOutIps_eq]
  exact Table.mem_keys_retain ..

theorem mem_retryIps (l : Link) (ip : Ipv4Addr) :
    ip ∈ (l.arp.tick l.now).2.retryIps ↔
      ∃ entry, (l.neighbour ip).pending = some entry ∧ ArpCache.isRetried l.now entry = true := by
  rw [ArpCache.retryIps_eq]
  exact Table.mem_keys_retain ..

/-- `arp_tick`, seen from one address: first what is dropped is taken out, then what is to
be retried is requested, and then what has been dropped is reported. -/
theorem seen_arpTick (l : Link) (ip : Ipv4Addr) :
    let dropped : Link := { l with arp := (l.arp.tick l.now).1 }
    let retried := (l.arp.tick l.now).2.retryIps.foldl request dropped
    (retried.seen ip = if ip ∈ (l.arp.tick l.now).2.retryIps then
        (requested (dropped.neighbour ip) l.now, l.now) else dropped.seen ip) ∧
      l.arpTick.seen ip = if ip ∈ (l.arp.tick l.now).2.timedOutIps then
        ((retried.neighbour ip).record retried.now [.timedOut (l.waiting ip)], retried.now)
        else retried.seen ip := by
  intro dropped retried
  constructor
  · refine seen_requests ?_ ip
    rw [ArpCache.retryIps_eq]
    exact AList.keys_nodup _
  · simp only [arpTick, List.foldl_map]
    refine seen_timeouts ?_ l.waiting ip
    rw [ArpCache.timedOutIps_eq]
    exact AList.keys_nodup _

theorem neighbour_arpTick (l : Link) (ip : Ipv4Addr) :
    l.arpTick.neighbour ip = (l.neighbour ip).tick l.now := by
  obtain ⟨hretried, htick⟩ := l.seen_arpTick ip
  have hdropped : ({ l with arp := (l.arp.tick l.now).1 } : Link).neighbour ip =
      { l.neighbour ip with
        pending := if ip ∈ (l.arp.tick l.now).2.timedOutIps then none
          else (l.neighbour ip).pending } := by
    rw [show (l.neighbour ip).pending = l.arp.pending.lookup ip from rfl,
      ← ArpCache.lookup_pending_tick]
    rfl
  suffices hseen : l.arpTick.seen ip = ((l.neighbour ip).tick l.now, l.now) from
    congrArg (·.1) hseen
  rw [htick]
  generalize List.foldl request _ _ = retried at hretried htick ⊢
  have hunseen : ({ l with arp := (l.arp.tick l.now).1 } : Link).seen ip =
      (({ l with arp := (l.arp.tick l.now).1 } : Link).neighbour ip, l.now) := rfl
  rw [hunseen, hdropped] at hretried
  cases hp : (l.neighbour ip).pending with
  | none =>
    have hnot : ip ∉ (l.arp.tick l.now).2.timedOutIps := by simp [mem_timedOutIps, hp]
    have hnot' : ip ∉ (l.arp.tick l.now).2.retryIps := by simp [mem_retryIps, hp]
    rw [if_neg hnot', if_neg hnot] at hretried
    rw [if_neg hnot, hretried, Neighbour.tick_of_none hp]
  | some entry =>
    have htimedOut : ip ∈ (l.arp.tick l.now).2.timedOutIps ↔
        ArpCache.isTimedOut l.now entry = true := by simp [mem_timedOutIps, hp]
    have hagain : ip ∈ (l.arp.tick l.now).2.retryIps ↔
        ArpCache.isRetried l.now entry = true := by simp [mem_retryIps, hp]
    simp only [htimedOut, hagain] at hretried ⊢
    have hwaiting : l.waiting ip = entry.packets := by
      rw [show l.waiting ip = (l.neighbour ip).waiting from rfl, Neighbour.waiting, hp]
      rfl
    by_cases hto : ArpCache.isTimedOut l.now entry = true
    · have hno : ¬ ArpCache.isRetried l.now entry = true := by
        simp only [ArpCache.isTimedOut, ArpCache.isRetried, decide_eq_true_eq] at hto ⊢
        exact fun hre => absurd hto.1 (Nat.not_le.mpr hre.1)
      rw [if_neg hno, if_pos hto] at hretried
      obtain ⟨hneighbour, hnow⟩ := Prod.mk.inj hretried
      rw [if_pos hto, hneighbour, hnow, hwaiting, Neighbour.tick_of_timedOut hp hto]
    · rw [if_neg hto] at hretried ⊢
      rw [hretried]
      split
      · rename_i hre
        rw [Neighbour.tick_of_retried hp hto hre]
        simp only [requested, hp]
      · rename_i hre
        rw [Neighbour.tick_of_waiting hp hto hre]

/-! ## Every event -/

/-- One event of the link, seen from each address. -/
theorem neighbour_step {l : Link} (h : l.WellAddressed) {e : Event} (he : l.SendsAddressed e)
    (ip : Ipv4Addr) :
    (l.step e).neighbour ip = run Neighbour.step (l.neighbour ip) (l.observe ip e) := by
  cases e with
  | tick => exact neighbour_arpTick { l with now := l.clock.read.1, clock := l.clock.read.2 } ip
  | transmit dstIp packet => exact l.neighbour_transmit ip he
  | learn ip' mac => exact l.neighbour_learn ip ip' mac
  | arp payload => exact neighbour_handleArp h ip payload

/-- An address sees at most one event of each of the link's. -/
theorem mem_waiting_of_observe {l : Link} {e : Event} {ip : Ipv4Addr} {packet : List UInt8}
    (h : packet ∈ (run Neighbour.step (l.neighbour ip) (l.observe ip e)).waiting) :
    packet ∈ l.waiting ip ∨ e = .transmit ip packet := by
  cases e with
  | tick =>
    rcases Neighbour.mem_waiting_step (e := .tick l.clock.read.1) h with hold | ⟨now, hnew⟩
    · exact .inl hold
    · exact absurd hnew (by simp)
  | learn ip' mac => exact .inl h
  | arp payload =>
    simp only [observe] at h
    split at h
    · exact .inl h
    · split at h
      · rcases Neighbour.mem_waiting_step (e := .resolved l.now) h with hold | ⟨now, hnew⟩
        · exact .inl hold
        · exact absurd hnew (by simp)
      · exact .inl h
  | transmit dstIp packet' =>
    simp only [observe] at h
    split at h
    · rename_i hip
      subst hip
      split at h
      · rcases Neighbour.mem_waiting_step (e := .direct packet' l.now) h with hold | ⟨now, hnew⟩
        · exact .inl hold
        · exact absurd hnew (by simp)
      · rcases Neighbour.mem_waiting_step (e := .queued packet' l.now) h with hold | ⟨now, hnew⟩
        · exact .inl hold
        · exact .inr (by rw [(NeighbourEvent.queued.inj hnew).1])
    · exact .inl h

theorem WellAddressed.step {l : Link} (h : l.WellAddressed) {e : Event} (he : l.SendsAddressed e) :
    (l.step e).WellAddressed := by
  intro ip packet hpacket
  have hseen := congrArg Neighbour.waiting (neighbour_step h he ip)
  have hmem : packet ∈ (run Neighbour.step (l.neighbour ip) (l.observe ip e)).waiting :=
    hseen ▸ hpacket
  rcases mem_waiting_of_observe hmem with hold | rfl
  · exact h ip packet hold
  · exact he

/-- A run of the link, seen from each address. -/
theorem neighbour_run {l : Link} (h : l.WellAddressed) {es : List Event}
    (hes : Run.Guarded step SendsAddressed l es) (ip : Ipv4Addr) :
    (run step l es).neighbour ip =
      run Neighbour.step (l.neighbour ip) (Run.observe step (observe ip) l es) :=
  Run.project_of_guarded WellAddressed (neighbour ip) (fun _ _ h he => h.step he)
    (fun _ _ h he => neighbour_step h he ip) h hes

end Link

/-! ## What is handed over -/

/-- The packets that an event hands over. -/
def NeighbourEvent.handed : NeighbourEvent → List (List UInt8)
  | .direct packet _ | .queued packet _ => [packet]
  | .tick _ | .resolved _ => []

theorem Neighbour.handed_step (n : Neighbour) (e : NeighbourEvent) :
    (n.step e).handed = n.handed ++ e.handed := by
  cases e with
  | direct packet now => exact (n.packets_direct packet now).1
  | queued packet now =>
    simp only [step, queue]
    split <;> exact handed_record ..
  | tick now =>
    simp only [step, tick, NeighbourEvent.handed, List.append_nil]
    split
    · rfl
    · split_ifs
      · exact (handed_record ..).trans (List.append_nil _)
      · exact (handed_record ..).trans (List.append_nil _)
      · rfl
  | resolved now =>
    simp only [step, resolve, NeighbourEvent.handed]
    exact (handed_record ..).trans (congrArg _ (filterMap_wrote n.waiting).2.1)

namespace Link

/-- The packets that an event of the link hands over for `ip`. -/
def handedTo (ip : Ipv4Addr) : Event → List (List UInt8)
  | .transmit dstIp ipPacket => if dstIp = ip then [ipPacket] else []
  | _ => []

theorem handed_step {l : Link} (h : l.WellAddressed) {e : Event} (he : l.SendsAddressed e)
    (ip : Ipv4Addr) :
    ((l.step e).neighbour ip).handed = (l.neighbour ip).handed ++ handedTo ip e := by
  rw [neighbour_step h he ip]
  cases e with
  | tick => exact Neighbour.handed_step _ (.tick _)
  | learn a m => exact (List.append_nil _).symm
  | transmit dstIp packet =>
    simp only [observe, handedTo]
    split
    · split
      · exact Neighbour.handed_step _ (.direct ..)
      · exact Neighbour.handed_step _ (.queued ..)
    · exact (List.append_nil _).symm
  | arp payload =>
    simp only [observe, handedTo]
    split
    · exact (List.append_nil _).symm
    · split
      · exact Neighbour.handed_step _ (.resolved _)
      · exact (List.append_nil _).symm

/-- A run of the link, whose packets are addressed to where they are sent. -/
theorem handed_run {l : Link} (h : l.WellAddressed) {es : List Event}
    (hes : ∀ e ∈ es, ∀ l : Link, l.SendsAddressed e) (ip : Ipv4Addr) :
    (run step l es).WellAddressed ∧ ((run step l es).neighbour ip).handed =
      (l.neighbour ip).handed ++ es.flatMap (handedTo ip) := by
  induction es generalizing l with
  | nil => exact ⟨h, (List.append_nil _).symm⟩
  | cons e es ih =>
    have he := hes e List.mem_cons_self l
    obtain ⟨hwell, hhanded⟩ := ih (h.step he) fun e' he' => hes e' (List.mem_cons_of_mem _ he')
    refine ⟨hwell, ?_⟩
    rw [Run.run_cons, hhanded, handed_step h he ip, List.flatMap_cons, List.append_assoc]

end Link

/-! ## The stack -/

namespace Stack

theorem destination_bytes (ourIp : Ipv4Addr) (p : TcpPacket) :
    destination (p.bytes ourIp) = some p.dstIp := by
  obtain ⟨ipHdr, hparse, -, -, -, hdst⟩ := p.parseIpv4_bytes ourIp
  rw [destination, hparse, Option.map_some, hdst]

theorem sendsAddressed_packets {l : Link} {ourIp : Ipv4Addr} {packets : List TcpPacket}
    {e : Link.Event} (he : e ∈ packetEvents ourIp packets) : l.SendsAddressed e := by
  obtain ⟨p, -, rfl⟩ := List.mem_map.mp he
  exact destination_bytes ourIp p

/-- Everything that the stack sends is addressed to where it is sent. -/
theorem sendsAddressed (s : Stack) (e : StackEvent) (l : Link) :
    ∀ e' ∈ s.linkEvents e, l.SendsAddressed e' := by
  intro e' he'
  cases e with
  | connect remoteIp remotePort iss => exact sendsAddressed_packets he'
  | send key data => exact sendsAddressed_packets he'
  | recv key => exact absurd he' (by simp [linkEvents])
  | close key => exact sendsAddressed_packets he'
  | poll =>
    rcases List.mem_cons.mp he' with rfl | he'
    · trivial
    · exact sendsAddressed_packets he'
  | frame data =>
    simp only [linkEvents] at he'
    split at he'
    · exact absurd he' (by simp)
    · split_ifs at he'
      · rw [List.mem_singleton.mp he']
        trivial
      · unfold ipv4Events at he'
        split at he'
        · exact absurd he' (by simp)
        · rcases List.mem_cons.mp he' with rfl | he'
          · trivial
          · split_ifs at he'
            · obtain ⟨reply, -, rfl⟩ := List.mem_map.mp he'
              simp [Link.SendsAddressed, destination, parseIpv4_buildIpv4]
            · obtain ⟨a, -, hpackets⟩ := List.mem_flatMap.mp he'
              exact sendsAddressed_packets hpackets
      · exact absurd he' (by simp)

/-- What has been done for `ip`. -/
def neighbour (ip : Ipv4Addr) (s : Stack) : Neighbour := s.toLink.neighbour ip

/-- What `ip` sees of the events of a run. -/
def neighbourEvents (ip : Ipv4Addr) (s : Stack) (es : List StackEvent) : List NeighbourEvent :=
  Run.observe Link.step (Link.observe ip) s.toLink (Run.observe step linkEvents s es)

theorem wellAddressed_new (ourIp : Ipv4Addr) (ourMac : MacAddr) (clock : Clock) :
    (new ourIp ourMac clock).toLink.WellAddressed := by
  intro ip packet hpacket
  exact absurd hpacket (by simp [Link.waiting, new, ArpCache.new])

/-- **One address of a run.** -/
theorem neighbour_run (ourIp : Ipv4Addr) (ourMac : MacAddr) (clock : Clock) (es : List StackEvent)
    (ip : Ipv4Addr) :
    (run step (.new ourIp ourMac clock) es).neighbour ip =
      run Neighbour.step .absent (neighbourEvents ip (.new ourIp ourMac clock) es) := by
  have haddressed : Run.Guarded Link.step Link.SendsAddressed (new ourIp ourMac clock).toLink
      (Run.observe step linkEvents (new ourIp ourMac clock) es) := by
    refine Run.guarded_of_forall (fun l => ?_) _
    exact Run.forall_observe (fun _ => True) (fun _ _ _ => trivial)
      (fun s e _ => s.sendsAddressed e l) trivial es
  rw [neighbour, link_run]
  exact Link.neighbour_run (wellAddressed_new ourIp ourMac clock) haddressed ip

theorem handed_step {s : Stack} (h : s.toLink.WellAddressed) (e : StackEvent) (ip : Ipv4Addr) :
    (s.step e).toLink.WellAddressed ∧ ((s.step e).neighbour ip).handed =
      (s.neighbour ip).handed ++ (s.linkEvents e).flatMap (Link.handedTo ip) := by
  rw [neighbour, link_step]
  exact Link.handed_run h (fun e' he' l => s.sendsAddressed e l e' he') ip

/-- What the stack hands to `send_frame` for `ip` at an event. -/
def handsTo (ip : Ipv4Addr) (s : Stack) (e : StackEvent) : List (List UInt8) :=
  (s.linkEvents e).flatMap (Link.handedTo ip)

/-- What has been handed over in a run is what its events hand over, in their order. -/
theorem handed_run (ip : Ipv4Addr) {s : Stack} (h : s.toLink.WellAddressed)
    (es : List StackEvent) : ((run step s es).neighbour ip).handed =
      (s.neighbour ip).handed ++ Run.observe step (handsTo ip) s es := by
  induction es generalizing s with
  | nil => exact (List.append_nil _).symm
  | cons e es ih =>
    obtain ⟨hwell, hhanded⟩ := s.handed_step h e ip
    rw [Run.run_cons, ih hwell, hhanded, Run.observe, List.append_assoc]
    rfl

end Stack

/-- **Nothing is lost below IP.**  In every run of the stack, what its events handed to
`send_frame` for an address is, with multiplicity, what was written to it, what waits for it and
what was dropped when it timed out; and from the first packet that waits until a reply or the
timeout, the address is asked for three times at most, each time at least three seconds
after the times before, and given up no earlier than that after the last. -/
theorem arp_queue_conserved (ourIp : Ipv4Addr) (ourMac : MacAddr) (clock : Clock)
    (es : List StackEvent) (ip : Ipv4Addr) :
    let n := (run Stack.step (.new ourIp ourMac clock) es).neighbour ip
    n.handed = Run.observe Stack.step (Stack.handsTo ip) (.new ourIp ourMac clock) es ∧
      n.handed.Perm (n.written ++ n.waiting ++ n.dropped) ∧ Neighbour.Paced n.history ∧
      (n.pending = none → Neighbour.openRequests n.history = []) := by
  intro n
  have hhanded : n.handed = _ :=
    Stack.handed_run ip (Stack.wellAddressed_new ourIp ourMac clock) es
  have hrun : n = run Neighbour.step .absent _ := Stack.neighbour_run ourIp ourMac clock es ip
  have hconserved : n.Conserved := by
    rw [hrun]
    exact Run.invariant Neighbour.Conserved (fun n e h => h.step e) Neighbour.conserved_absent _
  have hasking : n.Asking := by
    rw [hrun]
    exact Run.invariant Neighbour.Asking (fun n e h => h.step e) Neighbour.asking_absent _
  exact ⟨hhanded, hconserved, hasking.paced, hasking.idle⟩

end PpcaNetwork.TcpStack
