import PpcaNetwork.TcpStack.Lan
import PpcaNetwork.TcpStack.Outgoing

/-!
# A LAN left alone

Hosts that run this stack, whatever they have been through, when no application calls them and no
timer is polled any more.  Each frame under way still reaches each host at most once, in any order,
and makes it answer: exchanges of answers die out.

* `packetRank` — how many answers can follow one another behind a packet.
* `frameWeight` — how many arrivals a frame can lead to; `Link.held` — those of what is queued.
* `Link.Spends` — what a host writes is paid for by what it received, or had queued.
* `lan_settles` — the bound on the number of arrivals.
-/

namespace PpcaNetwork.TcpStack

/-! ## Answers to answers -/

/-- A segment that occupies sequence space may be acknowledged, any other may be reset, unless it is
a reset. -/
def segmentRank (header : TcpHeader) (payload : List UInt8) : Nat :=
  if payload = [] ∧ header.has tcpSyn = false ∧ header.has tcpFin = false then
    if header.has tcpRst then 0 else 1
  else 2

/-- The number of answers that can follow one another behind a packet. -/
def packetRank (packet : List UInt8) : Nat :=
  match parseIpv4 packet with
  | none => 0
  | some (ipHdr, ipPayload) =>
    if ipHdr.protocol = ipProtoIcmp then
      if (buildIcmpEchoReply ipPayload).isSome then 1 else 0
    else
      match receiveTcp packet with
      | none => 0
      | some a => segmentRank a.header a.payload

theorem segmentRank_le (header : TcpHeader) (payload : List UInt8) :
    segmentRank header payload ≤ 2 := by
  unfold segmentRank
  split_ifs <;> decide

theorem packetRank_le (packet : List UInt8) : packetRank packet ≤ 2 := by
  unfold packetRank
  cases parseIpv4 packet with
  | none => exact Nat.zero_le 2
  | some parsed =>
    dsimp only
    split_ifs
    · decide
    · decide
    · cases receiveTcp packet with
      | none => exact Nat.zero_le 2
      | some a => exact segmentRank_le ..

/-- An echo reply calls for nothing. -/
theorem buildIcmpEchoReply_reply {request reply : List UInt8}
    (h : buildIcmpEchoReply request = some reply) : buildIcmpEchoReply reply = none := by
  unfold buildIcmpEchoReply at h
  split at h
  · cases h
  · rename_i hlen
    dsimp only at h
    split at h
    · cases h
    · obtain rfl := Option.some.inj h
      match request, hlen with
      | b0 :: b1 :: b2 :: b3 :: rest, hlen =>
        simp only [List.set_cons_zero, List.set_cons_succ]
        generalize checksum _ = cs
        have hlength : (octets16 0).length = (octets16 cs).length := rfl
        have hfill : copyAt ([icmpEchoReply, b1] ++ octets16 0 ++ rest) 2 (octets16 cs) =
            [icmpEchoReply, b1] ++ octets16 cs ++ rest :=
          copyAt_eq [icmpEchoReply, b1] rest rfl hlength
        have hzeros : icmpEchoReply :: b1 :: 0 :: 0 :: rest =
            [icmpEchoReply, b1] ++ octets16 0 ++ rest := rfl
        rw [hzeros, hfill, buildIcmpEchoReply]
        split
        · rfl
        · rw [if_pos]
          exact of_decide_eq_true rfl
      | [], hlen => simp [icmpHdrSize] at hlen
      | [_], hlen => simp [icmpHdrSize] at hlen
      | [_, _], hlen => simp [icmpHdrSize] at hlen
      | [_, _, _], hlen => simp [icmpHdrSize] at hlen

theorem packetRank_echoReply (src dst : Ipv4Addr) (ttl : UInt8) {request reply : List UInt8}
    (h : buildIcmpEchoReply request = some reply) :
    packetRank (buildIpv4 src dst ipProtoIcmp ttl reply) = 0 := by
  simp only [packetRank, parseIpv4_buildIpv4, if_true, buildIcmpEchoReply_reply h]
  rfl

/-- The rank of a packet without data is that of its flags. -/
theorem packetRank_bytes (ourIp : Ipv4Addr) {p : TcpPacket} (hpayload : p.segment.payload = []) :
    ∃ header : TcpHeader, header.flags = p.segment.flags ∧
      packetRank (p.bytes ourIp) = segmentRank header [] := by
  obtain ⟨header, hreceive, -, -, -, -, hflags, -⟩ :=
    receiveTcp_bytes (p := p) ourIp (by rw [hpayload]; exact Nat.zero_le _)
  obtain ⟨ipHdr, hparse, -, hproto, -, -⟩ := p.parseIpv4_bytes ourIp
  refine ⟨header, hflags, ?_⟩
  have hnot : ¬ ipHdr.protocol = ipProtoIcmp := by
    rw [hproto]
    decide
  simp only [packetRank, hparse, if_neg hnot, hreceive, hpayload]

/-- A bare acknowledgement has rank 1 at most. -/
theorem packetRank_bare (ourIp : Ipv4Addr) {p : TcpPacket} (h : p.segment.Bare) :
    packetRank (p.bytes ourIp) ≤ 1 := by
  obtain ⟨header, hflags, hrank⟩ := packetRank_bytes ourIp h.payload
  have hsyn : header.has tcpSyn = false := by
    rw [TcpHeader.has, hflags, h.syn]
    rfl
  have hfin : header.has tcpFin = false := by
    rw [TcpHeader.has, hflags, h.fin]
    rfl
  rw [hrank, segmentRank, if_pos ⟨rfl, hsyn, hfin⟩]
  split_ifs <;> decide

/-- The reset of a stray segment has rank 0. -/
theorem packetRank_strayReset (ourIp : Ipv4Addr) {p : TcpPacket} {header : TcpHeader}
    {payload : List UInt8} (h : p.segment = TcpManager.strayReset header payload) :
    packetRank (p.bytes ourIp) = 0 := by
  obtain ⟨header', hflags, hrank⟩ := packetRank_bytes ourIp (p := p) (by rw [h]; rfl)
  have hflags' : header'.flags = tcpRst ||| tcpAck := by
    rw [hflags, h]
    rfl
  rw [hrank, segmentRank, TcpHeader.has, TcpHeader.has, TcpHeader.has, hflags']
  decide

/-! ## The answer to a segment -/

namespace Tcb

/-- A segment gets one bare acknowledgement, if it occupies sequence space, or none. -/
theorem answer_processExistingTcb {t : Tcb} (hst : t.state ≠ .synReceived) (header : TcpHeader)
    (payload : List UInt8) (now : Instant) :
    (t.processExistingTcb header payload now).2 = [] ∨
      ∃ seg, (t.processExistingTcb header payload now).2 = [seg] ∧ seg.Bare ∧
        segmentRank header payload = 2 := by
  have hack : ∀ t' : Tcb, t'.ackSegment.Bare := fun t' => bare_of_ack rfl rfl
  have hdata : 0 < segLen payload → segmentRank header payload = 2 := by
    intro hpos
    refine if_neg fun hquiet => ?_
    rw [hquiet.1] at hpos
    exact absurd hpos (by decide)
  have hfin : header.has tcpFin = true → segmentRank header payload = 2 := by
    intro hfin
    refine if_neg fun hquiet => ?_
    rw [hquiet.2.2] at hfin
    cases hfin
  have hsyn : header.has tcpSyn = true → segmentRank header payload = 2 := by
    intro hsyn
    refine if_neg fun hquiet => ?_
    rw [hquiet.2.1] at hsyn
    cases hsyn
  unfold processExistingTcb
  cases hs : t.state with
  | synReceived => exact absurd hs hst
  | established =>
    simp only [processEstablished]
    by_cases hocc : header.Occupies payload ∧ header.seq = (t.processAck header).rcvNxt
    · rw [processData_accepted hocc.1 hocc.2]
      refine .inr ⟨_, rfl, hack _, ?_⟩
      rcases hocc.1 with hpos | hflag | hflag
      · exact hdata hpos
      · exact hsyn hflag
      · exact hfin hflag
    · rw [processData_ignored hocc]
      exact .inl rfl
  | closeWait =>
    simp only [processCloseWait]
    split_ifs with hnext
    · exact .inr ⟨_, rfl, hack _, hdata hnext.1⟩
    · exact .inl rfl
  | finWait1 =>
    simp only [processFinWait1]
    split_ifs with _ _ hflag hflag
    · exact .inr ⟨_, rfl, hack _, hfin hflag⟩
    · exact .inl rfl
    · exact .inl rfl
    · exact .inr ⟨_, rfl, hack _, hfin hflag⟩
    · exact .inl rfl
  | finWait2 =>
    simp only [processFinWait2]
    split_ifs with hnext
    · exact .inr ⟨_, rfl, hack _, hfin hnext.1⟩
    · exact .inl rfl
  | synSent =>
    simp only [processSynSent]
    split_ifs with hflags
    · exact .inr ⟨_, rfl, hack _, hsyn (TcpHeader.has_syn_of_synAck hflags)⟩
    · exact .inl rfl
    · exact .inl rfl
    · exact .inl rfl
  | lastAck =>
    simp only [processLastAck]
    split_ifs <;> exact .inl rfl
  | closing =>
    simp only [processClosing]
    split_ifs <;> exact .inl rfl
  | closed => exact .inl rfl
  | listen => exact .inl rfl
  | timeWait => exact .inl rfl

end Tcb

/-- The hosts get here. -/
def Stack.Reachable (s : Stack) : Prop :=
  ∃ ourIp ourMac clock es, s = run Stack.step (.new ourIp ourMac clock) es

namespace Stack

variable {s : Stack}

theorem Reachable.step (h : s.Reachable) (e : StackEvent) : (s.step e).Reachable := by
  obtain ⟨ourIp, ourMac, clock, es, rfl⟩ := h
  refine ⟨ourIp, ourMac, clock, es ++ [e], ?_⟩
  rw [Run.run_append]
  rfl

/-- No host waits for the end of a passive open. -/
theorem Reachable.not_synReceived (h : s.Reachable) {k : ConnKey} {t : Tcb}
    (ht : s.tcp.get k = some t) : t.state ≠ .synReceived := by
  obtain ⟨ourIp, ourMac, clock, es, rfl⟩ := h
  have hcore := core_run (.new ourIp ourMac clock) (Clock.read_time clock).ge es
  have hnew : (Stack.new ourIp ourMac clock).core = .new ourIp clock.read.1 := rfl
  have ht' : (TcpCore.history k (.new ourIp clock.read.1)
      (Run.observe Stack.step Stack.coreEvents (.new ourIp ourMac clock) es)).tcb = some t := by
    rw [TcpCore.history_tcb, ← hnew, ← hcore]
    exact ht
  intro hst
  have hinv := Conn.sendInv_history k (.new ourIp clock.read.1) _ t ht'
  simp [Tcb.SendInv, hst] at hinv

/-- The packets that answer a segment: one at most, of lower rank. -/
theorem Reachable.replies (h : s.Reachable) (remoteIp : Ipv4Addr) (header : TcpHeader)
    (payload : List UInt8) :
    s.core.replies remoteIp header payload = [] ∨
      ∃ p, s.core.replies remoteIp header payload = [p] ∧
        packetRank (p.bytes s.ourIp) < segmentRank header payload := by
  have hone : ∀ (c : TcpCore) key (seg : OutgoingSegment), ∃ p : TcpPacket,
      c.packets key remoteIp [seg] = [p] ∧ p.segment = seg := fun c key seg => ⟨_, rfl, rfl⟩
  unfold TcpCore.replies
  cases ht : s.tcp.get (TcpManager.segmentKey s.ourIp remoteIp header) with
  | none =>
    have hprocess := TcpManager.process_of_get_none ht payload s.now
    simp only [core, hprocess]
    by_cases hrst : header.has tcpRst = true
    · rw [if_pos hrst]
      exact .inl rfl
    · rw [if_neg hrst]
      obtain ⟨p, hp, hseg⟩ := hone ⟨s.tcp, s.ourIp, s.now⟩ none
        (TcpManager.strayReset header payload)
      refine .inr ⟨p, hp, ?_⟩
      rw [packetRank_strayReset s.ourIp hseg, segmentRank, if_neg hrst]
      split_ifs <;> decide
  | some t =>
    obtain ⟨-, hout⟩ := TcpManager.process_of_get ht payload s.now
    simp only [core, hout]
    rcases Tcb.answer_processExistingTcb (h.not_synReceived ht) header payload s.now with
      hnone | ⟨seg, hsegs, hbare, hrank⟩
    · rw [hnone]
      exact .inl rfl
    · rw [hsegs]
      obtain ⟨p, hp, hseg⟩ := hone ⟨(s.tcp.process s.ourIp remoteIp header payload s.now).1,
        s.ourIp, s.now⟩ (some (TcpManager.segmentKey s.ourIp remoteIp header)) seg
      refine .inr ⟨p, hp, ?_⟩
      rw [hrank]
      exact Nat.lt_succ_of_le (packetRank_bare s.ourIp (hseg ▸ hbare))

end Stack

/-! ## What it costs -/

/-- The arrivals that the answer to a packet of this rank can lead to, among `n` hosts: that of the
packet and that of a question for the address that it goes to, and what comes of them. -/
def answerCost (n : Nat) : Nat → Nat
  | 0 => 0
  | rank + 1 => n * (1 + answerCost n rank) + n * (1 + n)

theorem answerCost_mono (n : Nat) : Monotone (answerCost n) := by
  refine monotone_nat_of_le_succ fun rank => ?_
  induction rank with
  | zero => exact Nat.zero_le _
  | succ rank ih =>
    rw [answerCost, answerCost]
    exact Nat.add_le_add_right (Nat.mul_le_mul_left n (Nat.add_le_add_left ih 1)) _

/-- The arrivals that a packet handed to `send_frame` can lead to. -/
def sendCost (n : Nat) (packet : List UInt8) : Nat := answerCost n (packetRank packet + 1)

/-- The arrivals that a frame with ARP's type can lead to, beyond its own. -/
def arpCost (n : Nat) (payload : List UInt8) : Nat :=
  if (parseArp payload).any fun pkt => pkt.oper = arpOpRequest then n else 0

/-- The arrivals that a frame can lead to, with its own. -/
def frameWeight (n : Nat) (frame : List UInt8) : Nat :=
  match parseFrame frame with
  | none => 1
  | some (header, payload) =>
    if header.ethertype = ethTypeArp then 1 + arpCost n payload
    else if header.ethertype = ethTypeIpv4 then 1 + answerCost n (packetRank payload)
    else 1

theorem frameWeight_ipv4 (n : Nat) (dst src : MacAddr) (packet : List UInt8) :
    frameWeight n (buildFrame dst src ethTypeIpv4 packet) =
      1 + answerCost n (packetRank packet) := by
  have hnot : ¬ ethTypeIpv4 = ethTypeArp := by decide
  simp only [frameWeight, parseFrame_buildFrame, if_neg hnot, if_true]

theorem frameWeight_arp (n : Nat) (dst src : MacAddr) (htype ptype : UInt16) (hlen plen : UInt8)
    (oper : UInt16) (sha : MacAddr) (spa : Ipv4Addr) (tha : MacAddr) (tpa : Ipv4Addr) :
    frameWeight n (buildFrame dst src ethTypeArp
        (buildArp htype ptype hlen plen oper sha spa tha tpa)) =
      1 + if oper = arpOpRequest then n else 0 := by
  simp only [frameWeight, arpCost, parseFrame_buildFrame, parseArp_buildArp, if_true,
    Option.any_some, decide_eq_true_eq]

namespace Link

/-- The arrivals that what is queued can lead to. -/
def held (n : Nat) (l : Link) : Nat :=
  Table.total (fun entry => (entry.packets.map fun packet =>
    n * (1 + answerCost n (packetRank packet))).sum) l.arp.pending

/-- From one state to another, no more than `cost` is added to what is queued and to the frames that
are written, each of which goes to all `n` hosts. -/
def Spends (n cost : Nat) (l l' : Link) : Prop :=
  ∃ new, l'.frames = l.frames ++ new ∧
    l'.held n + n * (new.map (frameWeight n)).sum ≤ l.held n + cost

variable {n cost cost' : Nat} {l l' l'' : Link}

theorem Spends.trans (h : Spends n cost l l') (h' : Spends n cost' l' l'') :
    Spends n (cost + cost') l l'' := by
  obtain ⟨new, hframes, hspent⟩ := h
  obtain ⟨new', hframes', hspent'⟩ := h'
  refine ⟨new ++ new', by rw [hframes', hframes, List.append_assoc], ?_⟩
  rw [List.map_append, List.sum_append, Nat.mul_add]
  omega

theorem Spends.mono (h : Spends n cost l l') (hle : cost ≤ cost') : Spends n cost' l l' := by
  obtain ⟨new, hframes, hspent⟩ := h
  exact ⟨new, hframes, by omega⟩

/-- Nothing is written. -/
theorem Spends.of_held (hframes : l'.frames = l.frames) (hheld : l'.held n ≤ l.held n + cost) :
    Spends n cost l l' :=
  ⟨[], by rw [hframes, List.append_nil], by simpa using hheld⟩

theorem spends_writeFrame (l : Link) (frame : List UInt8) :
    Spends n (n * frameWeight n frame) l (l.writeFrame frame) := by
  refine ⟨[frame], l.frames_writeFrame frame, ?_⟩
  rw [List.map_singleton, List.sum_singleton]
  exact Nat.le_refl _

theorem spends_learn (l : Link) (ip : Ipv4Addr) (mac : MacAddr) :
    Spends n 0 l (l.learn ip mac) := by
  refine .of_held rfl ?_
  have hpending : (l.learn ip mac).arp.pending = l.arp.pending := by
    simp only [learn, ArpCache.learn]
    split_ifs <;> rfl
  simp only [held, hpending]
  exact Nat.le_refl _

/-- To record a request leaves the packets where they are. -/
theorem held_recordRequest (l : Link) (ip : Ipv4Addr) :
    held n { l with arp := l.arp.recordRequest ip l.now } = l.held n := by
  unfold held ArpCache.recordRequest
  dsimp only
  cases hlookup : l.arp.pending.lookup ip with
  | none =>
    have hinsert := Table.total_insert (fun entry : PendingEntry => (entry.packets.map fun packet =>
      n * (1 + answerCost n (packetRank packet))).sum) ip ⟨[], l.now, 1⟩ l.arp.pending
    rw [hlookup] at hinsert
    simpa using hinsert
  | some entry =>
    have hinsert := Table.total_insert (fun entry : PendingEntry => (entry.packets.map fun packet =>
      n * (1 + answerCost n (packetRank packet))).sum) ip
        { entry with lastRequest := l.now, retries := entry.retries + 1 } l.arp.pending
    rw [hlookup] at hinsert
    simpa using hinsert

theorem spends_request (l : Link) (ip : Ipv4Addr) : Spends n (n * (1 + n)) l (l.request ip) := by
  have hweight : frameWeight n (l.requestFrame ip) = 1 + n := by
    rw [requestFrame, buildArpRequest, frameWeight_arp, if_pos rfl]
  have hwrite := l.spends_writeFrame (n := n) (l.requestFrame ip)
  rw [hweight] at hwrite
  have hrecord : Spends n 0 (l.writeFrame (l.requestFrame ip)) (l.request ip) :=
    .of_held rfl (held_recordRequest (l.writeFrame (l.requestFrame ip)) ip).le
  exact hwrite.trans hrecord

theorem held_queuePacket (l : Link) (ip : Ipv4Addr) (packet : List UInt8) :
    held n { l with arp := (l.arp.queuePacket ip packet l.now).1 } =
      l.held n + n * (1 + answerCost n (packetRank packet)) := by
  have hinsert := Table.total_insert (fun entry : PendingEntry => (entry.packets.map fun packet =>
    n * (1 + answerCost n (packetRank packet))).sum) ip
      { (l.arp.pending.lookup ip).getD ⟨[], l.now, 0⟩ with
        packets := ((l.arp.pending.lookup ip).getD ⟨[], l.now, 0⟩).packets ++ [packet] }
      l.arp.pending
  unfold held ArpCache.queuePacket
  dsimp only at hinsert ⊢
  cases hlookup : l.arp.pending.lookup ip with
  | none =>
    rw [hlookup] at hinsert
    simpa using hinsert
  | some entry =>
    rw [hlookup] at hinsert
    simp only [Option.map_some, Option.getD_some, List.map_append, List.sum_append,
      List.map_singleton, List.sum_singleton] at hinsert ⊢
    omega

theorem spends_enqueue (l : Link) (dstIp : Ipv4Addr) (packet : List UInt8) :
    Spends n (sendCost n packet) l (l.enqueue dstIp packet) := by
  have hqueue : Spends n (n * (1 + answerCost n (packetRank packet))) l
      { l with arp := (l.arp.queuePacket dstIp packet l.now).1 } :=
    .of_held rfl (l.held_queuePacket dstIp packet).le
  simp only [enqueue, sendCost, answerCost]
  split
  · exact hqueue.trans (spends_request _ dstIp)
  · exact hqueue.mono (Nat.le_add_right _ _)

theorem spends_transmit (l : Link) (dstIp : Ipv4Addr) (packet : List UInt8) :
    Spends n (sendCost n packet) l (l.transmit dstIp packet) := by
  have hlooked : Spends n 0 l (l.lookedUp dstIp packet) :=
    .of_held (l.frames_note (.handed dstIp packet) (by rintro _ ⟨⟩)) (Nat.le_refl _)
  rw [← Nat.zero_add (sendCost n packet)]
  cases hlookup : (l.arp.lookup dstIp l.clock).1 with
  | none =>
    rw [transmit_of_none hlookup]
    exact hlooked.trans (spends_enqueue _ dstIp packet)
  | some mac =>
    rw [transmit_of_some hlookup]
    refine hlooked.trans ((spends_writeFrame _ _).mono ?_)
    rw [ipv4Frame, frameWeight_ipv4, sendCost, answerCost]
    exact Nat.le_add_right _ _

theorem frames_sendQueued (l : Link) (mac : MacAddr) (queued : List (List UInt8)) :
    (l.sendQueued mac queued).frames = l.frames ++ queued.map (l.ipv4Frame mac) ∧
      (l.sendQueued mac queued).arp = l.arp := by
  induction queued generalizing l with
  | nil => exact ⟨(List.append_nil _).symm, rfl⟩
  | cons packet queued ih =>
    obtain ⟨hframes, harp⟩ := ih (l.writeFrame (l.ipv4Frame mac packet))
    rw [frames_writeFrame, List.append_assoc] at hframes
    exact ⟨hframes, harp⟩

/-- What was queued is written: it has been paid for. -/
theorem spends_resolve (l : Link) (ip : Ipv4Addr) (mac : MacAddr) :
    Spends n 0 l (l.resolve ip mac) := by
  obtain ⟨hframes, harp⟩ := frames_sendQueued
    (({ l with arp := (l.arp.insert ip mac l.clock).1
               clock := (l.arp.insert ip mac l.clock).2.2 } : Link).note (.resolved ip)) mac
    (l.waiting ip)
  rw [frames_note _ _ (by rintro _ ⟨⟩)] at hframes
  have hweights : ∀ queued : List (List UInt8),
      n * ((queued.map (l.ipv4Frame mac)).map (frameWeight n)).sum =
        (queued.map fun packet => n * (1 + answerCost n (packetRank packet))).sum := by
    intro queued
    induction queued with
    | nil => rfl
    | cons packet queued ih =>
      simp only [List.map_cons, List.sum_cons, Nat.mul_add, ih, ipv4Frame, frameWeight_ipv4]
  refine ⟨_, hframes, ?_⟩
  have herase := Table.total_erase (fun entry : PendingEntry => (entry.packets.map fun packet =>
    n * (1 + answerCost n (packetRank packet))).sum) ip l.arp.pending
  have hheld : (l.resolve ip mac).held n = Table.total (fun entry : PendingEntry =>
      (entry.packets.map fun packet => n * (1 + answerCost n (packetRank packet))).sum)
        (l.arp.pending.erase ip) := congrArg _ (congrArg ArpCache.pending harp)
  have hqueued : ((l.arp.pending.lookup ip).map fun entry : PendingEntry =>
      (entry.packets.map fun packet => n * (1 + answerCost n (packetRank packet))).sum).getD 0 =
        n * (((l.waiting ip).map (l.ipv4Frame mac)).map (frameWeight n)).sum := by
    rw [hweights, waiting]
    cases l.arp.pending.lookup ip <;> rfl
  rw [hqueued] at herase
  rw [hheld, Nat.add_zero]
  exact herase.le

theorem spends_handleArp (l : Link) (payload : List UInt8) :
    Spends n (arpCost n payload) l (l.handleArp payload) := by
  unfold handleArp arpCost
  cases parseArp payload with
  | none => exact .of_held rfl (Nat.le_add_right _ _)
  | some pkt =>
    have hlearn := l.spends_learn (n := n) pkt.spa pkt.sha
    simp only [Option.any_some, decide_eq_true_eq]
    by_cases hasked : pkt.oper = arpOpRequest ∧ pkt.tpa = (l.learn pkt.spa pkt.sha).ourIp
    · rw [if_pos hasked, if_pos hasked.1]
      refine (hlearn.trans (spends_writeFrame _ _)).mono ?_
      rw [buildArpReply, frameWeight_arp, if_neg (by decide)]
      simp
    · rw [if_neg hasked]
      refine Spends.mono ?_ (Nat.zero_le _)
      split_ifs
      · exact hlearn.trans (spends_resolve _ _ _)
      · exact hlearn

end Link

/-! ## A frame at a host -/

namespace Stack

/-- What the host writes when a frame arrives. -/
def written (s : Stack) (frame : List UInt8) : List (List UInt8) :=
  (s.step (.frame frame)).frames.drop s.frames.length

variable {s : Stack} {n : Nat}

/-- An IPv4 packet pays for its answer. -/
theorem Reachable.spends_ipv4 (h : s.Reachable) (header : EthernetHdr) (payload : List UInt8) :
    Link.Spends n (answerCost n (packetRank payload)) s.toLink
      (run Link.step s.toLink (s.ipv4Events header payload)) := by
  unfold ipv4Events packetRank
  cases parseIpv4 payload with
  | none => exact .of_held rfl (Nat.le_add_right _ _)
  | some parsed =>
    obtain ⟨ipHdr, ipPayload⟩ := parsed
    have hlearn := s.toLink.spends_learn (n := n) ipHdr.src header.src
    dsimp only
    rw [Run.run_cons]
    by_cases hicmp : ipHdr.protocol = ipProtoIcmp
    · rw [if_pos hicmp, if_pos hicmp]
      cases hreply : buildIcmpEchoReply ipPayload with
      | none => exact hlearn.mono (Nat.zero_le _)
      | some reply =>
        have hsend := (s.toLink.learn ipHdr.src header.src).spends_transmit (n := n) ipHdr.src
          (buildIpv4 s.ourIp ipHdr.src ipProtoIcmp 64 reply)
        rw [sendCost, packetRank_echoReply _ _ _ hreply] at hsend
        exact (hlearn.trans hsend).mono (Nat.zero_add _).le
    · rw [if_neg hicmp, if_neg hicmp]
      cases receiveTcp payload with
      | none => exact hlearn.mono (Nat.zero_le _)
      | some a =>
        rw [Option.toList_some, List.flatMap_singleton]
        dsimp only
        rcases h.replies a.remoteIp a.header a.payload with hnone | ⟨p, hp, hrank⟩
        · rw [hnone]
          exact hlearn.mono (Nat.zero_le _)
        · rw [hp]
          have hsend := (s.toLink.learn ipHdr.src header.src).spends_transmit (n := n) p.dstIp
            (p.bytes s.ourIp)
          refine (hlearn.trans hsend).mono ?_
          rw [Nat.zero_add]
          exact answerCost_mono n hrank

/-- An arrival pays for itself and for what comes of it. -/
theorem Reachable.spends (h : s.Reachable) (n : Nat) (frame : List UInt8) :
    ∃ cost, cost + 1 = frameWeight n frame ∧
      Link.Spends n cost s.toLink (s.step (.frame frame)).toLink := by
  rw [link_step]
  simp only [linkEvents, frameWeight]
  cases parseFrame frame with
  | none => exact ⟨0, rfl, .of_held rfl (Nat.le_refl _)⟩
  | some parsed =>
    obtain ⟨header, payload⟩ := parsed
    dsimp only
    split_ifs
    · exact ⟨arpCost n payload, Nat.add_comm _ _, s.toLink.spends_handleArp payload⟩
    · exact ⟨answerCost n (packetRank payload), Nat.add_comm _ _, h.spends_ipv4 header payload⟩
    · exact ⟨0, rfl, .of_held rfl (Nat.le_refl _)⟩

/-- What is queued at the host. -/
def queued (s : Stack) : Nat := Table.total (fun entry => entry.packets.length) s.arp.pending

/-- A queued packet costs what the answer to a frame of the highest rank may. -/
theorem held_le (s : Stack) (n : Nat) : s.toLink.held n ≤ n * (1 + answerCost n 2) * s.queued := by
  have hone : ∀ packets : List (List UInt8),
      (packets.map fun packet => n * (1 + answerCost n (packetRank packet))).sum ≤
        n * (1 + answerCost n 2) * packets.length := by
    intro packets
    rw [Nat.mul_comm, ← smul_eq_mul, ← List.length_map (f := fun packet =>
      n * (1 + answerCost n (packetRank packet)))]
    refine List.sum_le_card_nsmul _ _ fun cost hcost => ?_
    obtain ⟨packet, -, rfl⟩ := List.mem_map.mp hcost
    exact Nat.mul_le_mul_left n
      (Nat.add_le_add_left (answerCost_mono n (packetRank_le packet)) 1)
  unfold Link.held queued Table.total
  rw [← List.sum_map_mul_left]
  exact List.sum_le_sum fun entry _ => hone entry.2.packets

end Stack

theorem frameWeight_le (n : Nat) (frame : List UInt8) :
    frameWeight n frame ≤ 1 + answerCost n 2 := by
  have hone : n ≤ answerCost n 2 := by
    refine le_trans ?_ (answerCost_mono n (by decide : 1 ≤ 2))
    simp [answerCost]
  unfold frameWeight arpCost
  cases parseFrame frame with
  | none => exact Nat.le_add_right _ _
  | some parsed =>
    dsimp only
    split_ifs
    · omega
    · omega
    · exact Nat.add_le_add_left (answerCost_mono n (packetRank_le _)) 1
    · omega

theorem answerCost_two (n : Nat) : 1 + answerCost n 2 = 1 + 2 * n + 3 * n ^ 2 + n ^ 3 := by
  simp only [answerCost]
  ring

/-- **Nothing goes on for ever.**  Among `n` hosts that run this stack, in any states that they can
get into, with any frames under way, at most `1 + 2n + 3n² + n³` arrivals follow for each frame
under way and for each of `n` copies of a queued packet, when no application calls and no timer is
polled: whatever the frames contain and in whatever order they arrive. -/
theorem lan_settles {ι : Type} [Fintype ι] [DecidableEq ι]
    (w : Network.Traffic ι Stack (List UInt8)) (h : ∀ i, (w.parties i).Reachable)
    (ds : List (ι × List UInt8))
    (hds : Run.Guarded
      (Network.Traffic.deliver (fun s frame => s.step (.frame frame)) Stack.written)
      Network.Traffic.Arrives w ds) :
    let n := Fintype.card ι
    ds.length ≤ (1 + 2 * n + 3 * n ^ 2 + n ^ 3) *
      (w.inFlight.card + n * ∑ i, (w.parties i).queued) := by
  intro n
  have hsettles : ds.length ≤
      w.potential (fun s => s.toLink.held n) (frameWeight n) := by
    refine Network.Traffic.length_le (I := fun _ s => s.Reachable) (fun _ s frame hs => ?_) h hds
    obtain ⟨cost, hcost, new, hframes, hspent⟩ := hs.spends n frame
    have hnew : s.written frame = new := by
      rw [Stack.written, hframes, List.drop_left' rfl]
    have hless : (s.step (.frame frame)).toLink.held n + n * (new.map (frameWeight n)).sum + 1 ≤
        s.toLink.held n + frameWeight n frame := by omega
    refine ⟨hs.step _, ?_⟩
    rw [hnew]
    exact hless
  have hqueued : ∑ i, (w.parties i).toLink.held n ≤
      (1 + answerCost n 2) * (n * ∑ i, (w.parties i).queued) := by
    rw [← Nat.mul_assoc, Nat.mul_comm (1 + answerCost n 2) n, Finset.mul_sum]
    exact Finset.sum_le_sum fun i _ => (w.parties i).held_le n
  have hflight : (w.inFlight.map fun d => frameWeight n d.2).sum ≤
      (1 + answerCost n 2) * w.inFlight.card := by
    rw [Nat.mul_comm, ← smul_eq_mul, ← Multiset.card_map (fun d => frameWeight n d.2)]
    refine Multiset.sum_le_card_nsmul _ _ fun weight hweight => ?_
    obtain ⟨d, -, rfl⟩ := Multiset.mem_map.mp hweight
    exact frameWeight_le n d.2
  calc ds.length ≤ (1 + answerCost n 2) * (n * ∑ i, (w.parties i).queued) +
        (1 + answerCost n 2) * w.inFlight.card :=
        hsettles.trans (Nat.add_le_add hqueued hflight)
    _ = (1 + 2 * n + 3 * n ^ 2 + n ^ 3) *
        (w.inFlight.card + n * ∑ i, (w.parties i).queued) := by
        rw [answerCost_two, ← Nat.mul_add, Nat.add_comm (Multiset.card _)]

/-- The reply of the demo's second host. -/
def demoReplyFrame : List UInt8 :=
  buildFrame demoMac demoPeerMac ethTypeArp
    (buildArpReply demoPeerMac demoKey.remoteIp demoMac demoKey.localIp)

/-- The SYN that has waited for it. -/
def demoSynFrame : List UInt8 :=
  buildFrame demoPeerMac demoMac ethTypeIpv4
    (TcpPacket.bytes demoKey.localIp ⟨demoKey.localPort, demoKey.remoteIp,
      ⟨tcpSyn, 1000, 0, [], demoKey.remotePort⟩⟩)

/-- The demo's hosts, with the reply under way. -/
def demoTraffic : Network.Traffic Bool Stack (List UInt8) where
  parties host := if host then demoLan .left else demoLan .right
  inFlight := {(true, demoReplyFrame)}

/-- The reply lets the SYN go, which arrives at the second host. -/
theorem demo_lan_settles :
    [(true, demoReplyFrame), (false, demoSynFrame)].length ≤ (1 + 2 * 2 + 3 * 2 ^ 2 + 2 ^ 3) *
      (demoTraffic.inFlight.card + 2 * ∑ host, (demoTraffic.parties host).queued) := by
  refine lan_settles demoTraffic (fun host => ?_) _ ⟨?_, ?_, trivial⟩
  · cases host with
    | true => exact ⟨_, _, _, _, Network.run_apply ..⟩
    | false => exact ⟨_, _, _, _, Network.run_apply ..⟩
  · exact Multiset.mem_singleton_self _
  · have hwritten : Stack.written (demoLan .left) demoReplyFrame = [demoSynFrame] := rfl
    refine Multiset.mem_add.mpr (.inr (Network.Traffic.mem_copies.mpr ?_))
    exact hwritten ▸ List.mem_singleton_self demoSynFrame

end PpcaNetwork.TcpStack
