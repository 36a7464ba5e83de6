import PpcaNetwork.TcpStack.Link
import PpcaNetwork.TcpStack.Packets

/-!
# The whole stack

`TcpStack` of `TCP-stack/src/stack.rs`: the link and the connections together, from the
frames that `poll` reads to those it writes.

* `Stack.step` — one call of the application, the beginning of `poll`, or one of the
  frames that `poll` then reads.
* `Stack.core_run` — what the connections see of a run is a run of `TcpCore`.
* `Stack.link_run` — what the link sees of it is a run of `Link`.
-/

namespace PpcaNetwork.TcpStack

/-- The source's `TcpStack`. -/
structure Stack extends Link where
  tcp : TcpManager

/-- Something that happens to the stack. -/
inductive StackEvent where
  | connect (remoteIp : Ipv4Addr) (remotePort : UInt16) (iss : UInt32)
  | send (key : ConnKey) (data : List UInt8)
  | recv (key : ConnKey)
  | close (key : ConnKey)
  /-- `poll`, up to the loop that reads frames. -/
  | poll
  /-- `poll` reads a frame. -/
  | frame (data : List UInt8)
  deriving DecidableEq, Repr

namespace Stack

/-- `TcpStack::new`, once the interface is open. -/
def new (ourIp : Ipv4Addr) (ourMac : MacAddr) (clock : Clock) : Stack where
  arp := .new
  ourIp := ourIp
  ourMac := ourMac
  now := clock.read.1
  clock := clock.read.2
  trace := []
  tcp := .new

/-- What TCP works on. -/
def core (s : Stack) : TcpCore := ⟨s.tcp, s.ourIp, s.now⟩

/-- `send_frame`. -/
def sendFrame (s : Stack) (dstIp : Ipv4Addr) (ipPacket : List UInt8)
    (connKey : Option ConnKey) : Stack where
  tcp :=
    match connKey with
    | none => s.tcp
    | some k => s.tcp.recordSent k s.now
  toLink := s.toLink.transmit dstIp ipPacket

/-- The body of the loop of `send_segments_with_key`. -/
def sendSegment (s : Stack) (key : Option ConnKey) (dstIp : Ipv4Addr)
    (seg : OutgoingSegment) : Stack :=
  let packet : TcpPacket := { srcPort := s.core.srcPort key dstIp seg, dstIp, segment := seg }
  s.sendFrame dstIp (packet.bytes s.ourIp) key

/-- `send_segments_with_key`. -/
def sendSegmentsWithKey (s : Stack) (segs : List OutgoingSegment) (key : Option ConnKey)
    (dstIp : Ipv4Addr) : Stack :=
  segs.foldl (fun s seg => s.sendSegment key dstIp seg) s

/-- `connect`. -/
def connect (s : Stack) (remoteIp : Ipv4Addr) (remotePort : UInt16) (iss : UInt32) :
    Stack :=
  let (tcp, key, outgoing) := s.tcp.initiateConnect s.ourIp remoteIp remotePort s.now iss
  ({ s with tcp } : Stack).sendSegmentsWithKey outgoing key remoteIp

/-- `self.tcp.get(&sock.key).map(|t| t.remote_ip).unwrap_or([0; 4])`. -/
def remoteIp (tcp : TcpManager) (key : ConnKey) : Ipv4Addr :=
  ((tcp.get key).map (·.remoteIp)).getD ⟨0, 0, 0, 0⟩

/-- `send`. -/
def send (s : Stack) (key : ConnKey) (data : List UInt8) : Stack :=
  let (tcp, segs) := s.tcp.update key (·.send data) []
  ({ s with tcp } : Stack).sendSegmentsWithKey segs (some key) (remoteIp tcp key)

/-- `recv`, without what it returns. -/
def recv (s : Stack) (key : ConnKey) : Stack := { s with tcp := (s.tcp.drainData key).1 }

/-- `close`. -/
def close (s : Stack) (key : ConnKey) : Stack :=
  let (tcp, segs) := s.tcp.close key s.now
  ({ s with tcp } : Stack).sendSegmentsWithKey segs (some key) (remoteIp tcp key)

/-- The packet that `tcp_retransmit` builds. -/
def retransmitPacket (s : ConnKey × OutgoingSegment) : TcpPacket where
  srcPort := s.1.localPort
  dstIp := s.1.remoteIp
  segment := s.2

/-- `tcp_retransmit`. -/
def tcpRetransmit (s : Stack) : Stack :=
  let (tcp, retrans) := s.tcp.pollRetransmit s.now
  retrans.foldl
    (fun s r => s.sendFrame r.1.remoteIp ((retransmitPacket r).bytes s.ourIp) (some r.1))
    { s with tcp }

/-- `poll`, up to the loop that reads frames. -/
def poll (s : Stack) : Stack := ({ s with toLink := s.toLink.tick } : Stack).tcpRetransmit

/-- `handle_ipv4`. -/
def handleIpv4 (s : Stack) (header : EthernetHdr) (payload : List UInt8) : Stack :=
  match parseIpv4 payload with
  | none => s
  | some (ipHdr, ipPayload) =>
    let s : Stack := { s with toLink := s.toLink.learn ipHdr.src header.src }
    if ipHdr.protocol = ipProtoIcmp then
      match buildIcmpEchoReply ipPayload with
      | none => s
      | some reply => s.sendFrame ipHdr.src (buildIpv4 s.ourIp ipHdr.src ipProtoIcmp 64 reply) none
    else if ipHdr.protocol = ipProtoTcp then
      if verifyTcpChecksum ipHdr.src ipHdr.dst ipPayload = false then s
      else
        match parseTcp ipPayload with
        | none => s
        | some (tcpHdr, tcpData) =>
          let (tcp, key, outgoing) := s.tcp.process s.ourIp ipHdr.src tcpHdr tcpData s.now
          ({ s with tcp } : Stack).sendSegmentsWithKey outgoing key ipHdr.src
    else s

/-- `dispatch`. -/
def dispatch (s : Stack) (data : List UInt8) : Stack :=
  match parseFrame data with
  | none => s
  | some (header, payload) =>
    if header.ethertype = ethTypeArp then { s with toLink := s.toLink.handleArp payload }
    else if header.ethertype = ethTypeIpv4 then s.handleIpv4 header payload
    else s

/-- One event of the stack. -/
def step (s : Stack) : StackEvent → Stack
  | .connect remoteIp remotePort iss => s.connect remoteIp remotePort iss
  | .send key data => s.send key data
  | .recv key => s.recv key
  | .close key => s.close key
  | .poll => s.poll
  | .frame data => s.dispatch data

/-! ## What the connections see -/

theorem get_core (s : Stack) (k : ConnKey) : s.core.get k = s.tcp.get k := rfl

@[simp] theorem sendFrame_core (s : Stack) (dstIp : Ipv4Addr) (ipPacket : List UInt8)
    (key : Option ConnKey) : (s.sendFrame dstIp ipPacket key).core = s.core.sendFrame key := by
  have hsettings := s.toLink.transmit_settings dstIp ipPacket
  have hip : (s.toLink.transmit dstIp ipPacket).ourIp = s.ourIp := congrArg (·.1) hsettings
  have hnow : (s.toLink.transmit dstIp ipPacket).now = s.now := congrArg (·.2.2) hsettings
  cases key with
  | none => simp only [core, sendFrame, hip, hnow, TcpCore.sendFrame]
  | some k => simp only [core, sendFrame, hip, hnow, TcpCore.sendFrame]

theorem sendSegmentsWithKey_core (s : Stack) (segs : List OutgoingSegment)
    (key : Option ConnKey) (dstIp : Ipv4Addr) :
    (s.sendSegmentsWithKey segs key dstIp).core = s.core.sendSegments segs key := by
  induction segs generalizing s with
  | nil => rfl
  | cons seg segs ih =>
    have hhead : (s.sendSegment key dstIp seg).core = s.core.sendFrame key := s.sendFrame_core ..
    have hcons : s.sendSegmentsWithKey (seg :: segs) key dstIp =
        (s.sendSegment key dstIp seg).sendSegmentsWithKey segs key dstIp := rfl
    rw [hcons, ih, hhead]
    rfl

/-- The segment that a frame brings. -/
def receivedSegment (data : List UInt8) : Option Arrival :=
  match parseFrame data with
  | none => none
  | some (header, payload) => if header.ethertype = ethTypeIpv4 then receiveTcp payload else none

/-- What the connections see of an event. -/
def coreEvents (s : Stack) : StackEvent → List Event
  | .connect remoteIp remotePort iss => [.connect remoteIp remotePort iss]
  | .send key data => [.send key data]
  | .recv key => [.recv key]
  | .close key => [.close key]
  | .poll => [.poll (s.clock.read.1 - s.now)]
  | .frame data =>
    (receivedSegment data).toList.map fun a => .segment a.remoteIp a.header a.payload

theorem handleIpv4_core (s : Stack) (header : EthernetHdr) (payload : List UInt8) :
    (s.handleIpv4 header payload).core =
      run TcpCore.step s.core
        ((receiveTcp payload).toList.map fun a => .segment a.remoteIp a.header a.payload) := by
  unfold handleIpv4 receiveTcp
  cases parseIpv4 payload with
  | none => rfl
  | some parsed =>
    obtain ⟨ipHdr, ipPayload⟩ := parsed
    simp only
    have hlearn : ({ s with toLink := s.toLink.learn ipHdr.src header.src } : Stack).core =
        s.core := rfl
    by_cases htcp : ipHdr.protocol = ipProtoTcp
    · have hicmp : ipHdr.protocol ≠ ipProtoIcmp := by
        rw [htcp]
        decide
      rw [if_neg hicmp, if_pos htcp, if_neg (not_not.mpr htcp)]
      split_ifs
      · rfl
      · cases parseTcp ipPayload with
        | none => rfl
        | some segment => exact sendSegmentsWithKey_core ..
    · rw [if_neg htcp, if_pos htcp]
      split_ifs
      · cases buildIcmpEchoReply ipPayload with
        | none => rfl
        | some reply => exact (sendFrame_core ..).trans hlearn
      · rfl

theorem foldl_sendFrame_core (s : Stack) (retrans : List (ConnKey × OutgoingSegment)) :
    (retrans.foldl (fun s r => s.sendFrame r.1.remoteIp ((retransmitPacket r).bytes s.ourIp)
      (some r.1)) s).core = retrans.foldl (fun c r => c.sendFrame (some r.1)) s.core := by
  induction retrans generalizing s with
  | nil => rfl
  | cons r retrans ih => rw [List.foldl_cons, List.foldl_cons, ih, sendFrame_core]

theorem poll_core (s : Stack) (h : s.now ≤ s.clock.time) :
    s.poll.core = s.core.step (.poll (s.clock.read.1 - s.now)) := by
  have hnow : s.toLink.tick.now = s.clock.read.1 := s.toLink.step_now .tick
  have hip : s.toLink.tick.ourIp = s.ourIp := (s.toLink.step_addresses .tick).1
  have helapsed : s.now + (s.clock.read.1 - s.now) = s.clock.read.1 :=
    Nat.add_sub_cancel' (le_trans h s.clock.le_read)
  simp only [poll, tcpRetransmit, foldl_sendFrame_core]
  simp only [core, hnow, hip, TcpCore.step, TcpCore.poll, helapsed]

/-- One event, as the connections see it. -/
theorem core_step (s : Stack) (h : s.now ≤ s.clock.time) (e : StackEvent) :
    (s.step e).core = run TcpCore.step s.core (s.coreEvents e) := by
  cases e with
  | connect remoteIp remotePort iss => exact sendSegmentsWithKey_core ..
  | send key data => exact sendSegmentsWithKey_core ..
  | recv key => rfl
  | close key => exact sendSegmentsWithKey_core ..
  | poll => exact s.poll_core h
  | frame data =>
    simp only [step, dispatch, coreEvents, receivedSegment]
    cases parseFrame data with
    | none => rfl
    | some parsed =>
      obtain ⟨header, payload⟩ := parsed
      simp only
      by_cases hip : header.ethertype = ethTypeIpv4
      · have harp : header.ethertype ≠ ethTypeArp := by
          rw [hip]
          decide
        rw [if_neg harp, if_pos hip, if_pos hip]
        exact s.handleIpv4_core header payload
      · rw [if_neg hip, if_neg hip]
        split_ifs
        · have hsettings := s.toLink.handleArp_settings payload
          have hour : (s.toLink.handleArp payload).ourIp = s.ourIp := congrArg (·.1) hsettings
          have hnow : (s.toLink.handleArp payload).now = s.now := congrArg (·.2.2) hsettings
          simp only [core, hour, hnow]
          rfl
        · rfl

/-! ## What the link sees -/

/-- The packets, on their way to `send_frame`. -/
def packetEvents (ourIp : Ipv4Addr) (packets : List TcpPacket) : List Link.Event :=
  packets.map fun p => .transmit p.dstIp (p.bytes ourIp)

/-- What the link sees of `handle_ipv4`: an address, and at most an answer. -/
def ipv4Events (s : Stack) (header : EthernetHdr) (payload : List UInt8) : List Link.Event :=
  match parseIpv4 payload with
  | none => []
  | some (ipHdr, ipPayload) =>
    .learn ipHdr.src header.src ::
      if ipHdr.protocol = ipProtoIcmp then
        (buildIcmpEchoReply ipPayload).toList.map fun reply =>
          .transmit ipHdr.src (buildIpv4 s.ourIp ipHdr.src ipProtoIcmp 64 reply)
      else
        (receiveTcp payload).toList.flatMap fun a =>
          packetEvents s.ourIp (s.core.replies a.remoteIp a.header a.payload)

/-- What the link sees of an event. -/
def linkEvents (s : Stack) : StackEvent → List Link.Event
  | .connect remoteIp remotePort iss =>
    let (tcp, key, segs) := s.tcp.initiateConnect s.ourIp remoteIp remotePort s.now iss
    packetEvents s.ourIp (({ s.core with tcp } : TcpCore).packets key remoteIp segs)
  | .send key data => packetEvents s.ourIp (s.core.sendPackets key data)
  | .recv _ => []
  | .close key =>
    let (tcp, segs) := s.tcp.close key s.now
    packetEvents s.ourIp
      (({ s.core with tcp } : TcpCore).packets (some key) (remoteIp tcp key) segs)
  | .poll =>
    .tick :: packetEvents s.ourIp ((s.tcp.pollRetransmit s.clock.read.1).2.map retransmitPacket)
  | .frame data =>
    match parseFrame data with
    | none => []
    | some (header, payload) =>
      if header.ethertype = ethTypeArp then [.arp payload]
      else if header.ethertype = ethTypeIpv4 then s.ipv4Events header payload
      else []

theorem sendFrame_ourIp (s : Stack) (dstIp : Ipv4Addr) (ipPacket : List UInt8)
    (key : Option ConnKey) : (s.sendFrame dstIp ipPacket key).ourIp = s.ourIp :=
  congrArg (·.1) (s.toLink.transmit_settings dstIp ipPacket)

theorem sendSegmentsWithKey_link (s : Stack) (segs : List OutgoingSegment)
    (key : Option ConnKey) (dstIp : Ipv4Addr) :
    (s.sendSegmentsWithKey segs key dstIp).toLink =
      run Link.step s.toLink (packetEvents s.ourIp (s.core.packets key dstIp segs)) := by
  induction segs generalizing s with
  | nil => rfl
  | cons seg segs ih =>
    have hcore : (s.sendSegment key dstIp seg).core = s.core.sendFrame key := s.sendFrame_core ..
    have hip : (s.sendSegment key dstIp seg).ourIp = s.ourIp := s.sendFrame_ourIp ..
    have hcons : s.sendSegmentsWithKey (seg :: segs) key dstIp =
        (s.sendSegment key dstIp seg).sendSegmentsWithKey segs key dstIp := rfl
    rw [hcons, ih, hcore, hip]
    rfl

theorem foldl_sendFrame_link (s : Stack) (retrans : List (ConnKey × OutgoingSegment)) :
    (retrans.foldl (fun s r => s.sendFrame r.1.remoteIp ((retransmitPacket r).bytes s.ourIp)
      (some r.1)) s).toLink =
        run Link.step s.toLink (packetEvents s.ourIp (retrans.map retransmitPacket)) := by
  induction retrans generalizing s with
  | nil => rfl
  | cons r retrans ih =>
    rw [List.foldl_cons, ih, sendFrame_ourIp]
    rfl

theorem handleIpv4_link (s : Stack) (header : EthernetHdr) (payload : List UInt8) :
    (s.handleIpv4 header payload).toLink =
      run Link.step s.toLink (s.ipv4Events header payload) := by
  unfold handleIpv4 ipv4Events receiveTcp
  cases parseIpv4 payload with
  | none => rfl
  | some parsed =>
    obtain ⟨ipHdr, ipPayload⟩ := parsed
    simp only [Run.run_cons]
    by_cases hicmp : ipHdr.protocol = ipProtoIcmp
    · rw [if_pos hicmp, if_pos hicmp]
      cases buildIcmpEchoReply ipPayload with
      | none => rfl
      | some reply => rfl
    · rw [if_neg hicmp, if_neg hicmp]
      by_cases htcp : ipHdr.protocol = ipProtoTcp
      · rw [if_pos htcp, if_neg (not_not.mpr htcp)]
        split_ifs
        · rfl
        · cases parseTcp ipPayload with
          | none => rfl
          | some segment =>
            simp only [sendSegmentsWithKey_link, Option.map_some, Option.toList_some,
              List.flatMap_cons, List.flatMap_nil, List.append_nil]
            rfl
      · rw [if_neg htcp, if_pos htcp]
        rfl

/-- One event, as the link sees it. -/
theorem link_step (s : Stack) (e : StackEvent) :
    (s.step e).toLink = run Link.step s.toLink (s.linkEvents e) := by
  cases e with
  | connect remoteIp remotePort iss => exact sendSegmentsWithKey_link ..
  | send key data => exact sendSegmentsWithKey_link ..
  | recv key => rfl
  | close key => exact sendSegmentsWithKey_link ..
  | poll =>
    have hnow : s.toLink.tick.now = s.clock.read.1 := s.toLink.step_now .tick
    have hip : s.toLink.tick.ourIp = s.ourIp := (s.toLink.step_addresses .tick).1
    simp only [step, poll, tcpRetransmit, foldl_sendFrame_link, linkEvents, Run.run_cons, hnow, hip]
    rfl
  | frame data =>
    simp only [step, dispatch, linkEvents]
    cases parseFrame data with
    | none => rfl
    | some parsed =>
      simp only
      split_ifs
      · rfl
      · exact s.handleIpv4_link parsed.1 parsed.2
      · rfl

/-- **The link of a run.** -/
theorem link_run (s : Stack) (es : List StackEvent) :
    (run step s es).toLink =
      run Link.step s.toLink (Run.observe step linkEvents s es) :=
  Run.project toLink link_step s es

/-- The time of the last `poll` is never ahead of the clock. -/
theorem step_inTime {s : Stack} (h : s.now ≤ s.clock.time) (e : StackEvent) :
    (s.step e).now ≤ (s.step e).clock.time := by
  rw [link_step]
  exact Run.invariant (fun l : Link => l.now ≤ l.clock.time) (fun l e h => Link.step_inTime h e) h _

/-- **The connections of a run.**  They are those of a run of `TcpCore`. -/
theorem core_run (s : Stack) (h : s.now ≤ s.clock.time) (es : List StackEvent) :
    (run step s es).core = run TcpCore.step s.core (Run.observe step coreEvents s es) :=
  Run.project_of_guarded (fun s : Stack => s.now ≤ s.clock.time) (G := fun _ _ => True) core
    (fun _ e h _ => step_inTime h e) (fun s e h _ => s.core_step h e) h
    (Run.guarded_of_forall (fun _ _ _ => trivial) s)

end Stack
end PpcaNetwork.TcpStack
