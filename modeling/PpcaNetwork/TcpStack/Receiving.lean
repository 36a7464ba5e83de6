import PpcaNetwork.Lib.Exec
import PpcaNetwork.TcpStack.FullStack
import PpcaNetwork.TcpStack.GivingUp

/-!
# Receiving without a panic

`dispatch` and everything that it calls once more, now with accesses that panic when they
are out of bounds and with arithmetic that panics when it overflows.

* `Checked` — the receiving path statement by statement, as executions.
* `Checked.checksum_eq` and the lemmas after it — every function of the path returns, with
  what the total one of the same name computes.
* `Stack.InBounds` — what this takes of the stack, in every reachable state.
* `receiving_safe` — all of it, for every frame.

The length of a slice is at most `isize::MAX`, which leaves room for the header lengths
that are added to it, so `usize` arithmetic is checked where an operand comes from a packet.
An instant is checked against the last one that its representation holds.
-/

namespace PpcaNetwork.TcpStack

/-! ## The path as executions -/

namespace Checked

open Exec

/-- A number read from a packet as a `usize`, which has 32 bits at least. -/
def usize (n : Nat) : Exec Nat := fits (2 ^ 32) n

/-- The loop of `checksum` over the words, given `rounds` rounds. -/
def sumLoop (data : List UInt8) : (rounds : Nat) → (i : Nat) → (sum : UInt32) →
    Exec (Nat × UInt32)
  | 0, _, _ => .running
  | rounds + 1, i, sum =>
    if i + 1 < data.length then do
      let word := ofOctets16 (← index data i) (← index data (i + 1))
      sumLoop data rounds (i + 2) (← add32 sum word.toUInt32)
    else return (i, sum)

/-- The words and the odd byte behind them. -/
def sumWords (data : List UInt8) (rounds i : Nat) (sum : UInt32) : Exec UInt32 := do
  let (i, sum) ← sumLoop data rounds i sum
  if i < data.length then add32 sum ((← index data i).toUInt32 <<< 8) else return sum

/-- The loop of `checksum` that folds the carries, given `rounds` rounds. -/
def foldSum : (rounds : Nat) → (sum : UInt32) → Exec UInt32
  | 0, _ => .running
  | rounds + 1, sum =>
    if sum >>> 16 = 0 then return sum
    else do foldSum rounds (← add32 (sum &&& (0xFFFF : UInt32)) (sum >>> 16))

/-- `util::checksum`: a round takes two bytes of the data, or makes the sum smaller. -/
def checksum (data : List UInt8) : Exec UInt16 := do
  let sum ← sumWords data (data.length + 1) 0 0
  return ~~~ (← foldSum (sum.toNat + 1) sum).toUInt16

/-- `u16::from_be_bytes([data[i], data[i + 1]])`. -/
def u16At (data : List UInt8) (i : Nat) : Exec UInt16 := do
  return ofOctets16 (← index data i) (← index data (i + 1))

/-- `u32::from_be_bytes([data[i], data[i + 1], data[i + 2], data[i + 3]])`. -/
def u32At (data : List UInt8) (i : Nat) : Exec UInt32 := do
  return ofOctets32 (← index data i) (← index data (i + 1)) (← index data (i + 2))
    (← index data (i + 3))

/-- `mac.copy_from_slice(&data[i..j])`. -/
def macAt (data : List UInt8) (i j : Nat) : Exec MacAddr := do
  match ← slice data i j with
  | [a, b, c, d, e, f] => return ⟨a, b, c, d, e, f⟩
  | _ => .panics

/-- `ip.copy_from_slice(&data[i..j])`. -/
def ipAt (data : List UInt8) (i j : Nat) : Exec Ipv4Addr := do
  match ← slice data i j with
  | [a, b, c, d] => return ⟨a, b, c, d⟩
  | _ => .panics

/-- `parse_frame`. -/
def parseFrame (data : List UInt8) : Exec (Option (EthernetHdr × List UInt8)) :=
  if data.length < ethHdrLen then return none
  else do
    let dst ← macAt data 0 6
    let src ← macAt data 6 12
    let ethertype ← u16At data 12
    return some ({ dst, src, ethertype }, ← sliceFrom data ethHdrLen)

/-- `parse_arp`. -/
def parseArp (data : List UInt8) : Exec (Option ArpPacket) :=
  if data.length < arpPktLen then return none
  else do
    let sha ← macAt data 8 14
    let spa ← ipAt data 14 18
    let tha ← macAt data 18 24
    let tpa ← ipAt data 24 28
    return some {
      htype := ← u16At data 0
      ptype := ← u16At data 2
      hlen := ← index data 4
      plen := ← index data 5
      oper := ← u16At data 6
      sha, spa, tha, tpa }

/-- `build_arp`: a packet of zeros, filled in field by field. -/
def buildArp (htype ptype : UInt16) (hlen plen : UInt8) (oper : UInt16) (sha : MacAddr)
    (spa : Ipv4Addr) (tha : MacAddr) (tpa : Ipv4Addr) : Exec (List UInt8) := do
  let buf := List.replicate arpPktLen 0
  let buf ← copyInto buf 0 2 (octets16 htype)
  let buf ← copyInto buf 2 4 (octets16 ptype)
  let buf ← set buf 4 hlen
  let buf ← set buf 5 plen
  let buf ← copyInto buf 6 8 (octets16 oper)
  let buf ← copyInto buf 8 14 (macOctets sha)
  let buf ← copyInto buf 14 18 (ipOctets spa)
  let buf ← copyInto buf 18 24 (macOctets tha)
  copyInto buf 24 28 (ipOctets tpa)

/-- `build_arp_reply`. -/
def buildArpReply (sha : MacAddr) (spa : Ipv4Addr) (tha : MacAddr) (tpa : Ipv4Addr) :
    Exec (List UInt8) :=
  buildArp arpHtypeEther arpPtypeIpv4 arpHlenEther arpPlenIpv4 arpOpReply sha spa tha tpa

/-- `build_arp_request`. -/
def buildArpRequest (sha : MacAddr) (spa tpa : Ipv4Addr) : Exec (List UInt8) :=
  buildArp arpHtypeEther arpPtypeIpv4 arpHlenEther arpPlenIpv4 arpOpRequest sha spa
    ⟨0, 0, 0, 0, 0, 0⟩ tpa

/-- `verify_ip_checksum`. -/
def verifyIpChecksum (header : List UInt8) : Exec Bool := do return (← checksum header) = 0

/-- `checksum == 0 || verify_ip_checksum(&data[..ihl])`. -/
def headerVerifies (data : List UInt8) (ihl : Nat) (cs : UInt16) : Exec Bool :=
  if cs ≠ 0 then do verifyIpChecksum (← slice data 0 ihl) else return true

/-- `parse_ipv4`: the header length comes from the packet. -/
def parseIpv4 (data : List UInt8) : Exec (Option (Ipv4Header × List UInt8)) :=
  if data.length < ipHdrLen then return none
  else do
    let versionIhl ← index data 0
    let ihl ← usize ((versionIhl &&& (0x0F : UInt8)).toNat * 4)
    if ihl < ipHdrLen ∨ data.length < ihl then return none
    else do
      let cs ← u16At data 10
      if (← headerVerifies data ihl cs) = false then return none
      else do
        let src ← ipAt data 12 16
        let dst ← ipAt data 16 20
        return some ({
          versionIhl
          dscpEcn := ← index data 1
          totalLen := ← u16At data 2
          id := ← u16At data 4
          flagsFrag := ← u16At data 6
          ttl := ← index data 8
          protocol := ← index data 9
          checksum := cs
          src, dst }, ← sliceFrom data ihl)

/-- `build_ipv4`: the checksum of the first 20 bytes is written over the zeros in them. -/
def buildIpv4 (src dst : Ipv4Addr) (protocol ttl : UInt8) (payload : List UInt8) :
    Exec (List UInt8) := do
  let buf := [0x45, 0] ++ octets16 (totalLen payload) ++ octets16 0 ++ octets16 0x4000 ++
    [ttl, protocol] ++ octets16 0 ++ ipOctets src ++ ipOctets dst ++ payload
  let cs ← checksum (← slice buf 0 ipHdrLen)
  copyInto buf 10 12 (octets16 cs)

/-- `build_icmp_echo_reply`. -/
def buildIcmpEchoReply (echoRequest : List UInt8) : Exec (Option (List UInt8)) :=
  if echoRequest.length < icmpHdrSize then return none
  else do
    if (← index echoRequest 0) ≠ icmpEchoRequest then return none
    else do
      let reply ← set echoRequest 0 icmpEchoReply
      let reply ← set reply 2 0
      let reply ← set reply 3 0
      let cs ← checksum reply
      return some (← copyInto reply 2 4 (octets16 cs))

/-- `parse_tcp`: the header length comes from the segment. -/
def parseTcp (data : List UInt8) : Exec (Option (TcpHeader × List UInt8)) :=
  if data.length < tcpHdrLen then return none
  else do
    let dataOffset := (← index data 12) >>> 4
    let hdrLen ← usize (dataOffset.toNat * 4)
    if hdrLen < tcpHdrLen ∨ data.length < hdrLen then return none
    else do
      return some ({
        srcPort := ← u16At data 0
        dstPort := ← u16At data 2
        seq := ← u32At data 4
        ack := ← u32At data 8
        dataOffset
        flags := ← index data 13
        window := ← u16At data 14
        checksum := ← u16At data 16
        urgent := ← u16At data 18 }, ← sliceFrom data hdrLen)

/-- `build_tcp_header`. -/
def buildTcpHeader (srcPort dstPort : UInt16) (seq ack : UInt32) (flags : UInt8)
    (window : UInt16) : Exec (List UInt8) := do
  let buf := List.replicate tcpHdrLen 0
  let buf ← copyInto buf 0 2 (octets16 srcPort)
  let buf ← copyInto buf 2 4 (octets16 dstPort)
  let buf ← copyInto buf 4 8 (octets32 seq)
  let buf ← copyInto buf 8 12 (octets32 ack)
  let buf ← set buf 12 ((5 : UInt8) <<< 4)
  let buf ← set buf 13 flags
  copyInto buf 14 16 (octets16 window)

/-- `build_tcp_segment`. -/
def buildTcpSegment (srcIp dstIp : Ipv4Addr) (srcPort dstPort : UInt16) (seq ack : UInt32)
    (flags : UInt8) (window : UInt16) (payload : List UInt8) : Exec (List UInt8) := do
  let header ← buildTcpHeader srcPort dstPort seq ack flags window
  let tcpLen := tcpHdrLen + payload.length
  let cs ← checksum (pseudoHeader srcIp dstIp tcpLen ++ header ++ payload)
  return (← copyInto header 16 18 (octets16 cs)) ++ payload

/-- `verify_tcp_checksum`. -/
def verifyTcpChecksum (srcIp dstIp : Ipv4Addr) (segment : List UInt8) : Exec Bool := do
  return (← checksum (pseudoHeader srcIp dstIp segment.length ++ segment)) = 0

/-- `now + duration`, for instants up to `limit`. -/
def instant (limit t : Instant) : Exec Instant := fits (limit + 1) t

/-- `if trim > 0 { send_buffer.drain(..trim) }`. -/
def drainFront (buffer : List UInt8) (trim : Nat) : Exec (List UInt8) :=
  if 0 < trim then sliceFrom buffer trim else return buffer

/-- ACK processing in `Established`: `send_buffer` is drained up to an index. -/
def processAck (t : Tcb) (header : TcpHeader) : Exec Tcb :=
  if header.has tcpAck then
    if 0 < header.ack - t.sndUna ∧ header.ack - t.sndNxt ≤ 0 then do
      let acked := (header.ack - t.sndUna).toNat
      let sendBuffer ← drainFront t.sendBuffer (min acked t.sendBuffer.length)
      let t := { t with sendBuffer, sndUna := header.ack }
      return if t.sndUna = t.sndNxt then { t with retransmitAt := none, retransmitCount := 0 }
        else t
    else return t
  else return t

/-- Data processing in `Established`: the lengths are added up as `u32`. -/
def processData (t : Tcb) (header : TcpHeader) (payload : List UInt8) :
    Exec (Tcb × List OutgoingSegment) :=
  let synFlag := header.flagLen tcpSyn
  let finFlag := header.flagLen tcpFin
  if 0 < segLen payload ∨ synFlag ≠ 0 ∨ finFlag ≠ 0 then
    if header.seq = t.rcvNxt then do
      let len ← add32 (← add32 (segLen payload) synFlag) finFlag
      let t := { t with
        recvBuffer := if 0 < segLen payload then t.recvBuffer ++ payload else t.recvBuffer
        rcvNxt := header.seq + len }
      return (if finFlag ≠ 0 then { t with state := .closeWait } else t, [t.ackSegment])
    else return (t, [])
  else return (t, [])

/-- `Established`. -/
def processEstablished (t : Tcb) (header : TcpHeader) (payload : List UInt8) :
    Exec (Tcb × List OutgoingSegment) := do
  processData (← processAck t header) header payload

/-- `FinWait1`: `payload.len() as u32 + 1`, and the deadline of `TimeWait`. -/
def processFinWait1 (limit : Instant) (t : Tcb) (header : TcpHeader) (payload : List UInt8)
    (now : Instant) : Exec (Tcb × List OutgoingSegment) :=
  if header.has tcpAck then
    if header.ack = t.sndNxt then
      let t := { t with sndUna := header.ack, retransmitAt := none, retransmitCount := 0 }
      if header.has tcpFin then do
        let len ← add32 (segLen payload) 1
        let deadline ← instant limit (now + timeWaitPeriod)
        let t := { t with
          rcvNxt := header.seq + len
          state := .timeWait
          retransmitAt := some deadline }
        return (t, [t.ackSegment])
      else return (({ t with state := .finWait2 } : Tcb).bufferData header payload, [])
    else return (t.bufferData header payload, [])
  else if header.has tcpFin then do
    let len ← add32 (segLen payload) 1
    let t := { t with rcvNxt := header.seq + len, state := .closing }
    return (t, [t.ackSegment])
  else return (t.bufferData header payload, [])

/-- `FinWait2`: likewise. -/
def processFinWait2 (limit : Instant) (t : Tcb) (header : TcpHeader) (payload : List UInt8)
    (now : Instant) : Exec (Tcb × List OutgoingSegment) :=
  if header.has tcpFin ∧ header.seq = t.rcvNxt then do
    let len ← add32 (segLen payload) 1
    let deadline ← instant limit (now + timeWaitPeriod)
    let t := { t with
      rcvNxt := header.seq + len
      state := .timeWait
      retransmitAt := some deadline }
    return (t, [t.ackSegment])
  else return (t.bufferData header payload, [])

/-- `Closing`: the deadline of `TimeWait`. -/
def processClosing (limit : Instant) (t : Tcb) (header : TcpHeader) (now : Instant) :
    Exec (Tcb × List OutgoingSegment) :=
  if header.has tcpAck ∧ header.ack = t.sndNxt then do
    let deadline ← instant limit (now + timeWaitPeriod)
    return ({ t with
      state := .timeWait
      retransmitAt := some deadline
      retransmitCount := 0 }, [])
  else return (t, [])

/-- `process_existing_tcb`: the states that are left out of the list have no operation in
them that could panic. -/
def processExistingTcb (limit : Instant) (t : Tcb) (header : TcpHeader) (payload : List UInt8)
    (now : Instant) : Exec (Tcb × List OutgoingSegment) :=
  match t.state with
  | .established => processEstablished t header payload
  | .finWait1 => processFinWait1 limit t header payload now
  | .finWait2 => processFinWait2 limit t header payload now
  | .closing => processClosing limit t header now
  | _ => return t.processExistingTcb header payload now

/-- The reset for a segment that matches no connection: its length is added up as `u32`. -/
def strayReset (header : TcpHeader) (payload : List UInt8) : Exec OutgoingSegment := do
  let len ← add32 (segLen payload) (header.flagLen tcpSyn)
  return { TcpManager.strayReset header payload with ack := header.seq + len }

/-- `TcpManager::process`. -/
def process (limit : Instant) (m : TcpManager) (localIp remoteIp : Ipv4Addr) (header : TcpHeader)
    (payload : List UInt8) (now : Instant) :
    Exec (TcpManager × Option ConnKey × List OutgoingSegment) :=
  let key := TcpManager.segmentKey localIp remoteIp header
  match m.get key with
  | some t => do
    let (t, outgoing) ← processExistingTcb limit t header payload now
    return (⟨m.connections.insert key t⟩, some key, outgoing)
  | none =>
    if header.has tcpRst then return (m, none, [])
    else do return (m, none, [← strayReset header payload])

/-- `record_sent` on one connection. -/
def startTimer (limit : Instant) (t : Tcb) (now : Instant) : Exec Tcb :=
  if t.retransmitAt.isNone then do
    return { t with retransmitAt := some (← instant limit (now + t.rto)) }
  else return t

/-- `record_sent`. -/
def recordSent (limit : Instant) (m : TcpManager) (key : ConnKey) (now : Instant) :
    Exec TcpManager :=
  match m.get key with
  | none => return m
  | some t => do return ⟨m.connections.insert key (← startTimer limit t now)⟩

/-- `ArpCache::learn`. -/
def arpLearn (limit : Instant) (cache : ArpCache) (ip : Ipv4Addr) (mac : MacAddr)
    (clock : Clock) : Exec (ArpCache × Clock) :=
  if ip = ⟨0, 0, 0, 0⟩ ∨ mac = ⟨0, 0, 0, 0, 0, 0⟩ then return (cache, clock)
  else do
    let (time, clock) := clock.read
    let expires ← instant limit (time + cacheTtl)
    return ({ cache with entries := cache.entries.insert ip ⟨mac, expires⟩ }, clock)

/-- `ArpCache::insert`. -/
def arpInsert (limit : Instant) (cache : ArpCache) (ip : Ipv4Addr) (mac : MacAddr)
    (clock : Clock) : Exec (ArpCache × List (List UInt8) × Clock) := do
  let (time, clock) := clock.read
  let expires ← instant limit (time + cacheTtl)
  return ({ entries := cache.entries.insert ip ⟨mac, expires⟩
            pending := cache.pending.erase ip },
    ((cache.pending.lookup ip).map (·.packets)).getD [], clock)

/-- `ArpCache::record_request`, where `retries` is a `u32`. -/
def recordRequest (cache : ArpCache) (ip : Ipv4Addr) (now : Instant) : Exec ArpCache :=
  match cache.pending.lookup ip with
  | some entry => do
    let retries ← fits (2 ^ 32) (entry.retries + 1)
    return { cache with
      pending := cache.pending.insert ip { entry with lastRequest := now, retries } }
  | none =>
    return { cache with
      pending := cache.pending.insert ip { packets := [], lastRequest := now, retries := 1 } }

/-- Ask for the address of `ip`, and record that. -/
def request (l : Link) (ip : Ipv4Addr) : Exec Link := do
  let req ← buildArpRequest l.ourMac l.ourIp ip
  let l := l.writeFrame (buildFrame broadcastMac l.ourMac ethTypeArp req)
  return { l with arp := ← recordRequest l.arp ip l.now }

/-- `send_frame` when the address is not known. -/
def enqueue (l : Link) (dstIp : Ipv4Addr) (ipPacket : List UInt8) : Exec Link :=
  let (arp, isNew) := l.arp.queuePacket dstIp ipPacket l.now
  let l := { l with arp }
  if isNew then request l dstIp else return l

/-- `send_frame`, but for `record_sent`. -/
def transmit (l : Link) (dstIp : Ipv4Addr) (ipPacket : List UInt8) : Exec Link :=
  let l := l.note (.handed dstIp ipPacket)
  let (found, clock) := l.arp.lookup dstIp l.clock
  let l := { l with clock }
  match found with
  | some dstMac => return l.writeFrame (l.ipv4Frame dstMac ipPacket)
  | none => enqueue l dstIp ipPacket

/-- `arp.learn`. -/
def learn (limit : Instant) (l : Link) (ip : Ipv4Addr) (mac : MacAddr) : Exec Link := do
  let (arp, clock) ← arpLearn limit l.arp ip mac l.clock
  return { l with arp, clock }

/-- `arp.insert`, and the packets that it returns. -/
def resolve (limit : Instant) (l : Link) (ip : Ipv4Addr) (mac : MacAddr) : Exec Link := do
  let (arp, queued, clock) ← arpInsert limit l.arp ip mac l.clock
  return (({ l with arp, clock } : Link).note (.resolved ip)).sendQueued mac queued

/-- `handle_arp`. -/
def handleArp (limit : Instant) (l : Link) (payload : List UInt8) : Exec Link := do
  match ← parseArp payload with
  | none => return l
  | some pkt =>
    let l ← learn limit l pkt.spa pkt.sha
    if pkt.oper = arpOpRequest ∧ pkt.tpa = l.ourIp then
      let reply ← buildArpReply l.ourMac l.ourIp pkt.sha pkt.spa
      return l.writeFrame (buildFrame pkt.sha l.ourMac ethTypeArp reply)
    else if pkt.oper = arpOpReply then
      resolve limit l pkt.spa pkt.sha
    else return l

/-- The call of `record_sent` in `send_frame`. -/
def recordSentUnder (limit : Instant) (s : Stack) (connKey : Option ConnKey) : Exec TcpManager :=
  match connKey with
  | none => return s.tcp
  | some k => recordSent limit s.tcp k s.now

/-- `send_frame`. -/
def sendFrame (limit : Instant) (s : Stack) (dstIp : Ipv4Addr) (ipPacket : List UInt8)
    (connKey : Option ConnKey) : Exec Stack := do
  return { tcp := ← recordSentUnder limit s connKey, toLink := ← transmit s.toLink dstIp ipPacket }

/-- The body of the loop of `send_segments_with_key`. -/
def sendSegment (limit : Instant) (s : Stack) (key : Option ConnKey) (dstIp : Ipv4Addr)
    (seg : OutgoingSegment) : Exec Stack := do
  let segBytes ← buildTcpSegment s.ourIp dstIp (s.core.srcPort key dstIp seg) seg.dstPort seg.seq
    seg.ack seg.flags defaultWindow seg.payload
  let ipPacket ← buildIpv4 s.ourIp dstIp ipProtoTcp 64 segBytes
  sendFrame limit s dstIp ipPacket key

/-- `send_segments_with_key`. -/
def sendSegmentsWithKey (limit : Instant) (key : Option ConnKey) (dstIp : Ipv4Addr) :
    List OutgoingSegment → Stack → Exec Stack
  | [], s => return s
  | seg :: segs, s => do
    sendSegmentsWithKey limit key dstIp segs (← sendSegment limit s key dstIp seg)

/-- `handle_ipv4`. -/
def handleIpv4 (limit : Instant) (s : Stack) (header : EthernetHdr) (payload : List UInt8) :
    Exec Stack := do
  match ← parseIpv4 payload with
  | none => return s
  | some (ipHdr, ipPayload) =>
    let s : Stack := { s with toLink := ← learn limit s.toLink ipHdr.src header.src }
    if ipHdr.protocol = ipProtoIcmp then
      match ← buildIcmpEchoReply ipPayload with
      | none => return s
      | some reply =>
        let packet ← buildIpv4 s.ourIp ipHdr.src ipProtoIcmp 64 reply
        sendFrame limit s ipHdr.src packet none
    else if ipHdr.protocol = ipProtoTcp then
      if (← verifyTcpChecksum ipHdr.src ipHdr.dst ipPayload) = false then return s
      else
        match ← parseTcp ipPayload with
        | none => return s
        | some (tcpHdr, tcpData) =>
          let (tcp, key, outgoing) ← process limit s.tcp s.ourIp ipHdr.src tcpHdr tcpData s.now
          sendSegmentsWithKey limit key ipHdr.src outgoing { s with tcp }
    else return s

/-- `dispatch`. -/
def dispatch (limit : Instant) (s : Stack) (data : List UInt8) : Exec Stack := do
  match ← parseFrame data with
  | none => return s
  | some (header, payload) =>
    if header.ethertype = ethTypeArp then
      return { s with toLink := ← handleArp limit s.toLink payload }
    else if header.ethertype = ethTypeIpv4 then handleIpv4 limit s header payload
    else return s

/-! ## The checksum fits -/

theorem sumWords_eq {data : List UInt8} {rounds i : Nat} {sum : UInt32} (hi : i ≤ data.length)
    (hrounds : data.length < i + rounds) (hfit : sum.toNat + octetSum (data.drop i) < 2 ^ 32) :
    sumWords data rounds i sum = .returns (TcpStack.sumWords (data.drop i) sum) := by
  induction rounds generalizing i sum with
  | zero => omega
  | succ rounds ih =>
    by_cases hword : i + 1 < data.length
    · have hdrop : data.drop i = data[i] :: data[i + 1] :: data.drop (i + 2) := by
        rw [List.drop_eq_getElem_cons (by omega), List.drop_eq_getElem_cons hword]
      rw [hdrop, octetSum] at hfit
      have hadd : sum.toNat + (ofOctets16 data[i] data[i + 1]).toUInt32.toNat < 2 ^ 32 := by
        rw [UInt16.toNat_toUInt32]
        omega
      have hsum : (sum + (ofOctets16 data[i] data[i + 1]).toUInt32).toNat =
          sum.toNat + (ofOctets16 data[i] data[i + 1]).toNat := by
        rw [UInt32.toNat_add, UInt16.toNat_toUInt32]
        exact Nat.mod_eq_of_lt (by omega)
      have hnext : sumWords data rounds (i + 2)
            (sum + (ofOctets16 data[i] data[i + 1]).toUInt32) =
          .returns (TcpStack.sumWords (data.drop (i + 2))
            (sum + (ofOctets16 data[i] data[i + 1]).toUInt32)) :=
        ih (by omega) (by omega) (by rw [hsum]; omega)
      rw [hdrop, TcpStack.sumWords, ← hnext, sumWords, sumLoop, if_pos hword,
        index_eq (show i < data.length by omega), index_eq hword, returns_bind, returns_bind]
      simp only [add32_eq hadd, returns_bind]
      rfl
    · rw [sumWords, sumLoop, if_neg hword, pure_eq, returns_bind]
      by_cases hbyte : i < data.length
      · have hdrop : data.drop i = [data[i]] := by
          rw [List.drop_eq_getElem_cons hbyte, List.drop_eq_nil_of_le (by omega)]
        rw [hdrop, octetSum] at hfit
        have hshift : (data[i].toUInt32 <<< 8).toNat = 256 * data[i].toNat := by
          have hlt := data[i].toNat_lt
          simp only [UInt32.toNat_shiftLeft, UInt8.toNat_toUInt32, UInt32.reduceToNat,
            Nat.reduceMod, Nat.shiftLeft_eq]
          omega
        simp only [hbyte, if_true, index_eq hbyte, returns_bind, hdrop, TcpStack.sumWords]
        exact add32_eq (by rw [hshift]; exact hfit)
      · have hdrop : data.drop i = [] := List.drop_eq_nil_of_le (by omega)
        simp only [hbyte, if_false, hdrop, TcpStack.sumWords, pure_eq]

/-- Two halves of 32 bits. -/
theorem low_add_high_fits (sum : UInt32) :
    (sum &&& (0xFFFF : UInt32)).toNat + (sum >>> 16).toNat < 2 ^ 32 := by
  have hlt := sum.toNat_lt
  have hlow : sum.toNat &&& 65535 = sum.toNat % 65536 := Nat.and_two_pow_sub_one_eq_mod _ 16
  simp only [UInt32.toNat_and, UInt32.toNat_shiftRight, UInt32.reduceToNat, Nat.reduceMod,
    Nat.shiftRight_eq_div_pow, hlow]
  omega

theorem foldSum_eq {rounds : Nat} {sum : UInt32} (hrounds : sum.toNat < rounds) :
    foldSum rounds sum = .returns (TcpStack.foldSum sum) := by
  induction rounds generalizing sum with
  | zero => omega
  | succ rounds ih =>
    rw [foldSum, TcpStack.foldSum]
    by_cases hdone : sum >>> 16 = 0
    · rw [if_pos hdone, if_pos hdone, pure_eq]
    · have hless : ((sum &&& (0xFFFF : UInt32)) + (sum >>> 16)).toNat < sum.toNat := by
        rw [toNat_low_add_high]
        exact endAround_lt (by decide)
          (Nat.le_of_not_lt ((shiftRight_eq_zero_iff sum).not.mp hdone))
      rw [if_neg hdone, if_neg hdone, add32_eq (low_add_high_fits sum), returns_bind]
      exact ih (by omega)

/-- While the sum fits in its 32 bits, `checksum` returns. -/
theorem checksum_eq_of_fits {data : List UInt8} (hfit : octetSum data < 2 ^ 32) :
    checksum data = .returns (TcpStack.checksum data) := by
  have hwords : sumWords data (data.length + 1) 0 0 = .returns (TcpStack.sumWords data 0) := by
    refine sumWords_eq (Nat.zero_le _) (by omega) ?_
    rw [List.drop_zero]
    have hzero : (0 : UInt32).toNat = 0 := rfl
    omega
  rw [checksum, hwords, returns_bind, foldSum_eq (Nat.lt_succ_self _), returns_bind, pure_eq]
  rfl

/-- The most bytes that `checksum` can be given: a frame's and a pseudo-header's. -/
def maxSummed : Nat := 65536 + 12

theorem checksum_eq {data : List UInt8} (hlen : data.length ≤ maxSummed) :
    checksum data = .returns (TcpStack.checksum data) := by
  have hsum := octetSum_le data
  rw [maxSummed] at hlen
  exact checksum_eq_of_fits (by omega)

/-! ## Parsing stays within the packet -/

section Parsing

variable {data : List UInt8} {i : Nat}

theorem u16At_eq (h : i + 1 < data.length) :
    u16At data i = .returns (ofOctets16 data[i] data[i + 1]) := by
  rw [u16At, index_eq (show i < data.length by omega), index_eq (show i + 1 < data.length by omega)]
  rfl

theorem u32At_eq (h : i + 3 < data.length) :
    u32At data i = .returns (ofOctets32 data[i] data[i + 1] data[i + 2] data[i + 3]) := by
  rw [u32At, index_eq (show i < data.length by omega), index_eq (show i + 1 < data.length by omega),
    index_eq (show i + 2 < data.length by omega), index_eq (show i + 3 < data.length by omega)]
  rfl

theorem macAt_eq (h : i + 6 ≤ data.length) :
    macAt data i (i + 6) = .returns ⟨data[i], data[i + 1], data[i + 2], data[i + 3],
      data[i + 4], data[i + 5]⟩ := by
  have hslice : (data.drop i).take 6 = [data[i], data[i + 1], data[i + 2], data[i + 3],
      data[i + 4], data[i + 5]] := by
    simp only [List.drop_eq_getElem_cons (show i < data.length by omega),
      List.drop_eq_getElem_cons (show i + 1 < data.length by omega),
      List.drop_eq_getElem_cons (show i + 1 + 1 < data.length by omega),
      List.drop_eq_getElem_cons (show i + 1 + 1 + 1 < data.length by omega),
      List.drop_eq_getElem_cons (show i + 1 + 1 + 1 + 1 < data.length by omega),
      List.drop_eq_getElem_cons (show i + 1 + 1 + 1 + 1 + 1 < data.length by omega)]
    rfl
  rw [macAt, slice_eq h, returns_bind, hslice]
  rfl

theorem ipAt_eq (h : i + 3 < data.length) :
    ipAt data i (i + 4) = .returns ⟨data[i], data[i + 1], data[i + 2], data[i + 3]⟩ := by
  have hslice : (data.drop i).take 4 = [data[i], data[i + 1], data[i + 2], data[i + 3]] := by
    simp only [List.drop_eq_getElem_cons (show i < data.length by omega),
      List.drop_eq_getElem_cons (show i + 1 < data.length by omega),
      List.drop_eq_getElem_cons (show i + 1 + 1 < data.length by omega),
      List.drop_eq_getElem_cons (show i + 1 + 1 + 1 < data.length by omega)]
    rfl
  rw [ipAt, slice_eq h, returns_bind, hslice]
  rfl

theorem parseFrame_eq (data : List UInt8) :
    parseFrame data = .returns (TcpStack.parseFrame data) := by
  rw [parseFrame, TcpStack.parseFrame]
  by_cases hshort : data.length < ethHdrLen
  · rw [if_pos hshort, dif_pos hshort, pure_eq]
  · have hlen : 14 ≤ data.length := Nat.le_of_not_lt hshort
    rw [if_neg hshort, dif_neg hshort, macAt_eq (i := 0) (by omega), returns_bind,
      macAt_eq (i := 6) (by omega), returns_bind, u16At_eq (i := 12) (by omega), returns_bind,
      sliceFrom_eq (i := ethHdrLen) hlen]
    rfl

theorem parseArp_eq (data : List UInt8) : parseArp data = .returns (TcpStack.parseArp data) := by
  rw [parseArp, TcpStack.parseArp]
  by_cases hshort : data.length < arpPktLen
  · rw [if_pos hshort, dif_pos hshort, pure_eq]
  · have hlen : 28 ≤ data.length := Nat.le_of_not_lt hshort
    rw [if_neg hshort, dif_neg hshort, macAt_eq (i := 8) (by omega), returns_bind,
      ipAt_eq (i := 14) (by omega), returns_bind, macAt_eq (i := 18) (by omega), returns_bind,
      ipAt_eq (i := 24) (by omega), returns_bind, u16At_eq (i := 0) (by omega), returns_bind,
      u16At_eq (i := 2) (by omega), returns_bind, index_eq (i := 4) (by omega), returns_bind,
      index_eq (i := 5) (by omega), returns_bind, u16At_eq (i := 6) (by omega)]
    rfl

/-- Four times an octet, as the header lengths are. -/
theorem usize_eq (x : UInt8) : usize (x.toNat * 4) = .returns (x.toNat * 4) :=
  fits_eq (by have hlt := x.toNat_lt; omega)

theorem verifyIpChecksum_eq (hlen : data.length ≤ maxSummed) :
    verifyIpChecksum data = .returns (TcpStack.verifyIpChecksum data) := by
  rw [verifyIpChecksum, checksum_eq hlen]
  rfl

theorem headerVerifies_eq {ihl : Nat} (hlen : data.length ≤ maxSummed)
    (hihl : ihl ≤ data.length) (cs : UInt16) :
    headerVerifies data ihl cs =
      .returns (!decide (cs ≠ 0 ∧ TcpStack.verifyIpChecksum (data.take ihl) = false)) := by
  have hslice : slice data 0 ihl = .returns (data.take ihl) := by
    have hfront : slice data 0 (0 + ihl) = .returns ((data.drop 0).take ihl) :=
      slice_eq (by omega)
    simpa using hfront
  have htake : (data.take ihl).length ≤ maxSummed := (List.length_take_le' ..).trans hlen
  rw [headerVerifies]
  by_cases hcs : cs ≠ 0
  · rw [if_pos hcs, hslice, returns_bind, verifyIpChecksum_eq htake]
    simp [hcs]
  · rw [if_neg hcs, pure_eq]
    simp [hcs]

theorem parseIpv4_eq (hlen : data.length ≤ maxSummed) :
    parseIpv4 data = .returns (TcpStack.parseIpv4 data) := by
  rw [parseIpv4, TcpStack.parseIpv4]
  by_cases hshort : data.length < ipHdrLen
  · rw [if_pos hshort, dif_pos hshort, pure_eq]
  · have hroom : 20 ≤ data.length := Nat.le_of_not_lt hshort
    rw [if_neg hshort, dif_neg hshort, index_eq (i := 0) (by omega), returns_bind, usize_eq,
      returns_bind]
    by_cases hihl : (data[0] &&& 0x0F).toNat * 4 < ipHdrLen ∨
        data.length < (data[0] &&& 0x0F).toNat * 4
    · simp only [if_pos hihl, pure_eq]
    · have hfits : (data[0] &&& 0x0F).toNat * 4 ≤ data.length := by omega
      simp only [if_neg hihl]
      rw [u16At_eq (i := 10) (by omega), returns_bind, headerVerifies_eq hlen hfits, returns_bind]
      by_cases hbad : ofOctets16 data[10] data[11] ≠ 0 ∧
          TcpStack.verifyIpChecksum (data.take ((data[0] &&& 0x0F).toNat * 4)) = false
      · rw [if_pos hbad, if_pos (by rw [decide_eq_true hbad]; rfl), pure_eq]
      · rw [if_neg hbad, if_neg (by simpa using hbad), ipAt_eq (i := 12) (by omega), returns_bind,
          ipAt_eq (i := 16) (by omega), returns_bind, index_eq (i := 1) (by omega), returns_bind,
          u16At_eq (i := 2) (by omega), returns_bind, u16At_eq (i := 4) (by omega), returns_bind,
          u16At_eq (i := 6) (by omega), returns_bind, index_eq (i := 8) (by omega), returns_bind,
          index_eq (i := 9) (by omega), returns_bind, sliceFrom_eq hfits]
        rfl

theorem parseTcp_eq (data : List UInt8) : parseTcp data = .returns (TcpStack.parseTcp data) := by
  rw [parseTcp, TcpStack.parseTcp]
  by_cases hshort : data.length < tcpHdrLen
  · rw [if_pos hshort, dif_pos hshort, pure_eq]
  · have hroom : 20 ≤ data.length := Nat.le_of_not_lt hshort
    rw [if_neg hshort, dif_neg hshort, index_eq (i := 12) (by omega), returns_bind]
    simp only [usize_eq, returns_bind]
    by_cases hhdr : (data[12] >>> 4).toNat * 4 < tcpHdrLen ∨
        data.length < (data[12] >>> 4).toNat * 4
    · rw [if_pos hhdr, if_pos hhdr, pure_eq]
    · have hfits : (data[12] >>> 4).toNat * 4 ≤ data.length := by omega
      rw [if_neg hhdr, if_neg hhdr, u16At_eq (i := 0) (by omega), returns_bind,
        u16At_eq (i := 2) (by omega), returns_bind, u32At_eq (i := 4) (by omega), returns_bind,
        u32At_eq (i := 8) (by omega), returns_bind, index_eq (i := 13) (by omega), returns_bind,
        u16At_eq (i := 14) (by omega), returns_bind, u16At_eq (i := 16) (by omega), returns_bind,
        u16At_eq (i := 18) (by omega), returns_bind, sliceFrom_eq hfits]
      rfl

theorem verifyTcpChecksum_eq (srcIp dstIp : Ipv4Addr) (hlen : data.length ≤ 65536) :
    verifyTcpChecksum srcIp dstIp data =
      .returns (TcpStack.verifyTcpChecksum srcIp dstIp data) := by
  have hfull : (pseudoHeader srcIp dstIp data.length ++ data).length ≤ maxSummed := by
    rw [List.length_append, maxSummed]
    have hpseudo : (pseudoHeader srcIp dstIp data.length).length = 12 := rfl
    omega
  rw [verifyTcpChecksum, checksum_eq hfull]
  rfl

end Parsing

/-! ## Building stays within the buffer -/

theorem buildArp_eq (htype ptype : UInt16) (hlen plen : UInt8) (oper : UInt16) (sha : MacAddr)
    (spa : Ipv4Addr) (tha : MacAddr) (tpa : Ipv4Addr) :
    buildArp htype ptype hlen plen oper sha spa tha tpa =
      .returns (TcpStack.buildArp htype ptype hlen plen oper sha spa tha tpa) := by
  simp [buildArp, TcpStack.buildArp, copyInto, Exec.set, octets16, macOctets, ipOctets, arpPktLen,
    List.replicate]

theorem buildTcpHeader_eq (srcPort dstPort : UInt16) (seq ack : UInt32) (flags : UInt8)
    (window : UInt16) :
    buildTcpHeader srcPort dstPort seq ack flags window =
      .returns (TcpStack.buildTcpHeader srcPort dstPort seq ack flags window) := by
  simp [buildTcpHeader, TcpStack.buildTcpHeader, copyInto, Exec.set, octets16, octets32,
    tcpHdrLen, List.replicate]

/-- A checksum written into a buffer. -/
theorem fillChecksum_eq {buf : List UInt8} {i : Nat} (h : i + 2 ≤ buf.length) (cs : UInt16) :
    copyInto buf i (i + 2) (octets16 cs) = .returns (copyAt buf i (octets16 cs)) :=
  copyInto_eq rfl h

theorem buildIpv4_eq (src dst : Ipv4Addr) (protocol ttl : UInt8) (payload : List UInt8) :
    buildIpv4 src dst protocol ttl payload =
      .returns (TcpStack.buildIpv4 src dst protocol ttl payload) := by
  rw [buildIpv4, TcpStack.buildIpv4]
  generalize hbuf : [0x45, 0] ++ octets16 (totalLen payload) ++ octets16 0 ++ octets16 0x4000 ++
    [ttl, protocol] ++ octets16 0 ++ ipOctets src ++ ipOctets dst ++ payload = buf
  have hlen : ipHdrLen ≤ buf.length := by
    rw [← hbuf, List.length_append]
    exact Nat.le_add_right 20 payload.length
  have hroom : 12 ≤ buf.length := le_trans (by decide) hlen
  have hslice : slice buf 0 ipHdrLen = .returns (buf.take ipHdrLen) := by
    have htake : slice buf 0 (0 + ipHdrLen) = .returns ((buf.drop 0).take ipHdrLen) :=
      slice_eq (by omega)
    rwa [Nat.zero_add, List.drop_zero] at htake
  have hheader : (buf.take ipHdrLen).length ≤ maxSummed :=
    (List.length_take_le ..).trans (by decide)
  rw [hslice, returns_bind, checksum_eq hheader, returns_bind]
  exact fillChecksum_eq (i := 10) hroom _

theorem buildIcmpEchoReply_eq {echoRequest : List UInt8} (hlen : echoRequest.length ≤ maxSummed) :
    buildIcmpEchoReply echoRequest = .returns (TcpStack.buildIcmpEchoReply echoRequest) := by
  rw [buildIcmpEchoReply, TcpStack.buildIcmpEchoReply]
  by_cases hshort : echoRequest.length < icmpHdrSize
  · rw [if_pos hshort, dif_pos hshort, pure_eq]
  · have hroom : 8 ≤ echoRequest.length := Nat.le_of_not_lt hshort
    rw [if_neg hshort, dif_neg hshort, index_eq (i := 0) (by omega), returns_bind]
    by_cases hother : echoRequest[0] ≠ icmpEchoRequest
    · rw [if_pos hother, if_pos hother, pure_eq]
    · rw [if_neg hother, if_neg hother, set_eq (by omega), returns_bind,
        set_eq (by rw [List.length_set]; omega), returns_bind,
        set_eq (by simp only [List.length_set]; omega), returns_bind,
        checksum_eq (by simpa only [List.length_set] using hlen), returns_bind,
        fillChecksum_eq (i := 2) (by simp only [List.length_set]; omega), returns_bind, pure_eq]

theorem buildTcpSegment_eq (srcIp dstIp : Ipv4Addr) (srcPort dstPort : UInt16) (seq ack : UInt32)
    (flags : UInt8) (window : UInt16) {payload : List UInt8} (hlen : payload.length ≤ 65516) :
    buildTcpSegment srcIp dstIp srcPort dstPort seq ack flags window payload =
      .returns (TcpStack.buildTcpSegment srcIp dstIp srcPort dstPort seq ack flags window
        payload) := by
  rw [buildTcpSegment, TcpStack.buildTcpSegment, buildTcpHeader_eq, returns_bind]
  have hheader : (TcpStack.buildTcpHeader srcPort dstPort seq ack flags window).length = 20 := rfl
  have hpseudo : (pseudoHeader srcIp dstIp (tcpHdrLen + payload.length)).length = 12 := rfl
  have hfull : (pseudoHeader srcIp dstIp (tcpHdrLen + payload.length) ++
      TcpStack.buildTcpHeader srcPort dstPort seq ack flags window ++ payload).length ≤
        maxSummed := by
    rw [List.length_append, List.length_append, hpseudo, hheader, maxSummed]
    omega
  simp only
  rw [checksum_eq hfull, returns_bind, fillChecksum_eq (i := 16) (by rw [hheader]; decide),
    returns_bind, pure_eq]

/-! ## Processing a segment -/

theorem toNat_segLen_le (payload : List UInt8) : (segLen payload).toNat ≤ payload.length := by
  rw [segLen, UInt32.toNat_ofNat']
  exact Nat.mod_le ..

theorem toNat_flagLen_le (header : TcpHeader) (flag : UInt8) :
    (header.flagLen flag).toNat ≤ 1 := by
  unfold TcpHeader.flagLen
  split <;> decide

theorem instant_eq {limit t : Instant} (h : t ≤ limit) : instant limit t = .returns t :=
  fits_eq (Nat.lt_succ_of_le h)

theorem drainFront_eq {buffer : List UInt8} {trim : Nat} (h : trim ≤ buffer.length) :
    drainFront buffer trim = .returns (buffer.drop trim) := by
  rw [drainFront]
  split
  · exact sliceFrom_eq h
  · rename_i hzero
    have htrim : trim = 0 := by omega
    rw [htrim, List.drop_zero, pure_eq]

theorem processAck_eq (t : Tcb) (header : TcpHeader) :
    processAck t header = .returns (t.processAck header) := by
  rw [processAck, Tcb.processAck]
  split
  · split
    · simp only [drainFront_eq (min_le_right ..), returns_bind, pure_eq]
    · rw [pure_eq]
  · rw [pure_eq]

section Payload

variable {payload : List UInt8} (hlen : payload.length ≤ 65536)

include hlen

theorem segLen_add_eq {x : UInt32} (hx : x.toNat ≤ 1) :
    add32 (segLen payload) x = .returns (segLen payload + x) := by
  have hpayload := toNat_segLen_le payload
  exact add32_eq (by omega)

theorem processData_eq (t : Tcb) (header : TcpHeader) :
    processData t header payload = .returns (t.processData header payload) := by
  have hsyn := toNat_flagLen_le header tcpSyn
  have hfin := toNat_flagLen_le header tcpFin
  have hpayload := toNat_segLen_le payload
  have hboth : (segLen payload + header.flagLen tcpSyn).toNat ≤ 65537 := by
    rw [UInt32.toNat_add]
    exact le_trans (Nat.mod_le ..) (by omega)
  rw [processData, Tcb.processData]
  simp only [segLen_add_eq hlen hsyn, returns_bind,
    add32_eq (show (segLen payload + header.flagLen tcpSyn).toNat +
      (header.flagLen tcpFin).toNat < 2 ^ 32 by omega), pure_eq]
  split_ifs <;> rfl

variable {limit now : Instant} (hnow : now + timeWaitPeriod ≤ limit)

include hnow

theorem processFinWait1_eq (t : Tcb) (header : TcpHeader) :
    processFinWait1 limit t header payload now =
      .returns (t.processFinWait1 header payload now) := by
  rw [processFinWait1, Tcb.processFinWait1]
  simp only [segLen_add_eq hlen (x := 1) (by decide), instant_eq hnow, returns_bind, pure_eq]
  split_ifs <;> rfl

theorem processFinWait2_eq (t : Tcb) (header : TcpHeader) :
    processFinWait2 limit t header payload now =
      .returns (t.processFinWait2 header payload now) := by
  rw [processFinWait2, Tcb.processFinWait2]
  simp only [segLen_add_eq hlen (x := 1) (by decide), instant_eq hnow, returns_bind, pure_eq]
  split_ifs <;> rfl

omit hlen in
theorem processClosing_eq (t : Tcb) (header : TcpHeader) :
    processClosing limit t header now = .returns (t.processClosing header now) := by
  rw [processClosing, Tcb.processClosing]
  simp only [instant_eq hnow, returns_bind, pure_eq]
  split_ifs <;> rfl

theorem processExistingTcb_eq (t : Tcb) (header : TcpHeader) :
    processExistingTcb limit t header payload now =
      .returns (t.processExistingTcb header payload now) := by
  unfold processExistingTcb
  cases hst : t.state with
  | established =>
    simp only [Tcb.processExistingTcb, hst]
    rw [processEstablished, processAck_eq, returns_bind, processData_eq hlen]
    rfl
  | finWait1 =>
    simp only [Tcb.processExistingTcb, hst]
    exact processFinWait1_eq hlen hnow t header
  | finWait2 =>
    simp only [Tcb.processExistingTcb, hst]
    exact processFinWait2_eq hlen hnow t header
  | closing =>
    simp only [Tcb.processExistingTcb, hst]
    exact processClosing_eq hnow t header
  | _ => rfl

theorem process_eq (m : TcpManager) (localIp remoteIp : Ipv4Addr) (header : TcpHeader) :
    process limit m localIp remoteIp header payload now =
      .returns (m.process localIp remoteIp header payload now) := by
  rw [process]
  cases ht : m.get (TcpManager.segmentKey localIp remoteIp header) with
  | some t =>
    simp only [processExistingTcb_eq hlen hnow, returns_bind, pure_eq]
    simp only [TcpManager.process, TcpManager.update, ht, Option.isSome_some, if_true]
  | none =>
    have hreset : strayReset header payload = .returns (TcpManager.strayReset header payload) := by
      rw [strayReset, segLen_add_eq hlen (toNat_flagLen_le header tcpSyn)]
      rfl
    rw [TcpManager.process_of_get_none ht]
    simp only [hreset, returns_bind, pure_eq]
    split_ifs <;> rfl

end Payload

/-! ## Sending and the cache -/

theorem recordSent_eq {limit now : Instant} {m : TcpManager} {key : ConnKey}
    (h : ∀ t, m.get key = some t → now + t.rto ≤ limit) :
    recordSent limit m key now = .returns (m.recordSent key now) := by
  rw [recordSent, TcpManager.recordSent, Table.modify]
  cases ht : m.get key with
  | none =>
    have hlookup : m.connections.lookup key = none := ht
    rw [hlookup]
    rfl
  | some t =>
    have hlookup : m.connections.lookup key = some t := ht
    have htimer : startTimer limit t now = .returns (t.recordSent now) := by
      rw [startTimer, Tcb.recordSent]
      split
      · rw [instant_eq (h t ht)]
        rfl
      · rfl
    simp only [hlookup, htimer, returns_bind, pure_eq]

theorem request_eq {l : Link} {ip : Ipv4Addr}
    (h : ∀ entry, l.arp.pending.lookup ip = some entry → entry.retries + 1 < 2 ^ 32) :
    request l ip = .returns (l.request ip) := by
  have hrecord : recordRequest l.arp ip l.now = .returns (l.arp.recordRequest ip l.now) := by
    rw [recordRequest, ArpCache.recordRequest]
    cases hentry : l.arp.pending.lookup ip with
    | none => rfl
    | some entry => simp only [fits_eq (h entry hentry), returns_bind, pure_eq]
  have harp : ∀ frame, recordRequest (l.writeFrame frame).arp ip (l.writeFrame frame).now =
      .returns (l.arp.recordRequest ip l.now) := fun frame => hrecord
  rw [request, buildArpRequest, buildArp_eq, returns_bind]
  simp only [harp, returns_bind, pure_eq]
  rfl

/-- A request follows the first packet, so that it is the first one for its address. -/
theorem enqueue_eq (l : Link) (dstIp : Ipv4Addr) (ipPacket : List UInt8) :
    enqueue l dstIp ipPacket = .returns (l.enqueue dstIp ipPacket) := by
  rw [enqueue, Link.enqueue]
  simp only
  split
  · rename_i hnew
    refine request_eq ?_
    intro entry hentry
    have hnone : l.arp.pending.lookup dstIp = none := Option.isNone_iff_eq_none.mp hnew
    simp only [ArpCache.queuePacket, hnone, Option.getD_none, AList.lookup_insert,
      Option.some.injEq] at hentry
    rw [← hentry]
    exact (show 0 + 1 < 2 ^ 32 by decide)
  · rfl

theorem transmit_eq (l : Link) (dstIp : Ipv4Addr) (ipPacket : List UInt8) :
    transmit l dstIp ipPacket = .returns (l.transmit dstIp ipPacket) := by
  cases hfound : (l.arp.lookup dstIp l.clock).1 with
  | some mac =>
    rw [Link.transmit_of_some hfound]
    simp only [transmit, Link.note_arp, Link.note_clock, hfound]
    rfl
  | none =>
    rw [Link.transmit_of_none hfound]
    simp only [transmit, Link.note_arp, Link.note_clock, hfound]
    exact enqueue_eq ..

end Checked

/-! ## The clock and the timers -/

/-- The last time that the clock will show. -/
def Clock.last (c : Clock) : Instant := c.time + c.delays.sum

theorem Clock.last_read (c : Clock) : c.read.2.last = c.last := by
  unfold read last
  split
  · rfl
  · rename_i d delays h
    rw [h, List.sum_cons, Nat.add_assoc]

theorem Clock.time_le_last (c : Clock) : c.time ≤ c.last := Nat.le_add_right ..

theorem Clock.read_le_last (c : Clock) : c.read.1 ≤ c.last := by
  rw [← c.last_read, ← c.read_time]
  exact c.read.2.time_le_last

namespace Link

/-- There is time left for every timeout, a minute at most. -/
structure Timely (limit : Instant) (l : Link) : Prop where
  inTime : l.now ≤ l.clock.time
  last_le : l.clock.last + Duration.fromSecs 60 ≤ limit

theorem lookup_last (cache : ArpCache) (ip : Ipv4Addr) (clock : Clock) :
    (cache.lookup ip clock).2.last = clock.last := by
  unfold ArpCache.lookup
  split
  · rfl
  · exact clock.last_read

theorem learn_last (l : Link) (ip : Ipv4Addr) (mac : MacAddr) :
    (l.learn ip mac).clock.last = l.clock.last := by
  simp only [learn, ArpCache.learn]
  split_ifs
  · rfl
  · exact l.clock.last_read

theorem resolve_last (l : Link) (ip : Ipv4Addr) (mac : MacAddr) :
    (l.resolve ip mac).clock.last = l.clock.last := by
  simp only [resolve, sendQueued, writeFrame]
  rw [foldl_clock fun l packet => l.note_clock _]
  exact l.clock.last_read

theorem step_last (l : Link) (e : Event) : (l.step e).clock.last = l.clock.last := by
  cases e with
  | tick =>
    have hclock : (l.step .tick).clock = l.clock.read.2 := arpTick_clock _
    rw [hclock, Clock.last_read]
  | transmit dstIp ipPacket =>
    rw [step, transmit_clock]
    exact lookup_last ..
  | learn ip mac => exact l.learn_last ip mac
  | arp payload =>
    simp only [step, handleArp]
    split
    · rfl
    · split_ifs
      · exact l.learn_last ..
      · rw [resolve_last, learn_last]
      · exact l.learn_last ..

theorem Timely.step {limit : Instant} {l : Link} (h : l.Timely limit) (e : Event) :
    (l.step e).Timely limit :=
  ⟨step_inTime h.inTime e, by rw [step_last]; exact h.last_le⟩

theorem Timely.now_add_le {limit : Instant} {l : Link} (h : l.Timely limit) {d : Duration}
    (hd : d ≤ Duration.fromSecs 60) : l.now + d ≤ limit :=
  le_trans (Nat.add_le_add (le_trans h.inTime l.clock.time_le_last) hd) h.last_le

theorem Timely.read_add_le {limit : Instant} {l : Link} (h : l.Timely limit) :
    l.clock.read.1 + cacheTtl ≤ limit :=
  le_trans (Nat.add_le_add_right l.clock.read_le_last _) h.last_le

end Link

namespace Checked

open Exec

variable {limit : Instant} {l : Link}

theorem learn_eq (h : l.Timely limit) (ip : Ipv4Addr) (mac : MacAddr) :
    learn limit l ip mac = .returns (l.learn ip mac) := by
  rw [learn, Link.learn, arpLearn, ArpCache.learn]
  split_ifs
  · rfl
  · simp only [instant_eq h.read_add_le, returns_bind, pure_eq]

theorem resolve_eq (h : l.Timely limit) (ip : Ipv4Addr) (mac : MacAddr) :
    resolve limit l ip mac = .returns (l.resolve ip mac) := by
  rw [resolve, Link.resolve, arpInsert, ArpCache.insert]
  simp only [instant_eq h.read_add_le, returns_bind, pure_eq]

theorem handleArp_eq (h : l.Timely limit) (payload : List UInt8) :
    handleArp limit l payload = .returns (l.handleArp payload) := by
  rw [handleArp, Link.handleArp, parseArp_eq, returns_bind]
  cases TcpStack.parseArp payload with
  | none => rfl
  | some pkt =>
    have hlearn : (l.learn pkt.spa pkt.sha).Timely limit := h.step (.learn pkt.spa pkt.sha)
    simp only [learn_eq h, returns_bind]
    split_ifs
    · rw [buildArpReply, buildArp_eq]
      rfl
    · exact resolve_eq hlearn ..
    · rfl

end Checked

/-! ## The stack -/

theorem TcpManager.payload_process {m : TcpManager} {localIp remoteIp : Ipv4Addr}
    {header : TcpHeader} {payload : List UInt8} {now : Instant} {seg : OutgoingSegment}
    (h : seg ∈ (m.process localIp remoteIp header payload now).2.2) : seg.payload = [] := by
  cases ht : m.get (segmentKey localIp remoteIp header) with
  | some t =>
    obtain ⟨-, hout⟩ := process_of_get ht payload now
    rw [hout] at h
    exact t.payload_processExistingTcb header payload now seg h
  | none =>
    rw [process_of_get_none ht] at h
    simp only at h
    split at h
    · exact absurd h (by simp)
    · rw [List.mem_singleton.mp h]
      rfl

namespace Stack

/-- What receiving takes of the stack: time for the timeouts, none of which is longer than
a minute. -/
structure InBounds (limit : Instant) (s : Stack) : Prop where
  timely : s.toLink.Timely limit
  rto_le : ∀ k t, s.tcp.get k = some t → t.rto ≤ Duration.fromSecs 60

variable {limit : Instant} {s : Stack}

theorem InBounds.sendFrame (h : s.InBounds limit) (dstIp : Ipv4Addr) (ipPacket : List UInt8)
    (key : Option ConnKey) : (s.sendFrame dstIp ipPacket key).InBounds limit := by
  refine ⟨h.timely.step (.transmit dstIp ipPacket), ?_⟩
  intro k t ht
  cases key with
  | none => exact h.rto_le k t ht
  | some k' =>
    have hget : (s.tcp.recordSent k' s.now).get k = some t := ht
    by_cases hk : k = k'
    · subst hk
      rw [TcpManager.get_recordSent_self] at hget
      obtain ⟨t', ht', rfl⟩ := Option.map_eq_some_iff.mp hget
      have hrto : (t'.recordSent s.now).rto = t'.rto := by
        unfold Tcb.recordSent
        split <;> rfl
      rw [hrto]
      exact h.rto_le k t' ht'
    · rw [TcpManager.get_recordSent_ne _ hk] at hget
      exact h.rto_le k t hget

theorem InBounds.process (h : s.InBounds limit) (remoteIp : Ipv4Addr) (header : TcpHeader)
    (payload : List UInt8) :
    ({ s with tcp := (s.tcp.process s.ourIp remoteIp header payload s.now).1 } :
      Stack).InBounds limit := by
  refine ⟨h.timely, ?_⟩
  intro k t ht
  by_cases hk : TcpManager.segmentKey s.ourIp remoteIp header = k
  · subst hk
    cases hbefore : s.tcp.get (TcpManager.segmentKey s.ourIp remoteIp header) with
    | none =>
      rw [TcpManager.process_of_get_none hbefore] at ht
      exact h.rto_le _ t ht
    | some t' =>
      obtain ⟨hget, -⟩ := TcpManager.process_of_get hbefore payload s.now
      obtain rfl := Option.some.inj (hget.symm.trans ht)
      rw [(t'.count_processExistingTcb header payload s.now).1]
      exact h.rto_le _ t' hbefore
  · obtain ⟨hget, -⟩ := s.tcp.process_of_ne remoteIp header payload s.now hk
    exact h.rto_le k t (hget.symm.trans ht)

end Stack

/-! ## What the parsers hand on is no longer than what they were given -/

theorem length_parseFrame {data payload : List UInt8} {header : EthernetHdr}
    (h : parseFrame data = some (header, payload)) : payload.length ≤ data.length := by
  unfold parseFrame at h
  split at h
  · exact absurd h (by simp)
  · rw [← (Prod.mk.inj (Option.some.inj h)).2]
    exact (List.drop_sublist ..).length_le

theorem length_parseIpv4 {data payload : List UInt8} {header : Ipv4Header}
    (h : parseIpv4 data = some (header, payload)) : payload.length ≤ data.length := by
  unfold parseIpv4 at h
  simp only at h
  split_ifs at h
  rw [← (Prod.mk.inj (Option.some.inj h)).2]
  exact (List.drop_sublist ..).length_le

theorem length_parseTcp {data payload : List UInt8} {header : TcpHeader}
    (h : parseTcp data = some (header, payload)) : payload.length ≤ data.length := by
  unfold parseTcp at h
  simp only at h
  split_ifs at h
  rw [← (Prod.mk.inj (Option.some.inj h)).2]
  exact (List.drop_sublist ..).length_le

namespace Checked

open Exec

variable {limit : Instant} {s : Stack}

theorem sendFrame_eq (h : s.InBounds limit) (dstIp : Ipv4Addr) (ipPacket : List UInt8)
    (key : Option ConnKey) :
    sendFrame limit s dstIp ipPacket key = .returns (s.sendFrame dstIp ipPacket key) := by
  rw [sendFrame, transmit_eq]
  cases key with
  | none => rfl
  | some k =>
    have hrecord : recordSentUnder limit s (some k) = .returns (s.tcp.recordSent k s.now) :=
      recordSent_eq fun t ht => h.timely.now_add_le (h.rto_le k t ht)
    rw [hrecord]
    rfl

theorem sendSegment_eq (h : s.InBounds limit) (key : Option ConnKey) (dstIp : Ipv4Addr)
    {seg : OutgoingSegment} (hempty : seg.payload = []) :
    sendSegment limit s key dstIp seg = .returns (s.sendSegment key dstIp seg) := by
  have hlen : seg.payload.length ≤ 65516 := by
    rw [hempty]
    decide
  rw [sendSegment, buildTcpSegment_eq _ _ _ _ _ _ _ _ hlen, returns_bind, buildIpv4_eq,
    returns_bind, sendFrame_eq h]
  rfl

theorem sendSegmentsWithKey_eq (h : s.InBounds limit) (key : Option ConnKey) (dstIp : Ipv4Addr)
    {segs : List OutgoingSegment} (hempty : ∀ seg ∈ segs, seg.payload = []) :
    sendSegmentsWithKey limit key dstIp segs s =
      .returns (s.sendSegmentsWithKey segs key dstIp) := by
  induction segs generalizing s with
  | nil => rfl
  | cons seg segs ih =>
    rw [sendSegmentsWithKey, sendSegment_eq h key dstIp (hempty seg List.mem_cons_self),
      returns_bind]
    exact ih (h.sendFrame ..) fun seg' hseg => hempty seg' (List.mem_cons_of_mem _ hseg)

theorem handleIpv4_eq (h : s.InBounds limit) (header : EthernetHdr) {payload : List UInt8}
    (hlen : payload.length ≤ 65536) :
    handleIpv4 limit s header payload = .returns (s.handleIpv4 header payload) := by
  rw [handleIpv4, Stack.handleIpv4, parseIpv4_eq (le_trans hlen (by decide)), returns_bind]
  cases hparse : TcpStack.parseIpv4 payload with
  | none => rfl
  | some parsed =>
    obtain ⟨ipHdr, ipPayload⟩ := parsed
    have hpayload : ipPayload.length ≤ 65536 := (length_parseIpv4 hparse).trans hlen
    have hlearned : ({ s with toLink := s.toLink.learn ipHdr.src header.src } :
        Stack).InBounds limit := ⟨h.timely.step (.learn ipHdr.src header.src), h.rto_le⟩
    simp only [learn_eq h.timely, returns_bind]
    by_cases hicmp : ipHdr.protocol = ipProtoIcmp
    · rw [if_pos hicmp, if_pos hicmp, buildIcmpEchoReply_eq (hpayload.trans (by decide)),
        returns_bind]
      cases TcpStack.buildIcmpEchoReply ipPayload with
      | none => rfl
      | some reply =>
        simp only [buildIpv4_eq, returns_bind]
        exact sendFrame_eq hlearned ..
    · rw [if_neg hicmp, if_neg hicmp]
      by_cases htcp : ipHdr.protocol = ipProtoTcp
      · rw [if_pos htcp, if_pos htcp, verifyTcpChecksum_eq _ _ hpayload, returns_bind,
          parseTcp_eq]
        by_cases hbad : TcpStack.verifyTcpChecksum ipHdr.src ipHdr.dst ipPayload = false
        · rw [if_pos hbad, if_pos hbad, pure_eq]
        · rw [if_neg hbad, if_neg hbad, returns_bind]
          cases hsegment : TcpStack.parseTcp ipPayload with
          | none => rfl
          | some segment =>
            obtain ⟨tcpHdr, tcpData⟩ := segment
            have hdata : tcpData.length ≤ 65536 := (length_parseTcp hsegment).trans hpayload
            have hnow : (s.toLink.learn ipHdr.src header.src).now + timeWaitPeriod ≤ limit :=
              hlearned.timely.now_add_le (le_refl _)
            simp only [process_eq hdata hnow, returns_bind]
            exact sendSegmentsWithKey_eq (hlearned.process ipHdr.src tcpHdr tcpData) _ _
              fun seg hseg => TcpManager.payload_process hseg
      · rw [if_neg htcp, if_neg htcp, pure_eq]

theorem dispatch_eq (h : s.InBounds limit) {data : List UInt8} (hlen : data.length ≤ 65536) :
    dispatch limit s data = .returns (s.dispatch data) := by
  rw [dispatch, Stack.dispatch, parseFrame_eq, returns_bind]
  cases hparse : TcpStack.parseFrame data with
  | none => rfl
  | some parsed =>
    obtain ⟨header, payload⟩ := parsed
    have hpayload : payload.length ≤ 65536 := (length_parseFrame hparse).trans hlen
    simp only
    split_ifs
    · rw [handleArp_eq h.timely]
      rfl
    · exact handleIpv4_eq h header hpayload
    · rfl

end Checked

/-- A stack that is left with a minute to the last instant is in bounds wherever it gets. -/
theorem Stack.inBounds_run {limit : Instant} (ourIp : Ipv4Addr) (ourMac : MacAddr) (clock : Clock)
    (hlimit : clock.last + Duration.fromSecs 60 ≤ limit) (es : List StackEvent) :
    (run step (.new ourIp ourMac clock) es).InBounds limit := by
  have hstart : (new ourIp ourMac clock).now ≤ (new ourIp ourMac clock).clock.time :=
    le_of_eq clock.read_time.symm
  have htimely : (new ourIp ourMac clock).toLink.Timely limit := by
    refine ⟨hstart, ?_⟩
    show clock.read.2.last + _ ≤ limit
    rwa [clock.last_read]
  refine ⟨?_, ?_⟩
  · rw [link_run]
    exact Run.invariant (Link.Timely limit) (fun _ e h => h.step e) htimely _
  · intro k t ht
    rw [← get_core, core_run _ hstart] at ht
    exact (TcpCore.forall_get_run Tcb.Patient Tcb.patient_opened (fun _ e h => h.onEvent e) ourIp
      _ _ ht).rto_le

/-- **Receiving is safe.**  In every state that the stack can reach, while the system clock
is a minute away from the last instant that it can represent, every frame of at most 65536
bytes is received without an access out of bounds, a copy between different lengths or an
overflow. -/
theorem receiving_safe (limit : Instant) (ourIp : Ipv4Addr) (ourMac : MacAddr) (clock : Clock)
    (hlimit : clock.last + Duration.fromSecs 60 ≤ limit) (es : List StackEvent)
    (data : List UInt8) (hlen : data.length ≤ 65536) :
    let s := run Stack.step (.new ourIp ourMac clock) es
    Checked.dispatch limit s data = .returns (s.dispatch data) :=
  Checked.dispatch_eq (Stack.inBounds_run ourIp ourMac clock hlimit es) hlen

/-- A frame with a segment of the demo's peer. -/
def demoPeerFrame (seq ack : UInt32) (flags : UInt8) (payload : List UInt8) : List UInt8 :=
  let packet : TcpPacket :=
    { srcPort := demoKey.remotePort, dstIp := demoKey.localIp
      segment := { flags := flags, seq := seq, ack := ack, payload := payload
                   dstPort := demoKey.localPort } }
  buildFrame ⟨2, 0, 0, 0, 0, 2⟩ ⟨2, 0, 0, 0, 0, 1⟩ ethTypeIpv4 (packet.bytes demoKey.remoteIp)

/-- The answer of the peer to the SYN of the demo connection passes every check and establishes the
connection, on a stack whose clock stands still. -/
theorem demo_receiving_safe :
    let s := run Stack.step (.new demoKey.localIp ⟨2, 0, 0, 0, 0, 2⟩ ⟨0, []⟩)
      [.connect demoKey.remoteIp demoKey.remotePort 1000]
    let data := demoPeerFrame 5000 1001 (tcpSyn ||| tcpAck) []
    Checked.dispatch (Duration.fromSecs 60) s data = .returns (s.dispatch data) ∧
      (s.tcp.get demoKey).map Tcb.state = some .synSent ∧
      ((s.dispatch data).tcp.get demoKey).map Tcb.state = some .established :=
  ⟨receiving_safe (Duration.fromSecs 60) demoKey.localIp ⟨2, 0, 0, 0, 0, 2⟩ ⟨0, []⟩ (by decide)
    [.connect demoKey.remoteIp demoKey.remotePort 1000]
    (demoPeerFrame 5000 1001 (tcpSyn ||| tcpAck) []) (by decide +kernel),
    by decide +kernel, by decide +kernel⟩

end PpcaNetwork.TcpStack
