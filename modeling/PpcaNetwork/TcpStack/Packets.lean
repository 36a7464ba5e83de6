import PpcaNetwork.TcpStack.Replies
import PpcaNetwork.TcpStack.Wire

/-!
# What the application sends, as packets

`TcpStack::send` hands one segment to `send_segments_with_key`, however long the data,
and that builds the TCP segment and the IPv4 packet around it.

* `TcpPacket.bytes` — the packet as `send_frame` gets it.
* `receiveTcp` — the TCP branch of `handle_ipv4`, up to `process`.
* `TcpPacket.Valid` and `LaidOut` — a packet that a receiver can take apart, and
  payloads that make up the data at their sequence numbers.
* `send_valid_iff` — for which data both hold.
-/

namespace PpcaNetwork.TcpStack

/-! ## Packets on the wire -/

namespace TcpPacket

/-- The segment that `send_segments_with_key` builds from our address. -/
def segmentBytes (ourIp : Ipv4Addr) (p : TcpPacket) : List UInt8 :=
  buildTcpSegment ourIp p.dstIp p.srcPort p.segment.dstPort p.segment.seq p.segment.ack
    p.segment.flags defaultWindow p.segment.payload

/-- The packet that it builds around the segment. -/
def bytes (ourIp : Ipv4Addr) (p : TcpPacket) : List UInt8 :=
  buildIpv4 ourIp p.dstIp ipProtoTcp 64 (p.segmentBytes ourIp)

/-- A packet that arrives whole: its length field is its length, the parser and the
checksum accept it, and nothing overflowed on the way. -/
structure Valid (ourIp : Ipv4Addr) (p : TcpPacket) : Prop where
  length_le : (p.bytes ourIp).length ≤ 65535
  accepted : ∃ ipHdr segment, parseIpv4 (p.bytes ourIp) = some (ipHdr, segment) ∧
    ipHdr.totalLen.toNat = (p.bytes ourIp).length ∧
    verifyTcpChecksum ipHdr.src ipHdr.dst segment = true
  tcpLen_fits : tcpHdrLen + p.segment.payload.length < 2 ^ 16
  totalLen_fits : ipHdrLen + (p.segmentBytes ourIp).length < 2 ^ 16
  headerSum_fits : octetSum ((p.bytes ourIp).take ipHdrLen) < 2 ^ 32
  segmentSum_fits : octetSum (pseudoHeader ourIp p.dstIp (p.segmentBytes ourIp).length ++
    p.segmentBytes ourIp) < 2 ^ 32

theorem length_segmentBytes (ourIp : Ipv4Addr) (p : TcpPacket) :
    (p.segmentBytes ourIp).length = 20 + p.segment.payload.length :=
  length_buildTcpSegment ..

theorem length_bytes (ourIp : Ipv4Addr) (p : TcpPacket) :
    (p.bytes ourIp).length = 40 + p.segment.payload.length := by
  rw [bytes, length_buildIpv4, length_segmentBytes, ipHdrLen]
  omega

/-- The length field of a packet, as far as it has room. -/
theorem parseIpv4_bytes (ourIp : Ipv4Addr) (p : TcpPacket) :
    ∃ ipHdr, parseIpv4 (p.bytes ourIp) = some (ipHdr, p.segmentBytes ourIp) ∧
      ipHdr.totalLen = UInt16.ofNat (40 + p.segment.payload.length) ∧
      ipHdr.protocol = ipProtoTcp ∧ ipHdr.src = ourIp ∧ ipHdr.dst = p.dstIp := by
  refine ⟨_, parseIpv4_buildIpv4 .., ?_, rfl, rfl, rfl⟩
  show UInt16.ofNat (20 + (p.segmentBytes ourIp).length) = _
  rw [length_segmentBytes, ← Nat.add_assoc]

/-- A packet with at most 65495 bytes of data is valid. -/
theorem valid_of_length_le {p : TcpPacket} (ourIp : Ipv4Addr)
    (hlen : p.segment.payload.length ≤ 65495) : p.Valid ourIp := by
  have hbytes : (p.bytes ourIp).length = 40 + p.segment.payload.length := p.length_bytes ourIp
  have hsegment : (p.segmentBytes ourIp).length = 20 + p.segment.payload.length :=
    p.length_segmentBytes ourIp
  obtain ⟨ipHdr, hparse, htotal, -, hsrc, hdst⟩ := p.parseIpv4_bytes ourIp
  refine ⟨by omega, ⟨ipHdr, _, hparse, ?_, ?_⟩, ?_, ?_, ?_, ?_⟩
  · rw [htotal, UInt16.toNat_ofNat', hbytes]
    exact Nat.mod_eq_of_lt (by omega)
  · rw [hsrc, hdst]
    exact verifyTcpChecksum_buildTcpSegment _ _ _ _ _ _ _ _ _ hlen
  · rw [tcpHdrLen]
    omega
  · rw [hsegment, ipHdrLen]
    omega
  · have hsum := octetSum_le ((p.bytes ourIp).take ipHdrLen)
    have htake : ((p.bytes ourIp).take ipHdrLen).length ≤ 20 := List.length_take_le _ _
    omega
  · have hsum := octetSum_le (pseudoHeader ourIp p.dstIp (p.segmentBytes ourIp).length ++
      p.segmentBytes ourIp)
    have hfull : (pseudoHeader ourIp p.dstIp (p.segmentBytes ourIp).length ++
        p.segmentBytes ourIp).length = 32 + p.segment.payload.length := by
      rw [List.length_append, hsegment, ← Nat.add_assoc]
      rfl
    rw [hfull] at hsum
    omega

/-- More do not fit in the length field. -/
theorem not_valid_of_lt_length {p : TcpPacket} (ourIp : Ipv4Addr)
    (hlen : 65495 < p.segment.payload.length) : ¬ p.Valid ourIp := by
  intro hvalid
  have hle := hvalid.length_le
  rw [length_bytes] at hle
  omega

end TcpPacket

/-- A segment that got through to `process`. -/
structure Arrival where
  remoteIp : Ipv4Addr
  header : TcpHeader
  payload : List UInt8
  deriving DecidableEq, Repr

/-- The TCP branch of `handle_ipv4` on a packet, up to the call of `process`. -/
def receiveTcp (packet : List UInt8) : Option Arrival :=
  match parseIpv4 packet with
  | none => none
  | some (ipHdr, ipPayload) =>
    if ipHdr.protocol ≠ ipProtoTcp then none
    else if verifyTcpChecksum ipHdr.src ipHdr.dst ipPayload = false then none
    else (parseTcp ipPayload).map fun r => ⟨ipHdr.src, r.1, r.2⟩

/-- What the other stack makes of a packet of ours: the segment it was built from. -/
theorem receiveTcp_bytes {p : TcpPacket} (ourIp : Ipv4Addr)
    (hlen : p.segment.payload.length ≤ 65495) :
    ∃ header, receiveTcp (p.bytes ourIp) = some ⟨ourIp, header, p.segment.payload⟩ ∧
      header.srcPort = p.srcPort ∧ header.dstPort = p.segment.dstPort ∧
      header.seq = p.segment.seq ∧ header.ack = p.segment.ack ∧
      header.flags = p.segment.flags ∧ header.window = defaultWindow := by
  obtain ⟨ipHdr, hparse, -, hproto, hsrc, hdst⟩ := p.parseIpv4_bytes ourIp
  have hverify : verifyTcpChecksum ourIp p.dstIp (p.segmentBytes ourIp) = true :=
    verifyTcpChecksum_buildTcpSegment _ _ _ _ _ _ _ _ _ hlen
  obtain ⟨header, htcp, hfields⟩ : ∃ header,
      parseTcp (p.segmentBytes ourIp) = some (header, p.segment.payload) ∧
        header.srcPort = p.srcPort ∧ header.dstPort = p.segment.dstPort ∧
        header.seq = p.segment.seq ∧ header.ack = p.segment.ack ∧
        header.flags = p.segment.flags ∧ header.window = defaultWindow :=
    ⟨_, parseTcp_buildTcpSegment .., rfl, rfl, rfl, rfl, rfl, rfl⟩
  refine ⟨header, ?_, hfields⟩
  simp only [receiveTcp, hparse, hproto, hsrc, hdst, hverify, htcp, ne_eq, not_true,
    if_false, Bool.true_eq_false, Option.map_some]

/-! ## Data in pieces -/

/-- The pieces, each at its sequence number, lie end to end from `seq` on and make up
the data. -/
def LaidOut (seq : UInt32) (data : List UInt8) : List (UInt32 × List UInt8) → Prop
  | [] => data = []
  | (pieceSeq, piece) :: pieces =>
    pieceSeq = seq ∧ ∃ rest, data = piece ++ rest ∧ LaidOut (seq + segLen piece) rest pieces

theorem laidOut_singleton (seq : UInt32) (data : List UInt8) : LaidOut seq data [(seq, data)] :=
  ⟨rfl, [], (List.append_nil data).symm, rfl⟩

namespace TcpCore

/-- The packets that leave for `TcpStack::send`. -/
def sendPackets (c : TcpCore) (key : ConnKey) (data : List UInt8) : List TcpPacket :=
  let (tcp, segs) := c.tcp.update key (·.send data) []
  let remoteIp := ((tcp.get key).map (·.remoteIp)).getD ⟨0, 0, 0, 0⟩
  ({ c with tcp := tcp } : TcpCore).packets (some key) remoteIp segs

/-- The one packet in which the data of an established connection leave. -/
def dataPacket (key : ConnKey) (t : Tcb) (data : List UInt8) : TcpPacket where
  srcPort := key.localPort
  dstIp := t.remoteIp
  segment := {
    flags := tcpPsh ||| tcpAck, seq := t.sndNxt, ack := t.rcvNxt, payload := data
    dstPort := t.remotePort }

theorem sendPackets_established {c : TcpCore} {key : ConnKey} {t : Tcb} (ht : c.get key = some t)
    (hst : t.state = .established) (data : List UInt8) :
    c.sendPackets key data = [dataPacket key t data] := by
  have hlookup : c.tcp.get key = some t := ht
  have hsend : (t.send data).1.remoteIp = t.remoteIp ∧
      (t.send data).2 = [(dataPacket key t data).segment] := by
    simp [Tcb.send, hst, dataPacket]
  have hsegs : (c.tcp.update key (·.send data) []).2 = [(dataPacket key t data).segment] := by
    rw [TcpManager.update_snd, hlookup]
    exact hsend.2
  have hremote : ((c.tcp.update key (·.send data) []).1.get key).map (·.remoteIp) =
      some t.remoteIp := by
    rw [TcpManager.get_update_self, hlookup, Option.map_some, Option.map_some, hsend.1]
  simp only [sendPackets, hsegs, hremote, Option.getD_some, packets]
  rfl

/-- What the peer gets of the data: each payload at its sequence number. -/
def sentPieces (c : TcpCore) (key : ConnKey) (data : List UInt8) : List (UInt32 × List UInt8) :=
  (c.sendPackets key data).filterMap fun p =>
    (receiveTcp (p.bytes c.ourIp)).map fun r => (r.header.seq, r.payload)

end TcpCore

/-- **Which data leave as valid packets.**  For every established connection and all
data, the packets that leave for `send` are valid and carry the data from the old
`snd_nxt` on exactly if the data are at most 65495 bytes, which is what one packet has
room for. -/
theorem send_valid_iff (c : TcpCore) (key : ConnKey) (t : Tcb) (ht : c.get key = some t)
    (hst : t.state = .established) (data : List UInt8) :
    ((∀ p ∈ c.sendPackets key data, p.Valid c.ourIp) ∧
        LaidOut t.sndNxt data (c.sentPieces key data)) ↔ data.length ≤ 65495 := by
  have hpackets : c.sendPackets key data = [TcpCore.dataPacket key t data] :=
    TcpCore.sendPackets_established ht hst data
  constructor
  · rintro ⟨hvalid, -⟩
    by_contra hlong
    refine TcpPacket.not_valid_of_lt_length c.ourIp ?_
      (hvalid (TcpCore.dataPacket key t data) (by simp [hpackets]))
    exact Nat.lt_of_not_le hlong
  · intro hlen
    have hfits : (TcpCore.dataPacket key t data).segment.payload.length ≤ 65495 := hlen
    refine ⟨?_, ?_⟩
    · intro p hp
      rw [hpackets, List.mem_singleton] at hp
      rw [hp]
      exact TcpPacket.valid_of_length_le c.ourIp hfits
    · obtain ⟨header, hreceive, -, -, hseq, -⟩ := receiveTcp_bytes c.ourIp hfits
      rw [TcpCore.sentPieces, hpackets, List.filterMap_cons, hreceive]
      simp only [Option.map_some, hseq, List.filterMap_nil]
      exact laidOut_singleton t.sndNxt data

/-- What the demo connection can send in one call. -/
theorem demo_send_valid :
    let c := run TcpCore.step demoStack demoHandshake
    (∀ p ∈ c.sendPackets demoKey [104, 105], p.Valid c.ourIp) ∧
      LaidOut demoOpenTcb.sndNxt [104, 105] (c.sentPieces demoKey [104, 105]) :=
  (send_valid_iff (run TcpCore.step demoStack demoHandshake) demoKey demoOpenTcb (by decide)
    (by decide) [104, 105]).mpr (by decide)

/-- **One byte too many.**  The demo connection sends 65496 bytes: the packet of 65536
bytes says that its length is 0. -/
theorem demo_send_truncated :
    let c := run TcpCore.step demoStack demoHandshake
    let data := List.replicate 65496 0
    c.get demoKey = some demoOpenTcb ∧ demoOpenTcb.state = .established ∧
      (∃ p ipHdr segment, c.sendPackets demoKey data = [p] ∧ (p.bytes c.ourIp).length = 65536 ∧
        parseIpv4 (p.bytes c.ourIp) = some (ipHdr, segment) ∧ ipHdr.totalLen = 0) ∧
      ¬ ((∀ p ∈ c.sendPackets demoKey data, p.Valid c.ourIp) ∧
        LaidOut demoOpenTcb.sndNxt data (c.sentPieces demoKey data)) := by
  intro c data
  have hget : c.get demoKey = some demoOpenTcb := by decide
  have hlen : data.length = 65496 := List.length_replicate
  have hpackets := TcpCore.sendPackets_established hget rfl data
  obtain ⟨ipHdr, hparse, htotal, -⟩ :=
    (TcpCore.dataPacket demoKey demoOpenTcb data).parseIpv4_bytes c.ourIp
  refine ⟨hget, rfl, ⟨_, ipHdr, _, hpackets, ?_, hparse, ?_⟩, ?_⟩
  · rw [TcpPacket.length_bytes]
    show 40 + data.length = 65536
    rw [hlen]
  · rw [htotal]
    show UInt16.ofNat (40 + data.length) = 0
    rw [hlen]
    rfl
  · rintro ⟨hvalid, -⟩
    refine TcpPacket.not_valid_of_lt_length c.ourIp ?_
      (hvalid (TcpCore.dataPacket demoKey demoOpenTcb data) (by simp [hpackets]))
    show 65495 < data.length
    omega

end PpcaNetwork.TcpStack
