import PpcaNetwork.TcpStack.Wire

/-!
# ICMP messages

The two copies of `icmp.rs`, as far as `ping` and `traceroute` build and read messages.

* `checksum` and `buildEchoRequest` — what is sent.
* `IpPacket` — what a raw socket hands over: a packet with its IP header.
* `parseEchoReply`, `parseIcmpError` — the two parsers.
-/

namespace PpcaNetwork.Toolkit

theorem pos_of_header {data : List UInt8} (h : 20 ≤ data.length) : 0 < data.length :=
  Nat.zero_lt_of_lt h

/-! ## Requests -/

/-- `checksum`, which is that of the stack's `util.rs`, statement by statement. -/
def checksum (data : List UInt8) : UInt16 := TcpStack.checksum data

/-- The type of an echo request. -/
def icmpEchoRequest : UInt8 := 8

/-- The length of an ICMP header. -/
def icmpHeaderSize : Nat := 8

/-- `build_echo_request`. -/
def buildEchoRequest (id seq : UInt16) (payload : List UInt8) : List UInt8 :=
  let len := icmpHeaderSize + payload.length
  let buf := ((List.replicate len 0).set 0 icmpEchoRequest).set 1 0
  let buf := TcpStack.copyAt buf 4 (octets16 id)
  let buf := TcpStack.copyAt buf 6 (octets16 seq)
  let buf := TcpStack.copyAt buf 8 payload
  TcpStack.copyAt buf 2 (octets16 (checksum buf))

/-- The request, with its fields in their order. -/
theorem buildEchoRequest_eq (id seq : UInt16) (payload : List UInt8) :
    buildEchoRequest id seq payload =
      [icmpEchoRequest, 0] ++
        octets16 (checksum ([icmpEchoRequest, 0] ++ octets16 0 ++
          (octets16 id ++ octets16 seq ++ payload))) ++
        (octets16 id ++ octets16 seq ++ payload) := by
  have hzeros : List.replicate (icmpHeaderSize + payload.length) (0 : UInt8) =
      [0, 0, 0, 0, 0, 0, 0, 0] ++ List.replicate payload.length 0 := List.replicate_add ..
  have hpayload : TcpStack.copyAt ([icmpEchoRequest, 0, 0, 0] ++ octets16 id ++ octets16 seq ++
      List.replicate payload.length 0 ++ []) 8 payload = _ :=
    TcpStack.copyAt_eq _ [] rfl List.length_replicate
  have hfill : TcpStack.copyAt ([icmpEchoRequest, 0] ++ octets16 0 ++
      (octets16 id ++ octets16 seq ++ payload)) 2 _ = _ :=
    TcpStack.copyAt_eq [icmpEchoRequest, 0] (octets16 id ++ octets16 seq ++ payload) rfl
      (length_octets16 (checksum ([icmpEchoRequest, 0] ++ octets16 0 ++
        (octets16 id ++ octets16 seq ++ payload)))).symm
  rw [List.append_nil, List.append_nil] at hpayload
  have hfields : TcpStack.copyAt (TcpStack.copyAt (((([0, 0, 0, 0, 0, 0, 0, 0] : List UInt8) ++
      List.replicate payload.length 0).set 0 icmpEchoRequest).set 1 0) 4 (octets16 id)) 6
        (octets16 seq) =
      [icmpEchoRequest, 0, 0, 0] ++ octets16 id ++ octets16 seq ++
        List.replicate payload.length 0 := rfl
  rw [← hfill, buildEchoRequest, hzeros, hfields, hpayload]
  rfl

/-! ## Replies -/

/-- A packet with its IP header, as a raw IPv4 socket gives it. -/
structure IpPacket where
  data : List UInt8
  /-- There is a whole header without options. -/
  header_le : 20 ≤ data.length
  /-- The header with its options lies within the data. -/
  options_le : (data.get ⟨0, pos_of_header header_le⟩ &&& 0x0F).toNat * 4 ≤ data.length

/-- The bytes behind the IP header. -/
def IpPacket.icmpBody (p : IpPacket) : List UInt8 :=
  let ipHdrLen := (p.data.get ⟨0, pos_of_header p.header_le⟩ &&& 0x0F).toNat * 4
  p.data.drop ipHdrLen

/-- `parse_echo_reply`: identifier, sequence number and payload. -/
def parseEchoReply (data : List UInt8) : Option (UInt16 × UInt16 × List UInt8) :=
  if h : data.length < 8 then none
  else if data[0] ≠ 0 then none
  else some (ofOctets16 data[4] data[5], ofOctets16 data[6] data[7], data.drop 8)

/-- A reply is read as what it is built from. -/
theorem parseEchoReply_reply (id seq cs : UInt16) (payload : List UInt8) :
    parseEchoReply ([0, 0] ++ octets16 cs ++ (octets16 id ++ octets16 seq ++ payload)) =
      some (id, seq, payload) := by
  simp [parseEchoReply, octets16, ofOctets16_octets16]

/-- `ICMP_DEST_UNREACH`. -/
def icmpDestUnreach : UInt8 := 3

/-- `ICMP_TIME_EXCEEDED`. -/
def icmpTimeExceeded : UInt8 := 11

/-- `parse_icmp_error`: type and code, and of the packet that is quoted the protocol and the
first eight bytes behind its header. -/
def parseIcmpError (icmpBody : List UInt8) : Option (UInt8 × UInt8 × UInt8 × Vector UInt8 8) :=
  if h : icmpBody.length < 8 + 20 + 8 then none
  else
    let icmpType := icmpBody[0]
    let icmpCode := icmpBody[1]
    if icmpType ≠ icmpTimeExceeded ∧ icmpType ≠ icmpDestUnreach then none
    else
      let innerIp := icmpBody.drop 8
      have hinner : innerIp.length = icmpBody.length - 8 := List.length_drop ..
      let innerIhl := (innerIp[0] &&& 0x0F).toNat * 4
      let protocol := innerIp[9]
      if hihl : innerIp.length < innerIhl + 8 then none
      else
        let transport := Vector.ofFn fun i : Fin 8 => innerIp[innerIhl + i.val]
        some (icmpType, icmpCode, protocol, transport)

end PpcaNetwork.Toolkit
