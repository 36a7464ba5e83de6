import PpcaNetwork.Lib.OnesComplement
import PpcaNetwork.TcpStack.Tcp

/-!
# Frames, packets and segments as bytes

The layers between a segment and the TAP device: `checksum` of `util.rs`, the Ethernet
frame of `ethernet.rs`, the IPv4 header of `ip.rs`, and the TCP header and checksum of
`tcp.rs`, each with its parser and its builder.

* `toNat_checksum` — the checksum as a ones'-complement sum, while it fits in 32 bits.
* `checksum_filled` — a checksum field filled in this way verifies.
* `parseFrame_buildFrame`, `parseIpv4_buildIpv4`, `parseTcp_buildTcpSegment`,
  `verifyTcpChecksum_buildTcpSegment` — one layer each.
* `wire_roundTrip` — all of them together.

Lengths that are written into a field are narrowed as `as u16` does, and the sum of
`checksum` is a `UInt32`, which wraps.
-/

namespace PpcaNetwork.TcpStack

/-! ## The checksum -/

/-- The loop of `checksum` over the words, and the odd byte behind them. -/
def sumWords : List UInt8 → UInt32 → UInt32
  | b0 :: b1 :: rest, sum => sumWords rest (sum + (ofOctets16 b0 b1).toUInt32)
  | [b0], sum => sum + b0.toUInt32 <<< 8
  | [], sum => sum

theorem toNat_low_add_high (sum : UInt32) :
    ((sum &&& (0xFFFF : UInt32)) + (sum >>> 16)).toNat = endAround 65536 sum.toNat := by
  have hlt := sum.toNat_lt
  have hlow : sum.toNat &&& 65535 = sum.toNat % 65536 := Nat.and_two_pow_sub_one_eq_mod _ 16
  simp only [UInt32.toNat_add, UInt32.toNat_and, UInt32.toNat_shiftRight, UInt32.reduceToNat,
    Nat.reduceMod, Nat.shiftRight_eq_div_pow, hlow, endAround]
  omega

theorem shiftRight_eq_zero_iff (sum : UInt32) : sum >>> 16 = 0 ↔ sum.toNat < 65536 := by
  rw [← UInt32.toNat_inj]
  simp only [UInt32.toNat_shiftRight, UInt32.reduceToNat, Nat.reduceMod,
    Nat.shiftRight_eq_div_pow]
  omega

/-- `while sum >> 16 != 0 { sum = (sum & 0xFFFF) + (sum >> 16) }`. -/
def foldSum (sum : UInt32) : UInt32 :=
  if sum >>> 16 = 0 then sum else foldSum ((sum &&& (0xFFFF : UInt32)) + (sum >>> 16))
termination_by sum.toNat
decreasing_by
  rw [toNat_low_add_high]
  refine endAround_lt (by decide) (Nat.le_of_not_lt ?_)
  rwa [← shiftRight_eq_zero_iff]

/-- `util::checksum`. -/
def checksum (data : List UInt8) : UInt16 := ~~~ (foldSum (sumWords data 0)).toUInt16

/-- While the sum fits in 32 bits, the loop computes it. -/
theorem toNat_sumWords (data : List UInt8) (sum : UInt32)
    (hfit : sum.toNat + octetSum data < 2 ^ 32) :
    (sumWords data sum).toNat = sum.toNat + octetSum data := by
  induction data using octetSum.induct generalizing sum with
  | case1 b0 b1 rest ih =>
    rw [octetSum] at hfit
    have hword : (sum + (ofOctets16 b0 b1).toUInt32).toNat =
        sum.toNat + (ofOctets16 b0 b1).toNat := by
      rw [UInt32.toNat_add, UInt16.toNat_toUInt32]
      exact Nat.mod_eq_of_lt (by omega)
    rw [sumWords, ih _ (by rw [hword]; omega), hword, octetSum]
    omega
  | case2 b0 =>
    rw [octetSum] at hfit
    have hbyte := b0.toNat_lt
    have hshift : (b0.toUInt32 <<< 8).toNat = 256 * b0.toNat := by
      simp only [UInt32.toNat_shiftLeft, UInt8.toNat_toUInt32, UInt32.reduceToNat, Nat.reduceMod,
        Nat.shiftLeft_eq]
      omega
    rw [sumWords, octetSum, UInt32.toNat_add, hshift]
    exact Nat.mod_eq_of_lt hfit
  | case3 => rfl

theorem toNat_foldSum (sum : UInt32) :
    (foldSum sum).toNat = foldCarries 65536 (by decide) sum.toNat := by
  induction sum using foldSum.induct with
  | case1 sum hdone =>
    rw [foldSum, if_pos hdone, foldCarries_of_lt _ ((shiftRight_eq_zero_iff sum).mp hdone)]
  | case2 sum hcarry ih =>
    have hle : 65536 ≤ sum.toNat := by
      rw [shiftRight_eq_zero_iff] at hcarry
      omega
    rw [foldSum, if_neg hcarry, ih, foldCarries_of_le _ hle, toNat_low_add_high]

/-- The checksum is the complement of the folded sum. -/
theorem toNat_checksum (data : List UInt8) (hfit : octetSum data < 2 ^ 32) :
    (checksum data).toNat = 65535 - foldCarries 65536 (by decide) (octetSum data) := by
  have hsum : (sumWords data 0).toNat = octetSum data := by
    rw [toNat_sumWords data 0 (by simpa using hfit)]
    simp
  have hlt := foldCarries_lt (b := 65536) (by decide) (octetSum data)
  rw [checksum, UInt16.toNat_not, UInt32.toNat_toUInt16, toNat_foldSum, hsum,
    Nat.mod_eq_of_lt hlt]
  rfl

/-- A checksum is zero exactly if the sum folds to the all-ones zero. -/
theorem checksum_eq_zero_iff {data : List UInt8} (hfit : octetSum data < 2 ^ 32) :
    checksum data = 0 ↔ foldCarries 65536 (by decide) (octetSum data) = 65535 := by
  have hlt := foldCarries_lt (b := 65536) (by decide) (octetSum data)
  rw [← UInt16.toNat_inj, toNat_checksum data hfit]
  simp only [UInt16.reduceToNat]
  omega

/-- A checksum is zero exactly if the sum is a positive multiple of 65535. -/
theorem checksum_eq_zero_iff_dvd {data : List UInt8} (hfit : octetSum data < 2 ^ 32) :
    checksum data = 0 ↔ 0 < octetSum data ∧ 65535 ∣ octetSum data :=
  (checksum_eq_zero_iff hfit).trans (foldCarries_eq_ones_iff (by decide) _)

/-- **A filled-in checksum verifies.**  The checksum of bytes with a zero field at an
even offset, written into that field, makes the checksum of the whole zero. -/
theorem checksum_filled {front behind : List UInt8} (heven : 2 ∣ front.length)
    (hfit : octetSum front + octetSum behind + 65535 < 2 ^ 32) :
    checksum (front ++ octets16 (checksum (front ++ octets16 0 ++ behind)) ++ behind) = 0 := by
  have hsum : ∀ x : UInt16,
      octetSum (front ++ octets16 x ++ behind) = octetSum front + x.toNat + octetSum behind := by
    intro x
    rw [octetSum_append (by rw [List.length_append, length_octets16]; omega),
      octetSum_append heven, octetSum_octets16]
  have hzero : octetSum (front ++ octets16 0 ++ behind) = octetSum front + octetSum behind := by
    rw [hsum]
    simp
  have hcheck := toNat_checksum (front ++ octets16 0 ++ behind) (by omega)
  rw [hzero] at hcheck
  have hfill := foldCarries_add_complement (b := 65536) (by decide)
    (octetSum front + octetSum behind)
  rw [checksum_eq_zero_iff (by rw [hsum]; omega), hsum, hcheck, Nat.add_right_comm]
  exact hfill

/-! ## Buffers -/

/-- `buf[i..i + bytes.len()].copy_from_slice(bytes)`. -/
def copyAt (buf : List UInt8) (i : Nat) (bytes : List UInt8) : List UInt8 :=
  buf.take i ++ bytes ++ buf.drop (i + bytes.length)

theorem copyAt_eq (front : List UInt8) {old bytes : List UInt8} (behind : List UInt8) {i : Nat}
    (hfront : front.length = i) (hold : old.length = bytes.length) :
    copyAt (front ++ old ++ behind) i bytes = front ++ bytes ++ behind := by
  subst hfront
  rw [copyAt, List.append_assoc front old, List.take_left' rfl, ← hold, ← List.append_assoc,
    ← List.length_append, List.drop_left' rfl]

/-- The octets of an address, first to last. -/
def ipOctets (ip : Ipv4Addr) : List UInt8 := [ip.a, ip.b, ip.c, ip.d]

@[simp] theorem length_ipOctets (ip : Ipv4Addr) : (ipOctets ip).length = 4 := rfl

/-! ## Ethernet -/

/-- A hardware address: the source's `[u8; 6]`. -/
structure MacAddr where
  a : UInt8
  b : UInt8
  c : UInt8
  d : UInt8
  e : UInt8
  f : UInt8
  deriving DecidableEq, Repr

/-- The octets of a hardware address, first to last. -/
def macOctets (mac : MacAddr) : List UInt8 := [mac.a, mac.b, mac.c, mac.d, mac.e, mac.f]

/-- The length of an Ethernet header. -/
def ethHdrLen : Nat := 14

/-- The type of a frame with an IPv4 packet. -/
def ethTypeIpv4 : UInt16 := 0x0800

/-- An Ethernet header. -/
structure EthernetHdr where
  dst : MacAddr
  src : MacAddr
  ethertype : UInt16
  deriving DecidableEq, Repr

/-- `parse_frame`: the header and the payload. -/
def parseFrame (data : List UInt8) : Option (EthernetHdr × List UInt8) :=
  if h : data.length < ethHdrLen then none
  else
    have hlen : 14 ≤ data.length := Nat.le_of_not_lt h
    some ({
      dst := ⟨data[0], data[1], data[2], data[3], data[4], data[5]⟩
      src := ⟨data[6], data[7], data[8], data[9], data[10], data[11]⟩
      ethertype := ofOctets16 data[12] data[13] }, data.drop ethHdrLen)

/-- `build_frame`. -/
def buildFrame (dst src : MacAddr) (ethertype : UInt16) (payload : List UInt8) : List UInt8 :=
  macOctets dst ++ macOctets src ++ octets16 ethertype ++ payload

theorem parseFrame_buildFrame (dst src : MacAddr) (ethertype : UInt16) (payload : List UInt8) :
    parseFrame (buildFrame dst src ethertype payload) =
      some ({ dst := dst, src := src, ethertype := ethertype }, payload) := by
  simp [parseFrame, buildFrame, ethHdrLen, macOctets, octets16, ofOctets16_octets16]

/-! ## IPv4 -/

/-- The protocol ICMP. -/
def ipProtoIcmp : UInt8 := 1

/-- The protocol TCP. -/
def ipProtoTcp : UInt8 := 6

/-- The length of an IPv4 header without options. -/
def ipHdrLen : Nat := 20

/-- An IPv4 header without its options. -/
structure Ipv4Header where
  versionIhl : UInt8
  dscpEcn : UInt8
  totalLen : UInt16
  id : UInt16
  flagsFrag : UInt16
  ttl : UInt8
  protocol : UInt8
  checksum : UInt16
  src : Ipv4Addr
  dst : Ipv4Addr
  deriving DecidableEq, Repr

/-- `verify_ip_checksum`. -/
def verifyIpChecksum (header : List UInt8) : Bool := checksum header = 0

/-- `parse_ipv4`: the header and everything behind it.  A checksum field of zero is
not verified. -/
def parseIpv4 (data : List UInt8) : Option (Ipv4Header × List UInt8) :=
  if h : data.length < ipHdrLen then none
  else
    have hlen : 20 ≤ data.length := Nat.le_of_not_lt h
    let ihl := (data[0] &&& (0x0F : UInt8)).toNat * 4
    if ihl < ipHdrLen ∨ data.length < ihl then none
    else
      let cs := ofOctets16 data[10] data[11]
      if cs ≠ 0 ∧ verifyIpChecksum (data.take ihl) = false then none
      else
        some ({
          versionIhl := data[0]
          dscpEcn := data[1]
          totalLen := ofOctets16 data[2] data[3]
          id := ofOctets16 data[4] data[5]
          flagsFrag := ofOctets16 data[6] data[7]
          ttl := data[8]
          protocol := data[9]
          checksum := cs
          src := ⟨data[12], data[13], data[14], data[15]⟩
          dst := ⟨data[16], data[17], data[18], data[19]⟩ }, data.drop ihl)

/-- `(IP_HDR_LEN + payload.len()) as u16`. -/
def totalLen (payload : List UInt8) : UInt16 := UInt16.ofNat (ipHdrLen + payload.length)

/-- `build_ipv4`. -/
def buildIpv4 (src dst : Ipv4Addr) (protocol ttl : UInt8) (payload : List UInt8) : List UInt8 :=
  let buf := [0x45, 0] ++ octets16 (totalLen payload) ++ octets16 0 ++ octets16 0x4000 ++
    [ttl, protocol] ++ octets16 0 ++ ipOctets src ++ ipOctets dst ++ payload
  copyAt buf 10 (octets16 (checksum (buf.take ipHdrLen)))

/-- What stands before the checksum field of a header. -/
def ipFront (protocol ttl : UInt8) (payload : List UInt8) : List UInt8 :=
  [0x45, 0] ++ octets16 (totalLen payload) ++ octets16 0 ++ octets16 0x4000 ++ [ttl, protocol]

/-- The checksum that `build_ipv4` fills in. -/
def ipChecksum (src dst : Ipv4Addr) (protocol ttl : UInt8) (payload : List UInt8) : UInt16 :=
  checksum (ipFront protocol ttl payload ++ octets16 0 ++ (ipOctets src ++ ipOctets dst))

theorem buildIpv4_eq (src dst : Ipv4Addr) (protocol ttl : UInt8) (payload : List UInt8) :
    buildIpv4 src dst protocol ttl payload =
      ipFront protocol ttl payload ++ octets16 (ipChecksum src dst protocol ttl payload) ++
        (ipOctets src ++ ipOctets dst) ++ payload := by
  have hfill : copyAt (ipFront protocol ttl payload ++ octets16 0 ++
      (ipOctets src ++ ipOctets dst ++ payload)) 10
        (octets16 (ipChecksum src dst protocol ttl payload)) = _ :=
    copyAt_eq (ipFront protocol ttl payload) (ipOctets src ++ ipOctets dst ++ payload) rfl rfl
  rw [List.append_assoc _ (ipOctets src ++ ipOctets dst), ← hfill]
  rfl

theorem length_buildIpv4 (src dst : Ipv4Addr) (protocol ttl : UInt8) (payload : List UInt8) :
    (buildIpv4 src dst protocol ttl payload).length = ipHdrLen + payload.length := by
  rw [buildIpv4_eq, List.length_append]
  rfl

/-- The header that `build_ipv4` writes verifies. -/
theorem verifyIpChecksum_buildIpv4 (src dst : Ipv4Addr) (protocol ttl : UInt8)
    (payload : List UInt8) :
    verifyIpChecksum ((buildIpv4 src dst protocol ttl payload).take ipHdrLen) = true := by
  have htake : ∀ x, ((ipFront protocol ttl payload ++ octets16 x ++
      (ipOctets src ++ ipOctets dst)) ++ payload).take ipHdrLen =
        ipFront protocol ttl payload ++ octets16 x ++ (ipOctets src ++ ipOctets dst) :=
    fun x => List.take_left' rfl
  rw [buildIpv4_eq, htake, verifyIpChecksum, decide_eq_true_eq]
  have hfront := octetSum_le (ipFront protocol ttl payload)
  have hbehind := octetSum_le (ipOctets src ++ ipOctets dst)
  have hlen : (ipFront protocol ttl payload).length = 10 := rfl
  rw [hlen] at hfront
  rw [List.length_append, length_ipOctets, length_ipOctets] at hbehind
  exact checksum_filled (by rw [hlen]; decide) (by omega)

/-- **The IPv4 layer.**  Every packet that `build_ipv4` writes is parsed back, with the
length field as far as it has room. -/
theorem parseIpv4_buildIpv4 (src dst : Ipv4Addr) (protocol ttl : UInt8) (payload : List UInt8) :
    parseIpv4 (buildIpv4 src dst protocol ttl payload) =
      some ({
        versionIhl := 0x45
        dscpEcn := 0
        totalLen := totalLen payload
        id := 0
        flagsFrag := 0x4000
        ttl := ttl
        protocol := protocol
        checksum := ipChecksum src dst protocol ttl payload
        src := src
        dst := dst }, payload) := by
  have hverify := verifyIpChecksum_buildIpv4 src dst protocol ttl payload
  rw [buildIpv4_eq] at hverify ⊢
  simp only [ipFront, octets16, ipOctets, List.cons_append, List.nil_append, ipHdrLen]
    at hverify ⊢
  simp [parseIpv4, ipHdrLen, ofOctets16_octets16]
  refine ⟨?_, by decide, by decide⟩
  intro _
  simpa using hverify

/-! ## ICMP -/

/-- The type of an echo request. -/
def icmpEchoRequest : UInt8 := 8

/-- The type of an echo reply. -/
def icmpEchoReply : UInt8 := 0

/-- The length of an ICMP header. -/
def icmpHdrSize : Nat := 8

/-- `build_icmp_echo_reply`: the request with its type and checksum replaced. -/
def buildIcmpEchoReply (echoRequest : List UInt8) : Option (List UInt8) :=
  if h : echoRequest.length < icmpHdrSize then none
  else
    have hlen : 8 ≤ echoRequest.length := Nat.le_of_not_lt h
    if echoRequest[0] ≠ icmpEchoRequest then none
    else
      let reply := ((echoRequest.set 0 icmpEchoReply).set 2 0).set 3 0
      some (copyAt reply 2 (octets16 (checksum reply)))

/-! ## TCP -/

/-- The length of a TCP header without options. -/
def tcpHdrLen : Nat := 20

/-- `parse_tcp`: the header and the payload behind it and its options. -/
def parseTcp (data : List UInt8) : Option (TcpHeader × List UInt8) :=
  if h : data.length < tcpHdrLen then none
  else
    have hlen : 20 ≤ data.length := Nat.le_of_not_lt h
    let dataOffset := data[12] >>> 4
    let hdrLen := dataOffset.toNat * 4
    if hdrLen < tcpHdrLen ∨ data.length < hdrLen then none
    else
      some ({
        srcPort := ofOctets16 data[0] data[1]
        dstPort := ofOctets16 data[2] data[3]
        seq := ofOctets32 data[4] data[5] data[6] data[7]
        ack := ofOctets32 data[8] data[9] data[10] data[11]
        dataOffset := dataOffset
        flags := data[13]
        window := ofOctets16 data[14] data[15]
        checksum := ofOctets16 data[16] data[17]
        urgent := ofOctets16 data[18] data[19] }, data.drop hdrLen)

/-- `build_tcp_header`, with the checksum and the urgent pointer left zero. -/
def buildTcpHeader (srcPort dstPort : UInt16) (seq ack : UInt32) (flags : UInt8)
    (window : UInt16) : List UInt8 :=
  octets16 srcPort ++ octets16 dstPort ++ octets32 seq ++ octets32 ack ++
    [(5 : UInt8) <<< 4, flags] ++ octets16 window ++ octets16 0 ++ octets16 0

/-- The pseudo-header of `build_tcp_segment` and `verify_tcp_checksum`. -/
def pseudoHeader (srcIp dstIp : Ipv4Addr) (tcpLen : Nat) : List UInt8 :=
  ipOctets srcIp ++ ipOctets dstIp ++ [0, 6] ++ octets16 (UInt16.ofNat tcpLen)

/-- `build_tcp_segment`. -/
def buildTcpSegment (srcIp dstIp : Ipv4Addr) (srcPort dstPort : UInt16) (seq ack : UInt32)
    (flags : UInt8) (window : UInt16) (payload : List UInt8) : List UInt8 :=
  let header := buildTcpHeader srcPort dstPort seq ack flags window
  let tcpLen := tcpHdrLen + payload.length
  let cs := checksum (pseudoHeader srcIp dstIp tcpLen ++ header ++ payload)
  copyAt header 16 (octets16 cs) ++ payload

/-- `verify_tcp_checksum`. -/
def verifyTcpChecksum (srcIp dstIp : Ipv4Addr) (segment : List UInt8) : Bool :=
  checksum (pseudoHeader srcIp dstIp segment.length ++ segment) = 0

section Tcp

variable (srcIp dstIp : Ipv4Addr) (srcPort dstPort : UInt16) (seq ack : UInt32) (flags : UInt8)
  (window : UInt16) (payload : List UInt8)

/-- What stands before the checksum field of a header. -/
def tcpFront : List UInt8 :=
  octets16 srcPort ++ octets16 dstPort ++ octets32 seq ++ octets32 ack ++
    [(5 : UInt8) <<< 4, flags] ++ octets16 window

/-- The checksum that `build_tcp_segment` fills in. -/
def tcpChecksum : UInt16 :=
  checksum (pseudoHeader srcIp dstIp (tcpHdrLen + payload.length) ++
    tcpFront srcPort dstPort seq ack flags window ++ octets16 0 ++ (octets16 0 ++ payload))

theorem buildTcpSegment_eq :
    buildTcpSegment srcIp dstIp srcPort dstPort seq ack flags window payload =
      tcpFront srcPort dstPort seq ack flags window ++
        octets16 (tcpChecksum srcIp dstIp srcPort dstPort seq ack flags window payload) ++
          (octets16 0 ++ payload) := by
  have hfill : copyAt (tcpFront srcPort dstPort seq ack flags window ++ octets16 0 ++ octets16 0)
      16 (octets16 (tcpChecksum srcIp dstIp srcPort dstPort seq ack flags window payload)) = _ :=
    copyAt_eq (tcpFront srcPort dstPort seq ack flags window) (octets16 0) rfl rfl
  rw [← List.append_assoc, ← hfill]
  simp only [buildTcpSegment, buildTcpHeader, tcpChecksum, tcpFront, List.append_assoc]

theorem length_buildTcpSegment :
    (buildTcpSegment srcIp dstIp srcPort dstPort seq ack flags window payload).length =
      tcpHdrLen + payload.length := by
  rw [buildTcpSegment_eq, List.length_append, List.length_append, List.length_append,
    length_octets16, length_octets16]
  show 16 + 2 + (2 + payload.length) = 20 + payload.length
  omega

/-- Every segment that `build_tcp_segment` writes is parsed back. -/
theorem parseTcp_buildTcpSegment :
    parseTcp (buildTcpSegment srcIp dstIp srcPort dstPort seq ack flags window payload) =
      some ({
        srcPort := srcPort
        dstPort := dstPort
        seq := seq
        ack := ack
        dataOffset := 5
        flags := flags
        window := window
        checksum := tcpChecksum srcIp dstIp srcPort dstPort seq ack flags window payload
        urgent := 0 }, payload) := by
  rw [buildTcpSegment_eq]
  simp only [tcpFront, octets16, octets32, List.cons_append, List.nil_append]
  simp [parseTcp, tcpHdrLen, ofOctets16_octets16, ofOctets32_octets32]
  exact ⟨by decide, by decide⟩

/-- **The TCP layer.**  The checksum of a segment verifies while the words of the
pseudo-header and the segment fit in the 32 bits of the sum. -/
theorem verifyTcpChecksum_of_fits (hlen : payload.length ≤ 131040) :
    verifyTcpChecksum srcIp dstIp
      (buildTcpSegment srcIp dstIp srcPort dstPort seq ack flags window payload) = true := by
  have hpseudo : (pseudoHeader srcIp dstIp (tcpHdrLen + payload.length)).length = 12 := rfl
  have hfront : (tcpFront srcPort dstPort seq ack flags window).length = 16 := rfl
  have hfit : octetSum (pseudoHeader srcIp dstIp (tcpHdrLen + payload.length) ++
      tcpFront srcPort dstPort seq ack flags window) + octetSum (octets16 0 ++ payload) + 65535 <
        2 ^ 32 := by
    have h1 := octetSum_le (pseudoHeader srcIp dstIp (tcpHdrLen + payload.length) ++
      tcpFront srcPort dstPort seq ack flags window)
    have h2 := octetSum_le (octets16 0 ++ payload)
    rw [List.length_append, hpseudo, hfront] at h1
    rw [List.length_append, length_octets16] at h2
    omega
  have hfill := checksum_filled (by rw [List.length_append, hpseudo, hfront]; decide) hfit
  rw [verifyTcpChecksum, decide_eq_true_eq, length_buildTcpSegment, buildTcpSegment_eq,
    ← List.append_assoc (pseudoHeader _ _ _), ← List.append_assoc (pseudoHeader _ _ _),
    tcpChecksum]
  exact hfill

/-- A segment that fits in a packet verifies. -/
theorem verifyTcpChecksum_buildTcpSegment (hlen : payload.length ≤ 65495) :
    verifyTcpChecksum srcIp dstIp
      (buildTcpSegment srcIp dstIp srcPort dstPort seq ack flags window payload) = true :=
  verifyTcpChecksum_of_fits srcIp dstIp srcPort dstPort seq ack flags window payload (by omega)

end Tcp

/-! ## The layers together -/

theorem toNat_totalLen {payload : List UInt8} (hlen : ipHdrLen + payload.length < 2 ^ 16) :
    (totalLen payload).toNat = ipHdrLen + payload.length := by
  rw [totalLen, UInt16.toNat_ofNat']
  exact Nat.mod_eq_of_lt hlen

/-- **The wire round trip.**  A frame around a packet around a segment of at most 65495
bytes is taken apart by the parsers into the fields and the payload it was built from,
its checksum verifies, and its length field is its length. -/
theorem wire_roundTrip (dstMac srcMac : MacAddr) (srcIp dstIp : Ipv4Addr)
    (srcPort dstPort : UInt16) (seq ack : UInt32) (flags : UInt8) (window : UInt16) (ttl : UInt8)
    (payload : List UInt8) (hlen : payload.length ≤ 65495) :
    let segment := buildTcpSegment srcIp dstIp srcPort dstPort seq ack flags window payload
    let packet := buildIpv4 srcIp dstIp ipProtoTcp ttl segment
    parseFrame (buildFrame dstMac srcMac ethTypeIpv4 packet) =
        some ({ dst := dstMac, src := srcMac, ethertype := ethTypeIpv4 }, packet) ∧
      (∃ ipHdr, parseIpv4 packet = some (ipHdr, segment) ∧
        ipHdr.versionIhl = 0x45 ∧ ipHdr.dscpEcn = 0 ∧ ipHdr.totalLen.toNat = packet.length ∧
        ipHdr.id = 0 ∧ ipHdr.flagsFrag = 0x4000 ∧ ipHdr.ttl = ttl ∧
        ipHdr.protocol = ipProtoTcp ∧ ipHdr.src = srcIp ∧ ipHdr.dst = dstIp) ∧
      verifyTcpChecksum srcIp dstIp segment = true ∧
      ∃ tcpHdr, parseTcp segment = some (tcpHdr, payload) ∧
        tcpHdr.srcPort = srcPort ∧ tcpHdr.dstPort = dstPort ∧ tcpHdr.seq = seq ∧
        tcpHdr.ack = ack ∧ tcpHdr.dataOffset = 5 ∧ tcpHdr.flags = flags ∧
        tcpHdr.window = window ∧ tcpHdr.urgent = 0 := by
  intro segment packet
  have hsegment : segment.length = tcpHdrLen + payload.length :=
    length_buildTcpSegment srcIp dstIp srcPort dstPort seq ack flags window payload
  have hpacket : packet.length = ipHdrLen + segment.length :=
    length_buildIpv4 srcIp dstIp ipProtoTcp ttl segment
  have htotal : (totalLen segment).toNat = packet.length := by
    rw [hpacket]
    refine toNat_totalLen ?_
    rw [hsegment, ipHdrLen, tcpHdrLen]
    omega
  refine ⟨parseFrame_buildFrame dstMac srcMac ethTypeIpv4 packet, ?_, ?_, ?_⟩
  · exact ⟨_, parseIpv4_buildIpv4 srcIp dstIp ipProtoTcp ttl segment, rfl, rfl, htotal, rfl, rfl,
      rfl, rfl, rfl, rfl⟩
  · exact verifyTcpChecksum_buildTcpSegment srcIp dstIp srcPort dstPort seq ack flags window
      payload hlen
  · exact ⟨_, parseTcp_buildTcpSegment srcIp dstIp srcPort dstPort seq ack flags window payload,
      rfl, rfl, rfl, rfl, rfl, rfl, rfl, rfl⟩

/-- A segment with an odd number of bytes, through all layers. -/
theorem demo_wire_roundTrip :
    let segment := buildTcpSegment ⟨10, 0, 0, 2⟩ ⟨10, 0, 0, 1⟩ 40000 9999 1001 5001
      (tcpPsh ||| tcpAck) defaultWindow [104, 105, 33]
    (∃ ipHdr, parseIpv4 (buildIpv4 ⟨10, 0, 0, 2⟩ ⟨10, 0, 0, 1⟩ ipProtoTcp 64 segment) =
        some (ipHdr, segment)) ∧
      verifyTcpChecksum ⟨10, 0, 0, 2⟩ ⟨10, 0, 0, 1⟩ segment = true := by
  obtain ⟨-, ⟨ipHdr, hip, -⟩, hverify, -⟩ := wire_roundTrip ⟨2, 0, 0, 0, 0, 1⟩ ⟨2, 0, 0, 0, 0, 2⟩
    ⟨10, 0, 0, 2⟩ ⟨10, 0, 0, 1⟩ 40000 9999 1001 5001 (tcpPsh ||| tcpAck) defaultWindow 64
    [104, 105, 33] (by decide)
  exact ⟨⟨ipHdr, hip⟩, hverify⟩

end PpcaNetwork.TcpStack
