import PpcaNetwork.TcpStack.Packets

/-!
# Padded packets

Ethernet pads a short packet to 46 bytes, and the length field of IPv4 says where the packet
ends.  `parse_ipv4` reads that field and hands on everything behind the header.

* `parseIpv4_append` — what is appended to a packet becomes a part of its payload.
* `verifyTcpChecksum_padded` — a segment with zeros behind it does not verify any more.
* `receiveTcp_padded` — so it is not received.
* `payload_length_iff` — when the payload is as long as the header says.
-/

namespace PpcaNetwork.TcpStack

/-! ## What the header says -/

namespace Ipv4Header

/-- The upper half of the first byte. -/
def version (h : Ipv4Header) : UInt8 := h.versionIhl >>> 4

/-- The length of the header, in bytes: four times the lower half of the first byte. -/
def headerLen (h : Ipv4Header) : Nat := (h.versionIhl &&& 0x0F).toNat * 4

end Ipv4Header

variable {data payload : List UInt8} {h : Ipv4Header}

/-- What has been parsed: the payload starts where the header says, and the fields stand at
their offsets. -/
theorem parseIpv4_spec (hparse : parseIpv4 data = some (h, payload)) :
    20 ≤ data.length ∧ h.headerLen ≤ data.length ∧ payload = data.drop h.headerLen ∧
      h.versionIhl = data.getD 0 0 ∧ h.totalLen = ofOctets16 (data.getD 2 0) (data.getD 3 0) := by
  unfold parseIpv4 at hparse
  split at hparse
  · exact absurd hparse (by simp)
  · rename_i hlen
    rw [ipHdrLen, Nat.not_lt] at hlen
    simp only at hparse
    split_ifs at hparse with hihl
    obtain ⟨rfl, rfl⟩ := Prod.mk.inj (Option.some.inj hparse)
    refine ⟨hlen, Nat.le_of_not_lt (not_or.mp hihl).2, rfl, ?_, ?_⟩
    · exact (List.getD_eq_getElem _ _ (by omega)).symm
    · rw [List.getD_eq_getElem _ _ (by omega), List.getD_eq_getElem _ _ (by omega)]

/-- What stands behind a packet becomes a part of its payload. -/
theorem parseIpv4_append (hparse : parseIpv4 data = some (h, payload)) (padding : List UInt8) :
    parseIpv4 (data ++ padding) = some (h, payload ++ padding) := by
  unfold parseIpv4 at hparse ⊢
  split at hparse
  · exact absurd hparse (by simp)
  · rename_i hlen
    have hlen' : ¬ (data ++ padding).length < ipHdrLen := by
      rw [List.length_append]
      omega
    rw [dif_neg hlen']
    rw [ipHdrLen, Nat.not_lt] at hlen
    simp (disch := omega) only [List.getElem_append_left] at hparse ⊢
    split_ifs at hparse with hihl hcs
    obtain ⟨-, hlong⟩ := not_or.mp hihl
    have hihl' : ¬ ((data[0] &&& (0x0F : UInt8)).toNat * 4 < ipHdrLen ∨
        (data ++ padding).length < (data[0] &&& (0x0F : UInt8)).toNat * 4) := by
      rw [List.length_append]
      omega
    rw [if_neg hihl', List.take_append_of_le_length (Nat.le_of_not_lt hlong), if_neg hcs,
      List.drop_append_of_le_length (Nat.le_of_not_lt hlong)]
    obtain ⟨rfl, rfl⟩ := Prod.mk.inj (Option.some.inj hparse)
    rfl

/-! ## What becomes of a padded segment -/

/-- The sum over the pseudo-header counts the length of the segment. -/
theorem octetSum_pseudoHeader (srcIp dstIp : Ipv4Addr) (tcpLen : Nat) (segment : List UInt8) :
    octetSum (pseudoHeader srcIp dstIp tcpLen ++ segment) =
      octetSum (ipOctets srcIp ++ ipOctets dstIp ++ [0, 6]) + tcpLen % 65536 +
        octetSum segment := by
  have hten : (ipOctets srcIp ++ ipOctets dstIp ++ [0, 6]).length = 10 := rfl
  have heven : 2 ∣ (pseudoHeader srcIp dstIp tcpLen).length := by
    rw [pseudoHeader, List.length_append, hten, length_octets16]
    decide
  rw [octetSum_append heven, pseudoHeader, octetSum_append (by rw [hten]; decide),
    octetSum_octets16, UInt16.toNat_ofNat']

/-- A segment that verifies does not verify with zeros behind it: they add nothing to the sum,
but the pseudo-header counts them. -/
theorem verifyTcpChecksum_padded {srcIp dstIp : Ipv4Addr} {segment : List UInt8} {k : Nat}
    (hpos : 0 < k) (hfits : segment.length + k < 65535)
    (hverify : verifyTcpChecksum srcIp dstIp segment = true) :
    verifyTcpChecksum srcIp dstIp (segment ++ List.replicate k 0) = false := by
  have hsum := octetSum_le segment
  have hfront := octetSum_le (ipOctets srcIp ++ ipOctets dstIp ++ [0, 6])
  have hten : (ipOctets srcIp ++ ipOctets dstIp ++ [0, 6]).length = 10 := rfl
  rw [hten] at hfront
  have hlen : (segment ++ List.replicate k 0).length = segment.length + k := by
    rw [List.length_append, List.length_replicate]
  have hplain := octetSum_pseudoHeader srcIp dstIp segment.length segment
  have hpadded := octetSum_pseudoHeader srcIp dstIp (segment.length + k)
    (segment ++ List.replicate k 0)
  rw [octetSum_append_zeros, Nat.mod_eq_of_lt (by omega)] at hpadded
  rw [Nat.mod_eq_of_lt (by omega)] at hplain
  rw [verifyTcpChecksum, decide_eq_true_eq, checksum_eq_zero_iff_dvd (by omega), hplain] at hverify
  rw [verifyTcpChecksum, decide_eq_false_iff_not, hlen, checksum_eq_zero_iff_dvd (by omega),
    hpadded]
  -- both sums are multiples of 65535, and they are less than that apart
  omega

/-- A segment that was received is dropped when its packet is padded. -/
theorem receiveTcp_padded {arrival : Arrival} {k : Nat} (hpos : 0 < k)
    (hfits : data.length + k < 65535) (hreceive : receiveTcp data = some arrival) :
    receiveTcp (data ++ List.replicate k 0) = none := by
  unfold receiveTcp at hreceive
  split at hreceive
  · exact absurd hreceive (by simp)
  · rename_i ipHdr segment hparse
    split_ifs at hreceive with hproto hverify
    obtain ⟨-, -, hsegment, -⟩ := parseIpv4_spec hparse
    have hlen : segment.length ≤ data.length := by
      rw [hsegment, List.length_drop]
      exact Nat.sub_le _ _
    have hrefused := verifyTcpChecksum_padded hpos (by omega) (Bool.eq_true_of_not_eq_false hverify)
    rw [receiveTcp, parseIpv4_append hparse]
    simp only [hproto, hrefused, if_false, if_true]

/-! ## The length of the payload -/

/-- What the length field says of a packet holds of its payload, and padding behind the packet
changes neither what is parsed nor what is delivered. -/
structure LengthFollows (data : List UInt8) (h : Ipv4Header) (payload padding : List UInt8) :
    Prop where
  length_eq : payload.length + h.headerLen = h.totalLen.toNat
  version_eq : h.version = 4
  parsed : parseIpv4 (data ++ padding) = some (h, payload)
  delivered : receiveTcp (data ++ padding) = receiveTcp data

/-- **The length of a payload.**  It is what the header says, for packets of version 4, exactly
if the length field is the length of the buffer; and only the empty padding is kept out of
the payload. -/
theorem payload_length_iff (hparse : parseIpv4 data = some (h, payload))
    (padding : List UInt8) :
    LengthFollows data h payload padding ↔
      data.getD 0 0 >>> 4 = 4 ∧
        (ofOctets16 (data.getD 2 0) (data.getD 3 0)).toNat = data.length ∧ padding = [] := by
  obtain ⟨-, hheader, hpayload, hversion, htotal⟩ := parseIpv4_spec hparse
  have hlen : payload.length + h.headerLen = data.length := by
    rw [hpayload, List.length_drop]
    omega
  constructor
  · intro hfollows
    refine ⟨?_, ?_, ?_⟩
    · rw [← hversion]
      exact hfollows.version_eq
    · rw [← htotal, ← hfollows.length_eq, hlen]
    · have hparsed := hfollows.parsed
      rw [parseIpv4_append hparse] at hparsed
      obtain ⟨-, hsame⟩ := Prod.mk.inj (Option.some.inj hparsed)
      exact List.append_right_eq_self.mp hsame
  · rintro ⟨hfour, hfield, rfl⟩
    refine ⟨?_, ?_, ?_, ?_⟩
    · rw [hlen, htotal, hfield]
    · rw [Ipv4Header.version, hversion, hfour]
    · rw [List.append_nil, hparse]
    · rw [List.append_nil]

/-- The acknowledgment of a handshake. -/
def demoBareSegment : TcpPacket where
  srcPort := 40000
  dstIp := ⟨10, 0, 0, 1⟩
  segment := { dstPort := 9999, seq := 1001, ack := 5001, flags := tcpAck, payload := [] }

/-- Its packet, of 40 bytes. -/
def demoBare : List UInt8 := demoBareSegment.bytes ⟨10, 0, 0, 2⟩

theorem demo_payload_length_iff :
    ∃ h payload, parseIpv4 demoBare = some (h, payload) ∧ LengthFollows demoBare h payload [] := by
  obtain ⟨h, hparse, -⟩ := TcpPacket.parseIpv4_bytes ⟨10, 0, 0, 2⟩ demoBareSegment
  exact ⟨h, _, hparse, (payload_length_iff hparse []).mpr (by decide +kernel)⟩

/-- Ethernet pads that packet to 46 bytes, and it is not received any more. -/
theorem demo_padded_dropped :
    (receiveTcp demoBare).isSome = true ∧
      receiveTcp (demoBare ++ List.replicate 6 0) = none ∧
      ¬ ∀ (data : List UInt8) h payload padding, parseIpv4 data = some (h, payload) →
        LengthFollows data h payload padding := by
  have hreceived : ∃ arrival, receiveTcp demoBare = some arrival := by
    obtain ⟨header, hreceive, -⟩ := receiveTcp_bytes (p := demoBareSegment) ⟨10, 0, 0, 2⟩
      (by decide)
    exact ⟨_, hreceive⟩
  obtain ⟨arrival, hreceive⟩ := hreceived
  have hdropped : receiveTcp (demoBare ++ List.replicate 6 0) = none :=
    receiveTcp_padded (by decide) (by decide +kernel) hreceive
  refine ⟨by rw [hreceive]; rfl, hdropped, fun hall => ?_⟩
  obtain ⟨h, payload, hparse⟩ : ∃ h payload, parseIpv4 demoBare = some (h, payload) :=
    let ⟨h, hparse, _⟩ := TcpPacket.parseIpv4_bytes ⟨10, 0, 0, 2⟩ demoBareSegment
    ⟨h, _, hparse⟩
  have hsame := (hall demoBare h payload (List.replicate 6 0) hparse).delivered
  rw [hdropped, hreceive] at hsame
  exact absurd hsame (by simp)

end PpcaNetwork.TcpStack
