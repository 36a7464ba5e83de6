import PpcaNetwork.TcpStack.Receiving
import PpcaNetwork.Toolkit.Icmp

/-!
# The law of the checksum

`checksum` of `util.rs`, and of `icmp.rs` of `ping`, on as many bytes as always fit in its
32-bit sum.

* `checksum_filled_in` — a checksum written into a zero field verifies.
* `checksum_zeros` — a changed word shows, but for the two forms of zero.
* `BuildersVerify` — everything that is built with a checksum verifies.
* `ChecksumLaw`, `checksum_law` — all of it, for both functions.
-/

namespace PpcaNetwork.TcpStack

/-- The bytes of 65536 words. -/
def maxFitting : Nat := 131072

/-- So many words never overflow the sum, not even if all of them are `0xFFFF`. -/
theorem octetSum_fits {data : List UInt8} (hlen : data.length ≤ maxFitting) :
    octetSum data < 2 ^ 32 := by
  have hsum := octetSum_le data
  rw [maxFitting] at hlen
  omega

/-- A checksum written into a zero field at an even offset verifies. -/
theorem checksum_filled_in {front behind : List UInt8} (heven : 2 ∣ front.length)
    (hlen : (front ++ octets16 0 ++ behind).length ≤ maxFitting) :
    checksum (front ++ octets16 (checksum (front ++ octets16 0 ++ behind)) ++ behind) = 0 := by
  rw [List.length_append, List.length_append, length_octets16, maxFitting] at hlen
  have hfront := octetSum_le front
  have hbehind := octetSum_le behind
  exact checksum_filled heven (by omega)

/-- A changed word shows in the checksum, unless it is one form of zero and becomes the
other. -/
theorem checksum_zeros {data data' : List UInt8} {x y : UInt16}
    (h : DiffersInWord data data' x y) (hlen : data.length ≤ maxFitting)
    (hzero : checksum data = 0) (hzero' : checksum data' = 0) :
    (x = 0x0000 ∧ y = 0xFFFF) ∨ (x = 0xFFFF ∧ y = 0x0000) := by
  have hlen' : data'.length ≤ maxFitting := h.length_eq ▸ hlen
  exact h.zeros ((checksum_eq_zero_iff_dvd (octetSum_fits hlen)).mp hzero).2
    ((checksum_eq_zero_iff_dvd (octetSum_fits hlen')).mp hzero').2

/-! ## What is built verifies -/

theorem checksum_buildEchoRequest (id seq : UInt16) {payload : List UInt8}
    (hlen : (Toolkit.buildEchoRequest id seq payload).length ≤ maxFitting) :
    Toolkit.checksum (Toolkit.buildEchoRequest id seq payload) = 0 := by
  rw [Toolkit.buildEchoRequest_eq] at hlen ⊢
  exact checksum_filled_in (by decide) (by simpa using hlen)

/-- A reply has its checksum filled in behind its first two bytes. -/
theorem buildIcmpEchoReply_spec {echoRequest reply : List UInt8}
    (h : buildIcmpEchoReply echoRequest = some reply) :
    ∃ front behind, front.length = 2 ∧
      reply = front ++ octets16 (checksum (front ++ octets16 0 ++ behind)) ++ behind := by
  unfold buildIcmpEchoReply at h
  split at h
  · exact absurd h (by simp)
  · rename_i hlen
    rw [icmpHdrSize, Nat.not_lt] at hlen
    dsimp only at h
    split at h
    · exact absurd h (by simp)
    · match echoRequest, hlen with
      | b0 :: b1 :: b2 :: b3 :: behind, _ =>
        refine ⟨[icmpEchoReply, b1], behind, rfl, ?_⟩
        rw [← Option.some.inj h]
        rfl

theorem checksum_buildIcmpEchoReply {echoRequest reply : List UInt8}
    (h : buildIcmpEchoReply echoRequest = some reply) (hlen : reply.length ≤ maxFitting) :
    checksum reply = 0 := by
  obtain ⟨front, behind, htwo, rfl⟩ := buildIcmpEchoReply_spec h
  refine checksum_filled_in (by rw [htwo]) ?_
  rw [List.length_append, List.length_append, length_octets16] at hlen ⊢
  exact hlen

/-- Everything that is built with a checksum verifies. -/
structure BuildersVerify : Prop where
  echoRequest : ∀ id seq payload,
    (Toolkit.buildEchoRequest id seq payload).length ≤ maxFitting →
      Toolkit.checksum (Toolkit.buildEchoRequest id seq payload) = 0
  echoReply : ∀ echoRequest reply, buildIcmpEchoReply echoRequest = some reply →
    reply.length ≤ maxFitting → checksum reply = 0
  ipv4 : ∀ src dst protocol ttl payload,
    verifyIpChecksum ((buildIpv4 src dst protocol ttl payload).take ipHdrLen) = true
  tcp : ∀ srcIp dstIp srcPort dstPort seq ack flags window payload,
    (pseudoHeader srcIp dstIp (tcpHdrLen + payload.length) ++
      buildTcpSegment srcIp dstIp srcPort dstPort seq ack flags window payload).length ≤
        maxFitting →
    verifyTcpChecksum srcIp dstIp
      (buildTcpSegment srcIp dstIp srcPort dstPort seq ack flags window payload) = true

theorem buildersVerify : BuildersVerify where
  echoRequest id seq _ hlen := checksum_buildEchoRequest id seq hlen
  echoReply _ _ h hlen := checksum_buildIcmpEchoReply h hlen
  ipv4 := verifyIpChecksum_buildIpv4
  tcp srcIp dstIp srcPort dstPort seq ack flags window payload hlen := by
    refine verifyTcpChecksum_of_fits srcIp dstIp srcPort dstPort seq ack flags window payload ?_
    have htwelve : (pseudoHeader srcIp dstIp (tcpHdrLen + payload.length)).length = 12 := rfl
    rw [List.length_append, length_buildTcpSegment, htwelve, tcpHdrLen, maxFitting] at hlen
    omega

/-! ## The law -/

/-- What a function that computes checksums does on `data`. -/
structure ChecksumLaw (sum : List UInt8 → UInt16) (data : List UInt8) : Prop where
  /-- The 32-bit sum does not overflow. -/
  returns : Checked.checksum data = .returns (sum data)
  /-- Written over a zero field at an even offset, the checksum makes that of the whole zero. -/
  filled : ∀ front behind, data = front ++ octets16 0 ++ behind → 2 ∣ front.length →
    sum (front ++ octets16 (sum data) ++ behind) = 0
  /-- From data that verify, a change of one aligned word is seen, unless it exchanges the two
  forms of zero. -/
  detects : ∀ data' x y, DiffersInWord data data' x y → sum data = 0 → sum data' = 0 →
    (x = 0x0000 ∧ y = 0xFFFF) ∨ (x = 0xFFFF ∧ y = 0x0000)

theorem checksumLaw_of_length_le {data : List UInt8} (hlen : data.length ≤ maxFitting) :
    ChecksumLaw checksum data where
  returns := Checked.checksum_eq_of_fits (octetSum_fits hlen)
  filled := by
    rintro front behind rfl heven
    exact checksum_filled_in heven hlen
  detects := by
    intro data' x y hdiffers hzero hzero'
    exact checksum_zeros hdiffers hlen hzero hzero'

/-- **The law of the checksum**, of `util.rs` and of `icmp.rs`.  It holds on all data of at most
131072 bytes, of even or odd length; so everything that is built with a checksum verifies. -/
theorem checksum_law (data : List UInt8) (hlen : data.length ≤ maxFitting) :
    ChecksumLaw checksum data ∧ ChecksumLaw Toolkit.checksum data ∧ BuildersVerify :=
  ⟨checksumLaw_of_length_le hlen, checksumLaw_of_length_le hlen, buildersVerify⟩

/-- Three bytes, of which the first two are a zero field: the odd byte is a word's high half. -/
theorem demo_checksum_law :
    Checked.checksum [0, 0, 8] = .returns (checksum [0, 0, 8]) ∧
      checksum (octets16 (checksum [0, 0, 8]) ++ [8]) = 0 ∧
      Toolkit.checksum (octets16 (Toolkit.checksum [0, 0, 8]) ++ [8]) = 0 := by
  obtain ⟨hlaw, hlaw', -⟩ := checksum_law [0, 0, 8] (by decide)
  exact ⟨hlaw.returns, hlaw.filled [] [8] rfl (by decide), hlaw'.filled [] [8] rfl (by decide)⟩

end PpcaNetwork.TcpStack
