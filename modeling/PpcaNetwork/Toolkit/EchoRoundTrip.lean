import PpcaNetwork.TcpStack.Lan
import PpcaNetwork.TcpStack.Receiving
import PpcaNetwork.Toolkit.Icmp

/-!
# A probe and the stack's reply

`ping` on one host, the stack on another: the request that `build_echo_request` writes, in a frame
that reaches the stack, and the reply that the stack writes, as `parse_echo_reply` reads it.

* `buildIcmpEchoReply_request` — the reply to a request of `ping`, whatever is padded behind it.
* `Link.frames_transmit_learned` — an answer to an address that has just been learned is written.
* `echo_round_trip` — the whole way.
-/

namespace PpcaNetwork

open TcpStack

namespace Toolkit

/-- The reply to a request: type and checksum are replaced, and all the rest comes back. -/
theorem buildIcmpEchoReply_request (id seq : UInt16) (payload padding : List UInt8) :
    buildIcmpEchoReply (buildEchoRequest id seq payload ++ padding) =
      some ([0, 0] ++ octets16 (TcpStack.checksum ([0, 0] ++ octets16 0 ++
          (octets16 id ++ octets16 seq ++ payload ++ padding))) ++
        (octets16 id ++ octets16 seq ++ payload ++ padding)) := by
  rw [buildEchoRequest_eq]
  generalize checksum _ = cs
  have hfill :
    copyAt ([0, 0] ++ octets16 0 ++ (octets16 id ++ octets16 seq ++ payload ++ padding)) 2
      _ = _ :=
    copyAt_eq [0, 0] (octets16 id ++ octets16 seq ++ payload ++ padding) rfl
      (length_octets16 (TcpStack.checksum ([0, 0] ++ octets16 0 ++
        (octets16 id ++ octets16 seq ++ payload ++ padding)))).symm
  rw [← hfill]
  rfl

/-- A packet of the stack, as a raw socket gives it. -/
def ofBuildIpv4 (src dst : Ipv4Addr) (protocol ttl : UInt8) (payload : List UInt8) : IpPacket where
  data := buildIpv4 src dst protocol ttl payload
  header_le := by
    rw [length_buildIpv4]
    exact Nat.le_add_right ..
  options_le := by
    simp only [List.get_eq_getElem, buildIpv4_eq, ipFront]
    simp [octets16, ipOctets]

theorem icmpBody_ofBuildIpv4 (src dst : Ipv4Addr) (protocol ttl : UInt8) (payload : List UInt8) :
    (ofBuildIpv4 src dst protocol ttl payload).icmpBody = payload := by
  simp only [IpPacket.icmpBody, ofBuildIpv4, List.get_eq_getElem, buildIpv4_eq, ipFront]
  simp [octets16, ipOctets]

end Toolkit

namespace TcpStack

/-- What is sent to an address that has just been learned is written. -/
theorem Link.frames_transmit_learned {l : Link} {ip : Ipv4Addr} {mac : MacAddr}
    (hip : ip ≠ ⟨0, 0, 0, 0⟩) (hmac : mac ≠ ⟨0, 0, 0, 0, 0, 0⟩)
    (hsoon : l.clock.read.2.read.1 ≤ l.clock.read.1 + cacheTtl) (packet : List UInt8) :
    ((l.learn ip mac).transmit ip packet).frames = l.frames ++ [l.ipv4Frame mac packet] := by
  have hknown : ¬ (ip = ⟨0, 0, 0, 0⟩ ∨ mac = ⟨0, 0, 0, 0, 0, 0⟩) := not_or.mpr ⟨hip, hmac⟩
  have hlearn : l.arp.learn ip mac l.clock = ({ l.arp with
      entries := l.arp.entries.insert ip ⟨mac, l.clock.read.1 + cacheTtl⟩ }, l.clock.read.2) := by
    simp only [ArpCache.learn, if_neg hknown]
  have hlookup : ((l.learn ip mac).arp.lookup ip (l.learn ip mac).clock).1 = some mac := by
    simp only [Link.learn, hlearn, ArpCache.lookup, AList.lookup_insert]
    rw [if_neg (Nat.not_lt.mpr hsoon)]
  have hlooked : ((l.learn ip mac).lookedUp ip packet).frames = l.frames :=
    (l.learn ip mac).frames_note (.handed ip packet) (by rintro _ ⟨⟩)
  rw [transmit_of_some hlookup, frames_writeFrame, hlooked]
  rfl

end TcpStack

namespace Toolkit

/-- **The round trip.**  A probe of `ping` that reaches the stack, in whatever frame and with
whatever padded behind it, is answered at once: in a frame to where it came from the stack writes a
packet which `ping` reads as the reply to that probe, with its payload, and whose checksum verifies.
The sender must not give zeros for an address, nor the clock jump ahead by a minute. -/
theorem echo_round_trip (s : Stack) (data : List UInt8) (header : EthernetHdr)
    (packet : List UInt8) (ipHdr : Ipv4Header) (id seq : UInt16) (payload padding : List UInt8)
    (hframe : parseFrame data = some (header, packet)) (htype : header.ethertype = ethTypeIpv4)
    (hpacket : parseIpv4 packet = some (ipHdr, buildEchoRequest id seq payload ++ padding))
    (hicmp : ipHdr.protocol = ipProtoIcmp) (hip : ipHdr.src ≠ ⟨0, 0, 0, 0⟩)
    (hmac : header.src ≠ ⟨0, 0, 0, 0, 0, 0⟩)
    (hsoon : s.clock.read.2.read.1 ≤ s.clock.read.1 + cacheTtl) (hlen : packet.length ≤ 65535) :
    ∃ reply : IpPacket,
      (s.step (.frame data)).frames =
          s.frames ++ [buildFrame header.src s.ourMac ethTypeIpv4 reply.data] ∧
        (∃ replyHdr, parseIpv4 reply.data = some (replyHdr, reply.icmpBody) ∧
          replyHdr.src = s.ourIp ∧ replyHdr.dst = ipHdr.src) ∧
        parseEchoReply reply.icmpBody = some (id, seq, payload ++ padding) ∧
        checksum reply.icmpBody = 0 := by
  have hbody := buildIcmpEchoReply_request id seq payload padding
  have hrest : octets16 id ++ octets16 seq ++ payload ++ padding =
      octets16 id ++ octets16 seq ++ (payload ++ padding) := List.append_assoc ..
  have hshort : payload.length + padding.length ≤ 65535 := by
    have hle := length_parseIpv4 hpacket
    rw [List.length_append, buildEchoRequest_eq] at hle
    simp only [List.length_append, length_octets16, List.length_cons, List.length_nil] at hle
    omega
  have hverifies : TcpStack.checksum ([0, 0] ++ octets16 (TcpStack.checksum ([0, 0] ++ octets16 0 ++
      (octets16 id ++ octets16 seq ++ (payload ++ padding)))) ++
        (octets16 id ++ octets16 seq ++ (payload ++ padding))) = 0 := by
    refine checksum_filled (by decide) ?_
    have hbound := octetSum_le (octets16 id ++ octets16 seq ++ (payload ++ padding))
    simp only [List.length_append, length_octets16] at hbound
    have hzero : octetSum [0, 0] = 0 := rfl
    omega
  rw [hrest] at hbody
  generalize hcs : TcpStack.checksum ([0, 0] ++ octets16 0 ++
    (octets16 id ++ octets16 seq ++ (payload ++ padding))) = cs at hbody hverifies
  refine ⟨ofBuildIpv4 s.ourIp ipHdr.src ipProtoIcmp 64 ([0, 0] ++ octets16 cs ++
    (octets16 id ++ octets16 seq ++ (payload ++ padding))), ?_, ?_, ?_, ?_⟩
  · have harp : header.ethertype ≠ ethTypeArp := by
      rw [htype]
      decide
    simp only [Stack.step, Stack.dispatch, hframe, if_neg harp, if_pos htype, Stack.handleIpv4,
      hpacket, if_pos hicmp, hbody]
    exact Link.frames_transmit_learned hip hmac hsoon _
  · rw [icmpBody_ofBuildIpv4]
    exact ⟨_, parseIpv4_buildIpv4 .., rfl, rfl⟩
  · rw [icmpBody_ofBuildIpv4]
    exact parseEchoReply_reply id seq cs (payload ++ padding)
  · rw [icmpBody_ofBuildIpv4]
    exact hverifies

/-- The third probe of a `ping` on the demo's peer, padded. -/
def demoProbe : List UInt8 :=
  buildIpv4 demoKey.remoteIp demoKey.localIp ipProtoIcmp 64
    (buildEchoRequest 7 2 [1, 2, 3] ++ [0, 0])

theorem demo_echo_round_trip :
    ∃ reply : IpPacket,
      (demoFullStack.step (.frame (buildFrame demoMac demoPeerMac ethTypeIpv4 demoProbe))).frames =
          demoFullStack.frames ++ [buildFrame demoPeerMac demoMac ethTypeIpv4 reply.data] ∧
        (∃ replyHdr, parseIpv4 reply.data = some (replyHdr, reply.icmpBody) ∧
          replyHdr.src = demoKey.localIp ∧ replyHdr.dst = demoKey.remoteIp) ∧
        parseEchoReply reply.icmpBody = some (7, 2, [1, 2, 3, 0, 0]) ∧
        checksum reply.icmpBody = 0 :=
  echo_round_trip demoFullStack _ ⟨demoMac, demoPeerMac, ethTypeIpv4⟩ demoProbe _ 7 2 [1, 2, 3]
    [0, 0] (parseFrame_buildFrame ..) rfl (parseIpv4_buildIpv4 ..) rfl (by decide) (by decide)
    (by decide) (by decide)

end Toolkit
end PpcaNetwork
