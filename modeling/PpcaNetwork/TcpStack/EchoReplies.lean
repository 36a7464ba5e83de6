import PpcaNetwork.TcpStack.ArpQueue

/-!
# Echo replies

What the stack sends of ICMP, in a whole run: one reply for each request that it has received, and
nothing else.

* `echoAnswer` — the reply that an event calls for.
* `echo_replies_conserved` — every run.
-/

namespace PpcaNetwork.TcpStack

/-- The reply that an event calls for, and where it goes. -/
def echoAnswer (ourIp : Ipv4Addr) : StackEvent → Option (Ipv4Addr × List UInt8)
  | .frame data =>
    match parseFrame data with
    | none => none
    | some (header, payload) =>
      if header.ethertype = ethTypeIpv4 then
        match parseIpv4 payload with
        | none => none
        | some (ipHdr, ipPayload) =>
          if ipHdr.protocol = ipProtoIcmp then
            (buildIcmpEchoReply ipPayload).map fun reply =>
              (ipHdr.src, buildIpv4 ourIp ipHdr.src ipProtoIcmp 64 reply)
          else none
      else none
  | _ => none

/-- An IP packet with an ICMP message. -/
def isIcmp (packet : List UInt8) : Bool :=
  (parseIpv4 packet).any fun parsed => parsed.1.protocol = ipProtoIcmp

theorem isIcmp_buildIpv4 (src dst : Ipv4Addr) (ttl : UInt8) (payload : List UInt8) :
    isIcmp (buildIpv4 src dst ipProtoIcmp ttl payload) = true := by
  rw [isIcmp, parseIpv4_buildIpv4]
  rfl

theorem not_isIcmp_bytes (ourIp : Ipv4Addr) (p : TcpPacket) : isIcmp (p.bytes ourIp) = false := by
  obtain ⟨ipHdr, hparse, -, htcp, -⟩ := p.parseIpv4_bytes ourIp
  rw [isIcmp, hparse, Option.any_some, htcp]
  rfl

/-! ## What is handed over -/

namespace Stack

/-- None of the packets of TCP is an ICMP message. -/
theorem filter_packetEvents (ourIp ip : Ipv4Addr) (packets : List TcpPacket) :
    ((packetEvents ourIp packets).flatMap (Link.handedTo ip)).filter isIcmp = [] := by
  rw [List.filter_eq_nil_iff]
  intro packet hpacket
  obtain ⟨e, he, hmem⟩ := List.mem_flatMap.mp hpacket
  obtain ⟨p, -, rfl⟩ := List.mem_map.mp he
  simp only [Link.handedTo] at hmem
  split at hmem
  · rw [List.mem_singleton.mp hmem, not_isIcmp_bytes]
    exact Bool.false_ne_true
  · cases hmem

/-- Of what an event hands over, the ICMP messages are the reply that it calls for. -/
theorem filter_linkEvents (s : Stack) (e : StackEvent) (ip : Ipv4Addr) :
    ((s.linkEvents e).flatMap (Link.handedTo ip)).filter isIcmp =
      ((echoAnswer s.ourIp e).toList.filter (·.1 = ip)).map (·.2) := by
  cases e with
  | connect remoteIp remotePort iss => exact filter_packetEvents ..
  | send key data => exact filter_packetEvents ..
  | recv key => rfl
  | close key => exact filter_packetEvents ..
  | poll => exact filter_packetEvents ..
  | frame data =>
    simp only [linkEvents, echoAnswer]
    cases parseFrame data with
    | none => rfl
    | some parsed =>
      obtain ⟨header, payload⟩ := parsed
      simp only
      by_cases harp : header.ethertype = ethTypeArp
      · have hip : header.ethertype ≠ ethTypeIpv4 := by
          rw [harp]
          decide
        rw [if_pos harp, if_neg hip]
        rfl
      · rw [if_neg harp]
        by_cases hip : header.ethertype = ethTypeIpv4
        · rw [if_pos hip, if_pos hip, ipv4Events]
          cases parseIpv4 payload with
          | none => rfl
          | some parsed =>
            obtain ⟨ipHdr, ipPayload⟩ := parsed
            simp only
            by_cases hicmp : ipHdr.protocol = ipProtoIcmp
            · rw [if_pos hicmp, if_pos hicmp]
              cases buildIcmpEchoReply ipPayload with
              | none => rfl
              | some reply =>
                by_cases hsrc : ipHdr.src = ip
                · simp [Link.handedTo, hsrc, isIcmp_buildIpv4]
                · simp [Link.handedTo, hsrc]
            · rw [if_neg hicmp, if_neg hicmp]
              cases receiveTcp payload with
              | none => rfl
              | some a =>
                simp only [Option.toList_some, List.flatMap_cons, List.flatMap_nil, List.append_nil]
                exact filter_packetEvents ..
        · rw [if_neg hip, if_neg hip]
          rfl

end Stack

/-- **One reply for each request.**  In every run of the stack, the ICMP messages that have been
written to an address, wait for it or were dropped when it timed out are the replies to the echo
requests that have been received from it, with multiplicity; no other message is ever sent. -/
theorem echo_replies_conserved (ourIp : Ipv4Addr) (ourMac : MacAddr) (clock : Clock)
    (es : List StackEvent) (ip : Ipv4Addr) :
    let n := (run Stack.step (.new ourIp ourMac clock) es).neighbour ip
    ((n.written ++ n.waiting ++ n.dropped).filter isIcmp).Perm
      (((es.filterMap (echoAnswer ourIp)).filter (·.1 = ip)).map (·.2)) := by
  intro n
  have hconserved : n.Conserved := by
    rw [show n = run Neighbour.step .absent _ from Stack.neighbour_run ourIp ourMac clock es ip]
    exact Run.invariant Neighbour.Conserved (fun n e h => h.step e) Neighbour.conserved_absent _
  have hrun : ∀ (s : Stack), s.toLink.WellAddressed → s.ourIp = ourIp →
      ((run Stack.step s es).neighbour ip).handed.filter isIcmp =
        (s.neighbour ip).handed.filter isIcmp ++
          ((es.filterMap (echoAnswer ourIp)).filter (·.1 = ip)).map (·.2) := by
    clear hconserved n
    induction es with
    | nil => exact fun s _ _ => (List.append_nil _).symm
    | cons e es ih =>
      intro s hwell hip
      obtain ⟨hwell', hhanded⟩ := Stack.handed_step hwell e ip
      have hip' : (s.step e).ourIp = ourIp := by
        rw [Stack.link_step]
        exact Run.invariant (fun l : Link => l.ourIp = ourIp)
          (fun l e h => (l.step_addresses e).1.trans h) hip _
      rw [Run.run_cons, ih _ hwell' hip', hhanded, List.filter_append, Stack.filter_linkEvents, hip,
        List.append_assoc]
      cases hanswer : echoAnswer ourIp e with
      | none => simp [hanswer]
      | some answer => by_cases hdst : answer.1 = ip <;> simp [hanswer, hdst]
  have hfilter := hconserved.symm.filter isIcmp
  rwa [hrun _ (Stack.wellAddressed_new ourIp ourMac clock) rfl] at hfilter

end PpcaNetwork.TcpStack
