import PpcaNetwork.TcpStack.PacketOrder

/-!
# Frames for other hosts

`handle_arp` answers requests for our own address only, but `handle_ipv4` never looks at the
destination of a packet: what a frame does to our connections depends on its source and
its ports alone.

* `Tcb.Inert` — the segments that a connection leaves without any effect.
* `Tcb.inert_iff` — they are those.
* `Stack.Unheeded` — the packets that the stack does not react to.
* `frame_without_effect_iff` — they are those, whatever their destination.
-/

namespace PpcaNetwork.TcpStack

namespace Tcb

/-- The segment brings the data that is expected next. -/
def BringsData (t : Tcb) (header : TcpHeader) (payload : List UInt8) : Prop :=
  0 < segLen payload ∧ header.seq = t.rcvNxt

/-- The connection does nothing about the segment, state by state. -/
def Inert (t : Tcb) (header : TcpHeader) (payload : List UInt8) (now : Instant) : Prop :=
  match t.state with
  | .synReceived => ¬ t.AcksAll header ∧ t.timerFired now = false
  | .established => ¬ (t.AcksAll header ∧ t.sndNxt ≠ t.sndUna) ∧
      ¬ (header.Occupies payload ∧ header.seq = t.rcvNxt)
  | .closeWait => ¬ t.BringsData header payload
  | .lastAck => header.has tcpAck = false
  | .finWait1 => ¬ t.AcksAll header ∧ ¬ (header.has tcpAck = false ∧ header.has tcpFin = true) ∧
      ¬ t.BringsData header payload
  | .finWait2 => ¬ (header.has tcpFin = true ∧ header.seq = t.rcvNxt) ∧
      ¬ t.BringsData header payload
  | .synSent =>
    if header.flags &&& (tcpSyn ||| tcpAck) = tcpSyn ||| tcpAck then header.ack ≠ t.sndNxt
    else header.has tcpRst = false
  | .closing => ¬ t.AcksAll header
  | .closed | .listen | .timeWait => True

theorem append_payload_ne {buffer payload : List UInt8} (h : 0 < segLen payload) :
    buffer ++ payload ≠ buffer := by
  intro heq
  have hnil : payload = [] := List.self_eq_append_right.mp heq.symm
  rw [hnil] at h
  exact absurd h (by decide)

theorem bufferData_eq_iff (t : Tcb) (header : TcpHeader) (payload : List UInt8) :
    t.bufferData header payload = t ↔ ¬ t.BringsData header payload := by
  unfold bufferData BringsData
  split
  · rename_i h
    refine iff_of_false ?_ (not_not.mpr h)
    intro heq
    exact append_payload_ne h.1 (congrArg Tcb.recvBuffer heq)
  · rename_i h
    exact iff_of_true rfl h

theorem processAck_eq_iff (t : Tcb) (header : TcpHeader) :
    t.processAck header = t ↔ ¬ (t.AcksAll header ∧ t.sndNxt ≠ t.sndUna) := by
  constructor
  · rintro heq ⟨hall, hne⟩
    have huna : t.acknowledged.sndUna = t.sndUna := by
      rw [← processAck_of_acksAll hall hne, heq]
    exact hne huna
  · exact processAck_of_not_acksAll

theorem processEstablished_eq_iff (t : Tcb) (header : TcpHeader) (payload : List UInt8) :
    t.processEstablished header payload = (t, []) ↔
      ¬ (t.AcksAll header ∧ t.sndNxt ≠ t.sndUna) ∧
        ¬ (header.Occupies payload ∧ header.seq = t.rcvNxt) := by
  have hrcv : (t.processAck header).rcvNxt = t.rcvNxt := by
    rcases t.processAck_cases header with heq | ⟨-, heq⟩ <;> rw [heq]
    rfl
  rw [processEstablished]
  by_cases hacc : header.Occupies payload ∧ header.seq = t.rcvNxt
  · rw [processData_accepted hacc.1 (hrcv ▸ hacc.2)]
    refine iff_of_false ?_ fun h => h.2 hacc
    intro heq
    exact absurd (congrArg Prod.snd heq) (by simp)
  · rw [processData_ignored (hrcv.symm ▸ hacc), ← processAck_eq_iff]
    simp [hacc]

/-- A segment that moves the connection to another state is not inert. -/
theorem ne_of_state_ne {t : Tcb} {r : Tcb × List OutgoingSegment} (h : r.1.state ≠ t.state) :
    r ≠ (t, []) := by
  rintro rfl
  exact h rfl

/-- Neither is one that is answered. -/
theorem ne_of_answer_ne {t : Tcb} {r : Tcb × List OutgoingSegment} (h : r.2 ≠ []) :
    r ≠ (t, []) := by
  rintro rfl
  exact h rfl

/-- A segment that is only looked at for its data. -/
theorem bufferData_silent_iff (t : Tcb) (header : TcpHeader) (payload : List UInt8) :
    (t.bufferData header payload, ([] : List OutgoingSegment)) = (t, []) ↔
      ¬ t.BringsData header payload := by
  rw [← bufferData_eq_iff, Prod.mk.injEq]
  exact and_iff_left rfl

theorem processFinWait1_eq_iff {t : Tcb} (hst : t.state = .finWait1) (header : TcpHeader)
    (payload : List UInt8) (now : Instant) :
    t.processFinWait1 header payload now = (t, []) ↔
      ¬ t.AcksAll header ∧ ¬ (header.has tcpAck = false ∧ header.has tcpFin = true) ∧
        ¬ t.BringsData header payload := by
  unfold processFinWait1 AcksAll
  split
  · rename_i hack
    split
    · rename_i hall
      refine iff_of_false ?_ fun h => h.1 ⟨hack, hall⟩
      split
      · exact ne_of_state_ne (by simp [hst])
      · exact ne_of_state_ne (by simp [hst])
    · rename_i hall
      rw [bufferData_silent_iff]
      simp [hack, hall]
  · rename_i hack
    split
    · rename_i hfin
      refine iff_of_false (ne_of_state_ne (by simp [hst])) fun h => h.2.1 ?_
      exact ⟨Bool.not_eq_true _ ▸ hack, hfin⟩
    · rename_i hfin
      rw [bufferData_silent_iff]
      simp [hack, hfin]

/-- **Inertia.**  These are the segments that change nothing and are not answered. -/
theorem inert_iff (t : Tcb) (header : TcpHeader) (payload : List UInt8) (now : Instant) :
    t.processExistingTcb header payload now = (t, []) ↔ t.Inert header payload now := by
  cases hst : t.state with
  | established =>
    simp only [processExistingTcb, Inert, hst]
    exact t.processEstablished_eq_iff header payload
  | synReceived =>
    simp only [processExistingTcb, Inert, hst, processSynReceived, AcksAll]
    split
    · rename_i hall
      exact iff_of_false (ne_of_state_ne (by simp [hst])) fun h => h.1 hall
    · rename_i hall
      split
      · rename_i hfired
        refine iff_of_false (ne_of_answer_ne (by simp)) fun h => ?_
        exact absurd h.2 (by simp [timerFired, hfired])
      · rename_i hquiet
        exact iff_of_true rfl ⟨hall, Bool.not_eq_true _ ▸ hquiet⟩
  | closeWait =>
    simp only [processExistingTcb, Inert, hst, processCloseWait, BringsData]
    split
    · rename_i hdata
      exact iff_of_false (ne_of_answer_ne (by simp)) (not_not.mpr hdata)
    · rename_i hdata
      exact iff_of_true rfl hdata
  | lastAck =>
    simp only [processExistingTcb, Inert, hst, processLastAck]
    split
    · rename_i hack
      exact iff_of_false (ne_of_state_ne (by simp [hst])) (by simp [hack])
    · rename_i hack
      exact iff_of_true rfl (Bool.not_eq_true _ ▸ hack)
  | finWait1 =>
    simp only [processExistingTcb, Inert, hst]
    exact processFinWait1_eq_iff hst header payload now
  | finWait2 =>
    simp only [processExistingTcb, Inert, hst, processFinWait2]
    split
    · rename_i hfin
      exact iff_of_false (ne_of_state_ne (by simp [hst])) fun h => h.1 hfin
    · rename_i hfin
      rw [bufferData_silent_iff]
      simp [hfin]
  | synSent =>
    simp only [processExistingTcb, Inert, hst, processSynSent]
    split
    · split
      · rename_i hack
        exact iff_of_false (ne_of_state_ne (by simp [hst])) (not_not.mpr hack)
      · rename_i hack
        exact iff_of_true rfl hack
    · split
      · rename_i hrst
        exact iff_of_false (ne_of_state_ne (by simp [hst])) (by simp [hrst])
      · rename_i hrst
        exact iff_of_true rfl (Bool.not_eq_true _ ▸ hrst)
  | closing =>
    simp only [processExistingTcb, Inert, hst, processClosing, AcksAll]
    split
    · rename_i hall
      exact iff_of_false (ne_of_state_ne (by simp [hst])) (not_not.mpr hall)
    · rename_i hall
      exact iff_of_true rfl hall
  | closed => simp [processExistingTcb, Inert, hst]
  | listen => simp [processExistingTcb, Inert, hst]
  | timeWait => simp [processExistingTcb, Inert, hst]

end Tcb

/-! ## The connections -/

namespace TcpCore

/-- The segment has no effect: no connection is there for it and it asks for no reset, or
the connection does nothing about it. -/
def Unheeded (c : TcpCore) (a : Arrival) : Prop :=
  match c.get (TcpManager.segmentKey c.ourIp a.remoteIp a.header) with
  | none => a.header.has tcpRst = true
  | some t => t.Inert a.header a.payload c.now

theorem packets_eq_nil_iff (c : TcpCore) (key : Option ConnKey) (dstIp : Ipv4Addr)
    (segs : List OutgoingSegment) : c.packets key dstIp segs = [] ↔ segs = [] := by
  rw [← List.map_eq_nil_iff (f := TcpPacket.segment), segment_packets]

theorem replies_eq_nil_iff (c : TcpCore) (a : Arrival) :
    c.replies a.remoteIp a.header a.payload = [] ↔
      (c.tcp.process c.ourIp a.remoteIp a.header a.payload c.now).2.2 = [] :=
  packets_eq_nil_iff ..

theorem get_handleSegment_ne (c : TcpCore) (a : Arrival) {k : ConnKey}
    (hk : TcpManager.segmentKey c.ourIp a.remoteIp a.header ≠ k) :
    (c.step (.segment a.remoteIp a.header a.payload)).get k = c.get k := by
  rw [get_step, observe, if_neg hk]
  rfl

theorem unheeded_iff (c : TcpCore) (a : Arrival) :
    ((∀ k, (c.step (.segment a.remoteIp a.header a.payload)).get k = c.get k) ∧
        c.replies a.remoteIp a.header a.payload = []) ↔ c.Unheeded a := by
  rw [replies_eq_nil_iff, Unheeded]
  cases ht : c.get (TcpManager.segmentKey c.ourIp a.remoteIp a.header) with
  | none =>
    rw [TcpManager.process_of_get_none ht]
    have hsame : ∀ k, (c.step (.segment a.remoteIp a.header a.payload)).get k = c.get k := by
      intro k
      by_cases hk : TcpManager.segmentKey c.ourIp a.remoteIp a.header = k
      · rw [get_step, observe, if_pos hk, ← hk, ht]
        rfl
      · exact c.get_handleSegment_ne a hk
    simp [hsame]
  | some t =>
    obtain ⟨-, hout⟩ := TcpManager.process_of_get ht a.payload c.now
    have hself : (c.step (.segment a.remoteIp a.header a.payload)).get
        (TcpManager.segmentKey c.ourIp a.remoteIp a.header) =
          some (t.onEvent (.segment a.header a.payload c.now)) := by
      rw [get_step, observe, if_pos rfl, ht]
      rfl
    rw [hout]
    simp only
    rw [← Tcb.inert_iff]
    constructor
    · rintro ⟨hsame, hsilent⟩
      refine Prod.ext ?_ hsilent
      have hstays := (hself.symm.trans (hsame _)).trans ht
      simpa [Tcb.onEvent, hsilent] using hstays
    · intro hinert
      refine ⟨fun k => ?_, congrArg Prod.snd hinert⟩
      by_cases hk : TcpManager.segmentKey c.ourIp a.remoteIp a.header = k
      · rw [← hk, hself, ht]
        simp [Tcb.onEvent, hinert]
      · exact c.get_handleSegment_ne a hk

end TcpCore

/-! ## What leaves -/

/-- `send_frame` leaves its mark on the trace. -/
theorem Link.length_trace_transmit (l : Link) (dstIp : Ipv4Addr) (ipPacket : List UInt8) :
    l.trace.length < (l.transmit dstIp ipPacket).trace.length := by
  have hlooked : (l.lookedUp dstIp ipPacket).trace.length = l.trace.length + 1 := by
    simp [Link.lookedUp, Link.note]
  cases hfound : (l.arp.lookup dstIp l.clock).1 with
  | some mac =>
    rw [Link.transmit_of_some hfound, Link.writeFrame, Link.note, List.length_append, hlooked]
    omega
  | none =>
    rw [Link.transmit_of_none hfound, Link.enqueue]
    simp only
    split
    · simp only [Link.request, Link.writeFrame, Link.note, List.length_append, hlooked]
      omega
    · rw [hlooked]
      omega

theorem Link.length_trace_packetEvents (l : Link) (ourIp : Ipv4Addr) (ps : List TcpPacket) :
    l.trace.length + ps.length ≤
      (run Link.step l (Stack.packetEvents ourIp ps)).trace.length := by
  induction ps generalizing l with
  | nil => exact le_refl _
  | cons p ps ih =>
    have hhead := l.length_trace_transmit p.dstIp (p.bytes ourIp)
    have htail := ih (l.transmit p.dstIp (p.bytes ourIp))
    rw [Stack.packetEvents, List.map_cons, Run.run_cons, List.length_cons]
    exact le_trans (by omega) htail

theorem Link.trace_packetEvents_iff (l : Link) (ourIp : Ipv4Addr) (ps : List TcpPacket) :
    (run Link.step l (Stack.packetEvents ourIp ps)).trace = l.trace ↔ ps = [] := by
  constructor
  · intro hsame
    have hlen := l.length_trace_packetEvents ourIp ps
    rw [hsame] at hlen
    exact List.length_eq_zero_iff.mp (by omega)
  · rintro rfl
    rfl

/-! ## Frames -/

/-- An ICMP message that `build_icmp_echo_reply` answers. -/
def IsEchoRequest (message : List UInt8) : Prop :=
  icmpHdrSize ≤ message.length ∧ message.head? = some icmpEchoRequest

theorem buildIcmpEchoReply_eq_none_iff (message : List UInt8) :
    buildIcmpEchoReply message = none ↔ ¬ IsEchoRequest message := by
  unfold buildIcmpEchoReply IsEchoRequest
  split
  · rename_i hshort
    exact iff_of_true rfl fun h => absurd h.1 (by omega)
  · rename_i hlong
    have hlen : 8 ≤ message.length := Nat.le_of_not_lt hlong
    have hhead : message.head? = some message[0] := List.head?_eq_getElem? ▸ by simp
    rw [hhead]
    simp only [Option.some.injEq]
    split
    · rename_i hother
      exact iff_of_true rfl fun h => hother h.2
    · rename_i hecho
      exact iff_of_false (by simp) (not_not.mpr ⟨hlen, not_not.mp hecho⟩)

namespace Stack

/-- The stack does nothing about the packet: it is no IPv4 packet, or neither an echo
request nor a segment that has an effect. -/
def Unheeded (s : Stack) (packet : List UInt8) : Prop :=
  match parseIpv4 packet with
  | none => True
  | some (ipHdr, ipPayload) =>
    if ipHdr.protocol = ipProtoIcmp then ¬ IsEchoRequest ipPayload
    else ∀ a, receiveTcp packet = some a → s.core.Unheeded a

/-- The connections are what they were before the frame, and nothing has been sent. -/
def Untouched (s : Stack) (data : List UInt8) : Prop :=
  (∀ k, (s.dispatch data).tcp.get k = s.tcp.get k) ∧ (s.dispatch data).trace = s.trace

theorem dispatch_ipv4 (s : Stack) {data : List UInt8} {header : EthernetHdr}
    {packet : List UInt8} (hframe : parseFrame data = some (header, packet))
    (hip : header.ethertype = ethTypeIpv4) : s.dispatch data = s.handleIpv4 header packet := by
  simp only [dispatch, hframe, hip, if_true]
  rfl

theorem untouched_iff (s : Stack) {data : List UInt8} {header : EthernetHdr}
    {packet : List UInt8} (hframe : parseFrame data = some (header, packet))
    (hip : header.ethertype = ethTypeIpv4) : s.Untouched data ↔ s.Unheeded packet := by
  have hcore := s.handleIpv4_core header packet
  have hlink := congrArg Link.trace (s.handleIpv4_link header packet)
  have hget : (∀ k, (s.handleIpv4 header packet).tcp.get k = s.tcp.get k) ↔
      ∀ k, (s.handleIpv4 header packet).core.get k = s.core.get k := Iff.rfl
  rw [Untouched, s.dispatch_ipv4 hframe hip, hget, hcore, hlink, Unheeded, ipv4Events]
  cases hparse : parseIpv4 packet with
  | none =>
    have hnothing : receiveTcp packet = none := by
      rw [receiveTcp, hparse]
    simp [hnothing]
  | some parsed =>
    obtain ⟨ipHdr, ipPayload⟩ := parsed
    simp only [Run.run_cons]
    have hlearn : (s.toLink.step (.learn ipHdr.src header.src)).trace = s.trace := rfl
    by_cases hicmp : ipHdr.protocol = ipProtoIcmp
    · have hnothing : receiveTcp packet = none := by
        simp only [receiveTcp, hparse]
        rw [if_pos (by rw [hicmp]; decide)]
      rw [if_pos hicmp, if_pos hicmp, hnothing, ← buildIcmpEchoReply_eq_none_iff]
      cases buildIcmpEchoReply ipPayload with
      | none => simp [hlearn]
      | some reply =>
        refine iff_of_false (fun h => ?_) (by simp)
        have hlen := Link.length_trace_transmit (s.toLink.step (.learn ipHdr.src header.src))
          ipHdr.src (buildIpv4 s.ourIp ipHdr.src ipProtoIcmp 64 reply)
        rw [hlearn] at hlen
        exact absurd (congrArg List.length h.2) (Nat.ne_of_gt hlen)
    · rw [if_neg hicmp, if_neg hicmp]
      cases receiveTcp packet with
      | none => simp [hlearn]
      | some a =>
        simp only [Option.toList_some, List.flatMap_cons, List.flatMap_nil, List.append_nil,
          List.map_cons, List.map_nil, Run.run_cons, Run.run_nil, Option.some.injEq,
          forall_eq']
        rw [← hlearn, Link.trace_packetEvents_iff]
        exact s.core.unheeded_iff a

end Stack

/-- **What a frame has to be to have no effect.**  In every state that a run of the stack
reaches, a frame that carries IPv4 leaves all connections as they are and nothing is sent
for it exactly if its packet is neither an echo request nor a segment that a connection,
or the lack of one, reacts to.  Its destination plays no part. -/
theorem frame_without_effect_iff (ourIp : Ipv4Addr) (ourMac : MacAddr) (clock : Clock)
    (es : List StackEvent) (data : List UInt8) (header : EthernetHdr) (packet : List UInt8)
    (hframe : parseFrame data = some (header, packet)) (hip : header.ethertype = ethTypeIpv4) :
    let s := run Stack.step (.new ourIp ourMac clock) es
    ((∀ k, (s.dispatch data).tcp.get k = s.tcp.get k) ∧ (s.dispatch data).trace = s.trace) ↔
      s.Unheeded packet :=
  Stack.untouched_iff _ hframe hip

/-- A segment from the demo's peer, from and to the ports of the demo connection, but for
the host 10.0.0.99. -/
def demoStray (flags : UInt8) : TcpPacket where
  srcPort := demoKey.remotePort
  dstIp := ⟨10, 0, 0, 99⟩
  segment := { flags := flags, seq := 0, ack := 0, payload := [], dstPort := demoKey.localPort }

/-- The demo connection when its SYN is sent. -/
theorem demo_opened :
    let s := run Stack.step demoFullStack [.connect demoKey.remoteIp demoKey.remotePort 1000]
    s.ourIp = demoKey.localIp ∧ s.core.get demoKey = some (demoKey.opened 1000 0) := by
  intro s
  have hcore : s.core =
      run TcpCore.step demoStack [.connect demoKey.remoteIp demoKey.remotePort 1000] :=
    Stack.core_run demoFullStack (le_refl _) _
  refine ⟨?_, ?_⟩
  · have hsame := TcpCore.run_ourIp demoStack [.connect demoKey.remoteIp demoKey.remotePort 1000]
    rw [← hcore] at hsame
    exact hsame
  · rw [hcore]
    decide

/-- The segment is for another host, and it finds the demo connection. -/
theorem demo_receive_stray (flags : UInt8) :
    (∃ ipHdr segment, parseIpv4 ((demoStray flags).bytes demoKey.remoteIp) = some (ipHdr, segment) ∧
        ipHdr.protocol = ipProtoTcp ∧ ipHdr.dst ≠ demoKey.localIp) ∧
      ∃ header, receiveTcp ((demoStray flags).bytes demoKey.remoteIp) =
          some ⟨demoKey.remoteIp, header, []⟩ ∧ header.flags = flags ∧
        TcpManager.segmentKey demoKey.localIp demoKey.remoteIp header = demoKey := by
  obtain ⟨ipHdr, hparse, -, hproto, -, hdst⟩ := (demoStray flags).parseIpv4_bytes demoKey.remoteIp
  obtain ⟨header, hreceive, hsrcPort, hdstPort, -, -, hflags, -⟩ :=
    receiveTcp_bytes (p := demoStray flags) demoKey.remoteIp (by simp [demoStray])
  refine ⟨⟨ipHdr, _, hparse, hproto, ?_⟩, header, hreceive, hflags, ?_⟩
  · rw [hdst]
    simp [demoStray, demoKey]
  · rw [TcpManager.segmentKey, hsrcPort, hdstPort]
    rfl

/-- An acknowledgement for another host finds the demo connection, which is waiting for the answer
to its SYN and does nothing about it. -/
theorem demo_unheeded_ack :
    let s := run Stack.step demoFullStack [.connect demoKey.remoteIp demoKey.remotePort 1000]
    let packet := (demoStray tcpAck).bytes demoKey.remoteIp
    let frame := buildFrame demoMac demoPeerMac ethTypeIpv4 packet
    (∃ ipHdr segment, parseIpv4 packet = some (ipHdr, segment) ∧ ipHdr.dst ≠ s.ourIp) ∧
      (∃ a, receiveTcp packet = some a ∧ (s.tcp.get
        (TcpManager.segmentKey s.ourIp a.remoteIp a.header)).isSome = true) ∧
      (∀ k, (s.dispatch frame).tcp.get k = s.tcp.get k) ∧ (s.dispatch frame).trace = s.trace := by
  intro s packet frame
  obtain ⟨hip, hget⟩ := demo_opened
  obtain ⟨⟨ipHdr, segment, hparse, hproto, hdst⟩, header, hreceive, hflags, hkey⟩ :=
    demo_receive_stray tcpAck
  refine ⟨⟨ipHdr, segment, hparse, hip ▸ hdst⟩, ⟨_, hreceive, ?_⟩, ?_⟩
  · rw [hip, hkey]
    exact Option.isSome_of_eq_some hget
  · refine (frame_without_effect_iff demoKey.localIp demoMac ⟨0, []⟩
      [.connect demoKey.remoteIp demoKey.remotePort 1000] frame ⟨demoMac, demoPeerMac, ethTypeIpv4⟩
      packet (parseFrame_buildFrame ..) rfl).mpr ?_
    have hother : ¬ ipHdr.protocol = ipProtoIcmp := by
      rw [hproto]
      decide
    simp only [Stack.Unheeded, packet, hparse, if_neg hother, hreceive]
    rintro a ⟨rfl⟩
    have hinert : (demoKey.opened 1000 0).Inert header [] s.core.now := by
      show if header.flags &&& (tcpSyn ||| tcpAck) = tcpSyn ||| tcpAck then _ else _
      rw [hflags, if_neg (by decide), TcpHeader.has, hflags]
      decide
    show match s.core.get (TcpManager.segmentKey s.ourIp demoKey.remoteIp header) with
      | none => _
      | some t => _
    rw [hip, hkey, hget]
    exact hinert

/-! ## A reset for another host -/

/-- A reset closes a connection that is being opened, whatever the destination of its
packet. -/
theorem Stack.get_dispatch_reset {s : Stack} {data packet : List UInt8} {header : EthernetHdr}
    {a : Arrival} {t : Tcb} (hframe : parseFrame data = some (header, packet))
    (hip : header.ethertype = ethTypeIpv4) (hreceive : receiveTcp packet = some a)
    (hget : s.tcp.get (TcpManager.segmentKey s.ourIp a.remoteIp a.header) = some t)
    (hst : t.state = .synSent) (hflags : a.header.flags = tcpRst) :
    (s.dispatch data).tcp.get (TcpManager.segmentKey s.ourIp a.remoteIp a.header) =
      some { t with state := .closed } := by
  have hclosed : t.processSynSent a.header = ({ t with state := .closed }, []) := by
    rw [Tcb.processSynSent, TcpHeader.has, hflags]
    rfl
  rw [← get_core] at hget
  rw [← get_core, s.dispatch_ipv4 hframe hip, s.handleIpv4_core, hreceive]
  simp only [Option.toList_some, List.map_cons, List.map_nil, Run.run_cons, Run.run_nil]
  rw [TcpCore.get_step, TcpCore.observe, if_pos (by rfl), hget]
  show some (t.onEvent (.segment a.header a.payload s.core.now)) = _
  simp only [Tcb.onEvent, Tcb.processExistingTcb, hst, hclosed, Tcb.afterSending_nil]

/-- **A connection closed by a reset for another host.**  The SYN of the demo connection is
sent when the reset arrives. -/
theorem demo_misaddressed_reset :
    let s := run Stack.step demoFullStack [.connect demoKey.remoteIp demoKey.remotePort 1000]
    let packet := (demoStray tcpRst).bytes demoKey.remoteIp
    let frame := buildFrame demoMac demoPeerMac ethTypeIpv4 packet
    (∃ ipHdr segment, parseIpv4 packet = some (ipHdr, segment) ∧ ipHdr.dst ≠ s.ourIp) ∧
      s.tcp.get demoKey = some (demoKey.opened 1000 0) ∧
      (s.dispatch frame).tcp.get demoKey = some { demoKey.opened 1000 0 with state := .closed } ∧
      ¬ ((∀ k, (s.dispatch frame).tcp.get k = s.tcp.get k) ∧
        (s.dispatch frame).trace = s.trace) := by
  intro s packet frame
  obtain ⟨hip, hbefore⟩ := demo_opened
  obtain ⟨⟨ipHdr, segment, hparse, -, hdst⟩, header, hreceive, hflags, hkey⟩ :=
    demo_receive_stray tcpRst
  have hframe : parseFrame frame = some (⟨demoMac, demoPeerMac, ethTypeIpv4⟩, packet) :=
    parseFrame_buildFrame ..
  have hafter : (s.dispatch frame).tcp.get demoKey =
      some { demoKey.opened 1000 0 with state := .closed } := by
    have hfound : TcpManager.segmentKey s.ourIp demoKey.remoteIp header = demoKey := by
      rw [hip, hkey]
    have hclosed := Stack.get_dispatch_reset hframe rfl hreceive (by rw [hfound]; exact hbefore)
      rfl hflags
    rwa [hfound] at hclosed
  refine ⟨⟨ipHdr, segment, hparse, hip ▸ hdst⟩, hbefore, hafter, ?_⟩
  rintro ⟨hsame, -⟩
  have hstays := hafter.symm.trans ((hsame demoKey).trans hbefore)
  exact absurd hstays (by decide)

end PpcaNetwork.TcpStack
