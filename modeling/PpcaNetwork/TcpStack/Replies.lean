import PpcaNetwork.TcpStack.Transitions

/-!
# Replies

What the stack sends back for a segment.

* `answered_iff` — which segments with data or a FIN are acknowledged.
* `TcpPacket` and `TcpCore.replies` — the packets that leave for a segment, with the
  ports that `send_segments_with_key` finds for them.
* `TcpCore.Addressed` — what the packets of a connection are addressed by, in every
  run.
* `replies_onFourTuple_iff` — when they go back where the segment came from.
-/

namespace PpcaNetwork.TcpStack

/-! ## Acknowledgements -/

/-- The states in which both sides have synchronized. -/
def TcpState.isSynchronized : TcpState → Bool
  | .established | .finWait1 | .finWait2 | .closeWait | .closing | .lastAck | .timeWait => true
  | _ => false

namespace Tcb

/-- The segments acknowledge everything received. -/
def Answered (t : Tcb) (segs : List OutgoingSegment) : Prop :=
  ∃ seg ∈ segs, seg.flags &&& tcpAck ≠ 0 ∧ seg.ack = t.rcvNxt

instance (t : Tcb) (segs : List OutgoingSegment) : Decidable (t.Answered segs) :=
  inferInstanceAs (Decidable (∃ seg ∈ segs, _))

/-- The segments that the code has an acknowledgement for: in `Established` and
`CloseWait` the next expected one, after our FIN the one that brings the peer's. -/
def answers (t : Tcb) (header : TcpHeader) (payload : List UInt8) : Bool :=
  match t.state with
  | .established => header.Occupies payload ∧ header.seq = t.rcvNxt
  | .closeWait => 0 < segLen payload ∧ header.seq = t.rcvNxt
  | .finWait1 | .finWait2 => t.takesFin header
  | _ => false

theorem answered_ackSegment (t : Tcb) : t.Answered [t.ackSegment] :=
  ⟨t.ackSegment, by simp, by show tcpAck &&& tcpAck ≠ 0; decide, rfl⟩

theorem not_answered_nil (t : Tcb) : ¬ t.Answered [] := by
  rintro ⟨seg, hseg, -⟩
  exact absurd hseg (by simp)

/-- In the last states nothing is sent for a segment. -/
theorem processExistingTcb_silent {t : Tcb}
    (hst : t.state = .closing ∨ t.state = .lastAck ∨ t.state = .timeWait) (header : TcpHeader)
    (payload : List UInt8) (now : Instant) : (t.processExistingTcb header payload now).2 = [] := by
  rcases hst with hst | hst | hst
  · simp only [processExistingTcb, hst, processClosing]
    split <;> rfl
  · simp only [processExistingTcb, hst, processLastAck]
    split <;> rfl
  · simp only [processExistingTcb, hst]

theorem answered_finWait_iff {t : Tcb} (hst : t.state = .finWait1 ∨ t.state = .finWait2)
    (header : TcpHeader) (payload : List UInt8) (now : Instant) :
    (t.processExistingTcb header payload now).1.Answered
        (t.processExistingTcb header payload now).2 ↔ t.takesFin header = true := by
  by_cases htakes : t.takesFin header = true
  · obtain ⟨-, -, hout, -⟩ := processExistingTcb_takesFin htakes payload now
    rw [hout]
    exact iff_of_true (answered_ackSegment _) htakes
  · obtain ⟨-, -, hout, -⟩ :=
      processExistingTcb_buffers hst (Bool.not_eq_true _ ▸ htakes) payload now
    rw [hout]
    exact iff_of_false (not_answered_nil _) htakes

theorem answered_silent_iff {t : Tcb}
    (hst : t.state = .closing ∨ t.state = .lastAck ∨ t.state = .timeWait) (header : TcpHeader)
    (payload : List UInt8) (now : Instant) :
    (t.processExistingTcb header payload now).1.Answered
        (t.processExistingTcb header payload now).2 ↔ false = true := by
  rw [processExistingTcb_silent hst]
  exact iff_of_false (not_answered_nil _) (by simp)

/-- A synchronized connection answers the segments that it has an acknowledgement
for, and no others. -/
theorem answered_processExistingTcb_iff {t : Tcb} (hst : t.state.isSynchronized = true)
    (header : TcpHeader) (payload : List UInt8) (now : Instant) :
    (t.processExistingTcb header payload now).1.Answered
        (t.processExistingTcb header payload now).2 ↔ t.answers header payload = true := by
  unfold answers
  cases hs : t.state with
  | established =>
    have hnxt : (t.processAck header).rcvNxt = t.rcvNxt := by
      rcases t.processAck_cases header with heq | ⟨-, heq⟩ <;> rw [heq]
      rfl
    simp only [processExistingTcb, hs, processEstablished, decide_eq_true_eq]
    rw [← hnxt]
    by_cases hacc : header.Occupies payload ∧ header.seq = (t.processAck header).rcvNxt
    · rw [processData_accepted hacc.1 hacc.2]
      exact iff_of_true (answered_ackSegment _) hacc
    · rw [processData_ignored hacc]
      exact iff_of_false (not_answered_nil _) hacc
  | closeWait =>
    simp only [processExistingTcb, hs, processCloseWait, decide_eq_true_eq]
    by_cases hnext : 0 < segLen payload ∧ header.seq = t.rcvNxt
    · rw [if_pos hnext]
      exact iff_of_true (answered_ackSegment _) hnext
    · rw [if_neg hnext]
      exact iff_of_false (not_answered_nil _) hnext
  | finWait1 => exact answered_finWait_iff (.inl hs) header payload now
  | finWait2 => exact answered_finWait_iff (.inr hs) header payload now
  | closing => exact answered_silent_iff (.inl hs) header payload now
  | lastAck => exact answered_silent_iff (.inr (.inl hs)) header payload now
  | timeWait => exact answered_silent_iff (.inr (.inr hs)) header payload now
  | closed => simp [TcpState.isSynchronized, hs] at hst
  | listen => simp [TcpState.isSynchronized, hs] at hst
  | synSent => simp [TcpState.isSynchronized, hs] at hst
  | synReceived => simp [TcpState.isSynchronized, hs] at hst

/-- What is sent for a segment carries no data. -/
theorem payload_processExistingTcb (t : Tcb) (header : TcpHeader) (payload : List UInt8)
    (now : Instant) : ∀ seg ∈ (t.processExistingTcb header payload now).2, seg.payload = [] := by
  cases hst : t.state with
  | established =>
    simp only [processExistingTcb, hst, processEstablished]
    by_cases hacc : header.Occupies payload ∧ header.seq = (t.processAck header).rcvNxt
    · rw [processData_accepted hacc.1 hacc.2]
      simp [ackSegment]
    · rw [processData_ignored hacc]
      simp
  | synReceived =>
    simp only [processExistingTcb, hst, processSynReceived]
    split_ifs <;> simp
  | closeWait =>
    simp only [processExistingTcb, hst, processCloseWait]
    split_ifs <;> simp [ackSegment]
  | lastAck =>
    simp only [processExistingTcb, hst, processLastAck]
    split_ifs <;> simp
  | finWait1 =>
    simp only [processExistingTcb, hst, processFinWait1]
    split_ifs <;> simp [ackSegment]
  | finWait2 =>
    simp only [processExistingTcb, hst, processFinWait2]
    split_ifs <;> simp [ackSegment]
  | synSent =>
    simp only [processExistingTcb, hst, processSynSent]
    split_ifs <;> simp [ackSegment]
  | closing =>
    simp only [processExistingTcb, hst, processClosing]
    split_ifs <;> simp
  | closed => simp [processExistingTcb, hst]
  | listen => simp [processExistingTcb, hst]
  | timeWait => simp [processExistingTcb, hst]

end Tcb

/-- **What is acknowledged.**  For every synchronized connection in the table and
every segment that is looked up under its key, `process` returns an acknowledgement
of everything received exactly if it is one of the segments that the connection has
an acknowledgement for. -/
theorem answered_iff (m : TcpManager) (localIp remoteIp : Ipv4Addr) (header : TcpHeader)
    (payload : List UInt8) (now : Instant) (t : Tcb)
    (ht : m.get (TcpManager.segmentKey localIp remoteIp header) = some t)
    (hst : t.state.isSynchronized = true) :
    (∃ t', (m.process localIp remoteIp header payload now).1.get
          (TcpManager.segmentKey localIp remoteIp header) = some t' ∧
        t'.Answered (m.process localIp remoteIp header payload now).2.2) ↔
      t.answers header payload = true := by
  obtain ⟨hget, hout⟩ := TcpManager.process_of_get ht payload now
  rw [hget, hout]
  simp only [Option.some.injEq, exists_eq_left']
  exact Tcb.answered_processExistingTcb_iff hst header payload now

/-- A header of the demo's peer. -/
def demoHeader (seq ack : UInt32) (flags : UInt8) : TcpHeader where
  srcPort := 9999
  dstPort := 40000
  seq := seq
  ack := ack
  dataOffset := 5
  flags := flags
  window := 65535
  checksum := 0
  urgent := 0

/-- The control block of the demo connection after the handshake. -/
def demoOpenTcb : Tcb :=
  { demoKey.opened 1000 0 with
    state := .established, irs := 5000, rcvNxt := 5001, sndUna := 1001, sndNxt := 1001
    sndWnd := 65535 }

/-- The first two bytes of the demo's peer are acknowledged. -/
theorem demo_data_answered :
    let r := (run TcpCore.step demoStack demoHandshake).tcp.process demoKey.localIp
      demoKey.remoteIp (demoHeader 5001 1001 tcpAck) [104, 105] 0
    ∃ t', r.1.get demoKey = some t' ∧ t'.Answered r.2.2 :=
  (answered_iff (run TcpCore.step demoStack demoHandshake).tcp demoKey.localIp demoKey.remoteIp
    (demoHeader 5001 1001 tcpAck) [104, 105] 0 demoOpenTcb (by decide) (by decide)).mpr (by decide)

/-- **A duplicate is not answered.**  The acknowledgement of the two bytes is lost,
so the peer sends them again; they are behind `rcv_nxt` now, and nothing is sent. -/
theorem demo_duplicate_unanswered :
    let m := (run TcpCore.step demoStack
      (demoHandshake ++ [demoSegment 5001 1001 tcpAck [104, 105]])).tcp
    let r := m.process demoKey.localIp demoKey.remoteIp (demoHeader 5001 1001 tcpAck) [104, 105] 0
    (m.get demoKey).map (fun t => (t.state, t.rcvNxt)) = some (.established, 5003) ∧
      r.2.2 = [] ∧ ¬ ∃ t', r.1.get demoKey = some t' ∧ t'.Answered r.2.2 := by
  have hout : ((run TcpCore.step demoStack
      (demoHandshake ++ [demoSegment 5001 1001 tcpAck [104, 105]])).tcp.process demoKey.localIp
        demoKey.remoteIp (demoHeader 5001 1001 tcpAck) [104, 105] 0).2.2 = [] := by decide
  refine ⟨by decide, hout, ?_⟩
  rintro ⟨t', -, hanswered⟩
  rw [hout] at hanswered
  exact Tcb.not_answered_nil t' hanswered

/-! ## Packets -/

/-- A segment on its way: `send_segments_with_key` builds it from our address. -/
structure TcpPacket where
  srcPort : UInt16
  dstIp : Ipv4Addr
  segment : OutgoingSegment
  deriving DecidableEq, Repr

/-- The packet goes back where the segment came from. -/
def TcpPacket.OnFourTuple (p : TcpPacket) (remoteIp : Ipv4Addr) (header : TcpHeader) : Prop :=
  p.srcPort = header.dstPort ∧ p.dstIp = remoteIp ∧ p.segment.dstPort = header.srcPort

instance (p : TcpPacket) (remoteIp : Ipv4Addr) (header : TcpHeader) :
    Decidable (p.OnFourTuple remoteIp header) := inferInstanceAs (Decidable (_ ∧ _))

namespace TcpCore

/-- The source port of a segment: that of its key, or else of some connection to the
same peer, or else 0. -/
def srcPort (c : TcpCore) (key : Option ConnKey) (dstIp : Ipv4Addr) (seg : OutgoingSegment) :
    UInt16 :=
  ((key.map (·.localPort)).or (c.tcp.findSrcPort dstIp seg.dstPort)).getD 0

/-- The packets that `send_segments_with_key` builds, one before each `send_frame`. -/
def packets (c : TcpCore) (key : Option ConnKey) (dstIp : Ipv4Addr) :
    List OutgoingSegment → List TcpPacket
  | [] => []
  | seg :: segs =>
    { srcPort := c.srcPort key dstIp seg, dstIp := dstIp, segment := seg } ::
      (c.sendFrame key).packets key dstIp segs

/-- The packets that leave for an incoming segment. -/
def replies (c : TcpCore) (remoteIp : Ipv4Addr) (header : TcpHeader) (payload : List UInt8) :
    List TcpPacket :=
  let (tcp, key, segs) := c.tcp.process c.ourIp remoteIp header payload c.now
  ({ c with tcp := tcp } : TcpCore).packets key remoteIp segs

/-- The packets carry the segments that are sent. -/
theorem segment_packets (c : TcpCore) (key : Option ConnKey) (dstIp : Ipv4Addr)
    (segs : List OutgoingSegment) : (c.packets key dstIp segs).map (·.segment) = segs := by
  induction segs generalizing c with
  | nil => rfl
  | cons seg segs ih => rw [packets, List.map_cons, ih]

/-- What is sent under a key leaves from its port. -/
theorem mem_packets_some {c : TcpCore} {k : ConnKey} {dstIp : Ipv4Addr}
    {segs : List OutgoingSegment} {p : TcpPacket} (hp : p ∈ c.packets (some k) dstIp segs) :
    p.srcPort = k.localPort ∧ p.dstIp = dstIp ∧ p.segment ∈ segs := by
  induction segs generalizing c with
  | nil => exact absurd hp (by simp [packets])
  | cons seg segs ih =>
    rcases List.mem_cons.mp hp with rfl | hp
    · exact ⟨rfl, rfl, by simp⟩
    · obtain ⟨hport, hip, hmem⟩ := ih hp
      exact ⟨hport, hip, List.mem_cons_of_mem _ hmem⟩

end TcpCore

/-! ## The peer's port -/

namespace Tcb

theorem remotePort_processEstablished (t : Tcb) (header : TcpHeader) (payload : List UInt8) :
    (t.processEstablished header payload).1.remotePort = t.remotePort ∧
      ∀ seg ∈ (t.processEstablished header payload).2, seg.dstPort = t.remotePort := by
  have hport : (t.processAck header).remotePort = t.remotePort := by
    rcases t.processAck_cases header with heq | ⟨-, heq⟩ <;> rw [heq]
    rfl
  rw [processEstablished]
  by_cases hacc : header.Occupies payload ∧ header.seq = (t.processAck header).rcvNxt
  · rw [processData_accepted hacc.1 hacc.2]
    refine ⟨hport, ?_⟩
    intro seg hseg
    rw [List.mem_singleton.mp hseg]
    exact hport
  · rw [processData_ignored hacc]
    exact ⟨hport, by simp⟩

theorem remotePort_bufferData (t : Tcb) (header : TcpHeader) (payload : List UInt8) :
    (t.bufferData header payload).remotePort = t.remotePort := by
  unfold bufferData
  split <;> rfl

/-- A segment leaves the peer's port alone, and what is sent for it goes there. -/
theorem remotePort_processExistingTcb (t : Tcb) (header : TcpHeader) (payload : List UInt8)
    (now : Instant) :
    (t.processExistingTcb header payload now).1.remotePort = t.remotePort ∧
      ∀ seg ∈ (t.processExistingTcb header payload now).2, seg.dstPort = t.remotePort := by
  cases hst : t.state with
  | established =>
    simp only [processExistingTcb, hst]
    exact t.remotePort_processEstablished header payload
  | synReceived =>
    simp only [processExistingTcb, hst, processSynReceived]
    split_ifs <;> simp
  | closeWait =>
    simp only [processExistingTcb, hst, processCloseWait]
    split_ifs <;> simp [ackSegment, remotePort_bufferData]
  | lastAck =>
    simp only [processExistingTcb, hst, processLastAck]
    split_ifs <;> simp
  | finWait1 =>
    simp only [processExistingTcb, hst, processFinWait1]
    split_ifs <;> simp [ackSegment, remotePort_bufferData]
  | finWait2 =>
    simp only [processExistingTcb, hst, processFinWait2]
    split_ifs <;> simp [ackSegment, remotePort_bufferData]
  | synSent =>
    simp only [processExistingTcb, hst, processSynSent]
    split_ifs <;> simp [ackSegment]
  | closing =>
    simp only [processExistingTcb, hst, processClosing]
    split_ifs <;> simp
  | closed => simp [processExistingTcb, hst]
  | listen => simp [processExistingTcb, hst]
  | timeWait => simp [processExistingTcb, hst]

@[simp] theorem remotePort_afterSending (segs : List OutgoingSegment) (now : Instant) (t : Tcb) :
    (t.afterSending segs now).remotePort = t.remotePort := by
  obtain ⟨r, hr⟩ := exists_afterSending segs now t
  rw [hr]

/-- Nothing that happens to a connection changes the peer's port. -/
theorem remotePort_onEvent (t : Tcb) (e : ConnEvent) :
    (t.onEvent e).remotePort = t.remotePort := by
  cases e with
  | send data now =>
    simp only [onEvent, remotePort_afterSending, send]
    split <;> rfl
  | recv => rfl
  | close now =>
    simp only [onEvent, remotePort_afterSending, close]
    split <;> rfl
  | segment header payload now =>
    simp only [onEvent, remotePort_afterSending]
    exact (t.remotePort_processExistingTcb header payload now).1
  | poll now =>
    obtain ⟨st, r, rto, n, -, heq⟩ := t.exists_retransmit now
    simp only [onEvent, heq]

end Tcb

namespace TcpCore

/-- An entry under `k` is a connection from our address to the port in its key. -/
def AddressedAt (k : ConnKey) (ourIp : Ipv4Addr) (entry : Option Tcb) : Prop :=
  ∀ t, entry = some t → k.localIp = ourIp ∧ t.remotePort = k.remotePort

/-- All entries of the table are. -/
def Addressed (c : TcpCore) : Prop := ∀ k, AddressedAt k c.ourIp (c.get k)

theorem AddressedAt.stepConn {k : ConnKey} {ourIp : Ipv4Addr} {entry : Option Tcb}
    (h : AddressedAt k ourIp entry) (e : ConnEvent) :
    AddressedAt k ourIp (Tcb.stepConn entry e) := by
  have hmap : AddressedAt k ourIp (entry.map (·.onEvent e)) := by
    intro t' ht'
    obtain ⟨t, ht, rfl⟩ := Option.map_eq_some_iff.mp ht'
    obtain ⟨hip, hport⟩ := h t ht
    exact ⟨hip, (t.remotePort_onEvent e).trans hport⟩
  cases e with
  | poll now =>
    intro t' ht'
    exact hmap t' (Option.filter_eq_some_iff.mp ht').1
  | _ => exact hmap

/-- A connection is opened from our address. -/
theorem localIp_of_opened {c : TcpCore} {k : ConnKey} {e : Event} {iss : UInt32} {now : Instant}
    (h : KeyEvent.opened iss now ∈ c.observe k e) : k.localIp = c.ourIp := by
  cases e with
  | connect remoteIp remotePort iss' =>
    simp only [observe] at h
    split at h
    · rename_i hopens
      rw [← hopens.1]
      rfl
    · exact absurd h (by simp)
  | poll elapsed => exact absurd h (by simp [observe])
  | _ =>
    simp only [observe] at h
    split at h
    · exact absurd h (by simp)
    · exact absurd h (by simp)

/-- The step: on each entry, event by event. -/
theorem Addressed.step {c : TcpCore} (h : c.Addressed) (e : Event) : (c.step e).Addressed := by
  intro k
  rw [step_ourIp, get_step]
  have hguard : Run.Guarded (Tcb.stepKey k)
      (fun _ e' => ∀ iss now, e' = .opened iss now → k.localIp = c.ourIp) (c.get k)
      (c.observe k e) :=
    Run.guarded_of_forall (fun _ e' he' iss now heq => localIp_of_opened (heq ▸ he')) _
  refine Run.invariant_of_guarded (AddressedAt k c.ourIp) ?_ (h k) hguard
  intro entry e' hentry hopened
  cases e' with
  | opened iss now =>
    intro t ht
    obtain rfl : k.opened iss now = t := Option.some.inj ht
    exact ⟨hopened iss now rfl, rfl⟩
  | conn e' => exact hentry.stepConn e'

theorem addressed_run (ourIp : Ipv4Addr) (start : Instant) (es : List Event) :
    (run step (.new ourIp start) es).Addressed := by
  apply Run.invariant Addressed
  · intro c e h
    exact h.step e
  · intro k t ht
    exact absurd ht (by simp [get, new, TcpManager.get, TcpManager.new])

/-! ## Where replies go -/

/-- A live connection to that port of that peer. -/
def HasConnectionTo (c : TcpCore) (remoteIp : Ipv4Addr) (remotePort : UInt16) : Prop :=
  ∃ k t, c.get k = some t ∧ k.remoteIp = remoteIp ∧ k.remotePort = remotePort

/-- The port that `find_src_port` guesses belongs to a live connection. -/
theorem findSrcPort_eq_some {m : TcpManager} {remoteIp : Ipv4Addr} {remotePort port : UInt16}
    (h : m.findSrcPort remoteIp remotePort = some port) :
    ∃ k t, m.get k = some t ∧ k.remoteIp = remoteIp ∧ k.remotePort = remotePort ∧
      k.localPort = port := by
  obtain ⟨k, hk, hport⟩ := Option.map_eq_some_iff.mp h
  have hmem := List.mem_of_find?_eq_some hk
  obtain ⟨hip, hremote⟩ : k.remoteIp = remoteIp ∧ k.remotePort = remotePort := by
    simpa using List.find?_some hk
  obtain ⟨t, ht⟩ := Option.isSome_iff_exists.mp (AList.lookup_isSome.mpr hmem)
  exact ⟨k, t, ht, hip, hremote, hport⟩

theorem findSrcPort_eq_none_iff {c : TcpCore} {remoteIp : Ipv4Addr} {remotePort : UInt16} :
    c.tcp.findSrcPort remoteIp remotePort = none ↔ ¬ c.HasConnectionTo remoteIp remotePort := by
  constructor
  · rintro hnone ⟨k, t, ht, hip, hport⟩
    have hall := List.find?_eq_none.mp (Option.map_eq_none_iff.mp hnone)
    have hmem : k ∈ c.tcp.connections.keys := AList.lookup_isSome.mp (by
      show (c.get k).isSome = true
      rw [ht]
      rfl)
    exact hall k hmem (by simp [hip, hport])
  · intro hno
    by_contra hsome
    obtain ⟨port, hport⟩ := Option.ne_none_iff_exists'.mp hsome
    obtain ⟨k, t, ht, hip, hremote, -⟩ := findSrcPort_eq_some hport
    exact hno ⟨k, t, ht, hip, hremote⟩

end TcpCore

/-- **Where replies go.**  In every run of the stack, all packets that leave for a
segment go back on its four-tuple exactly if the segment belongs to a connection, or
is a reset, or is for port 0 from a port that no connection goes to. -/
theorem replies_onFourTuple_iff (ourIp : Ipv4Addr) (start : Instant) (es : List Event)
    (remoteIp : Ipv4Addr) (header : TcpHeader) (payload : List UInt8) :
    let c := run TcpCore.step (.new ourIp start) es
    (∀ p ∈ c.replies remoteIp header payload, p.OnFourTuple remoteIp header) ↔
      (c.get (TcpManager.segmentKey ourIp remoteIp header)).isSome = true ∨
        header.has tcpRst = true ∨
        (header.dstPort = 0 ∧ ¬ c.HasConnectionTo remoteIp header.srcPort) := by
  intro c
  have hip : c.ourIp = ourIp := TcpCore.run_ourIp ..
  have haddressed : c.Addressed := TcpCore.addressed_run ourIp start es
  rw [← hip]
  cases ht : c.get (TcpManager.segmentKey c.ourIp remoteIp header) with
  | some t =>
    refine iff_of_true ?_ (.inl rfl)
    intro p hp
    obtain ⟨-, hout⟩ := TcpManager.process_of_get ht payload c.now
    simp only [TcpCore.replies, hout] at hp
    obtain ⟨hport, hdst, hseg⟩ := TcpCore.mem_packets_some hp
    have hpeer := (t.remotePort_processExistingTcb header payload c.now).2 p.segment hseg
    exact ⟨hport, hdst, hpeer.trans (haddressed _ t ht).2⟩
  | none =>
    have hout := TcpManager.process_of_get_none ht payload c.now
    simp only [TcpCore.replies, hout, Option.isSome_none, Bool.false_eq_true, false_or]
    by_cases hrst : header.has tcpRst = true
    · rw [if_pos hrst]
      refine iff_of_true ?_ (.inl hrst)
      intro p hp
      exact absurd hp (by simp [TcpCore.packets])
    · rw [if_neg hrst]
      simp only [TcpCore.packets, List.mem_singleton, forall_eq, hrst, Bool.false_eq_true,
        false_or]
      rw [← TcpCore.findSrcPort_eq_none_iff]
      show (c.tcp.findSrcPort remoteIp header.srcPort).getD 0 = header.dstPort ∧
        remoteIp = remoteIp ∧ header.srcPort = header.srcPort ↔ _
      cases hfound : c.tcp.findSrcPort remoteIp header.srcPort with
      | none => simp [eq_comm]
      | some port =>
        -- the guess is the port of another connection, since the segment's has none
        simp only [Option.getD_some, and_true, reduceCtorEq, and_false, iff_false]
        intro hport
        obtain ⟨k, t, hk, hremoteIp, hremotePort, hlocalPort⟩ :=
          TcpCore.findSrcPort_eq_some hfound
        have hlocalIp : k.localIp = c.ourIp := (haddressed k t hk).1
        have hkey : TcpManager.segmentKey c.ourIp remoteIp header = k := by
          rw [← hlocalIp, ← hremoteIp, TcpManager.segmentKey, ← hremotePort, ← hport, ← hlocalPort]
        rw [hkey] at ht
        exact absurd (ht.symm.trans hk) (by simp)

/-- A segment of the demo's peer for another port of ours. -/
def demoStrayHeader : TcpHeader := { demoHeader 7000 0 tcpSyn with dstPort := 22 }

/-- **A closed port is refused from a live connection's port.**  While the demo
connection is open, its peer asks for port 22: the reset that refuses this leaves
from port 40000. -/
theorem demo_reset_from_live_port :
    let c := run TcpCore.step demoStack demoHandshake
    c.get ⟨demoKey.localIp, 22, demoKey.remoteIp, 9999⟩ = none ∧
      c.replies demoKey.remoteIp demoStrayHeader [] =
        [{ srcPort := 40000, dstIp := demoKey.remoteIp
           segment := { flags := tcpRst ||| tcpAck, seq := 0, ack := 7001, payload := []
                        dstPort := 9999 } }] ∧
      ¬ ∀ p ∈ c.replies demoKey.remoteIp demoStrayHeader [],
        p.OnFourTuple demoKey.remoteIp demoStrayHeader := by
  decide

end PpcaNetwork.TcpStack
