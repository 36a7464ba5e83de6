import PpcaNetwork.Lib.Exec
import PpcaNetwork.Lib.Net
import PpcaNetwork.Lib.Run
import PpcaNetwork.Toolkit.Icmp

/-!
# The receive loops of `traceroute`

`run_udp` and `run_icmp` send all probes and then match what comes back with them.  The
loops differ in how a message names its probe, and in what shows that the target has been
reached; the matching itself, which the source writes out three times, is the same.

* `udpMessage`, `icmpMessage` — what a message says in either loop.
* `Trace.account` — the matching; `Trace.turn` — one turn of a loop.
* `Trace.Books` — the books, given the probes that the target has answered;
  `Trace.Books.account` is the step lemma.
* `traceroute_bookkeeping` — every run of both loops.
-/

namespace PpcaNetwork.Toolkit

/-- `Probe`: one probe that has been sent. -/
structure Probe where
  ttl : UInt8
  /-- A destination port or a sequence number. -/
  marker : UInt16
  sentAt : Instant
  received : Bool
  /-- `rtt_ms`, before it is made a number of milliseconds. -/
  rtt : Duration

/-- A probe that has been sent. -/
structure Sent where
  ttl : UInt8
  marker : UInt16
  sentAt : Instant

/-- The entry that is pushed for a probe. -/
def Sent.probe (p : Sent) : Probe := ⟨p.ttl, p.marker, p.sentAt, false, 0⟩

/-- What was written down when it was sent. -/
def Probe.sent (p : Probe) : Sent := ⟨p.ttl, p.marker, p.sentAt⟩

/-! ## Messages -/

/-- Which probe a message is about, and whether it shows that the target has been reached. -/
structure Message where
  marker : UInt16
  reached : Bool

/-- The two programs, with the identifier of `run_icmp`. -/
inductive Mode where
  | udp
  | icmp (id : UInt16)

/-- The test of `run_udp`. -/
def udpMessage (icmpBody : List UInt8) : Option Message :=
  match parseIcmpError icmpBody with
  | some (icmpType, icmpCode, protocol, transport) =>
    if protocol = 17 then
      let dstPort := ofOctets16 (transport.get 2) (transport.get 3)
      some ⟨dstPort, icmpType = icmpDestUnreach ∧ icmpCode = 3⟩
    else none
  | none => none

/-- The tests of `run_icmp`. -/
def icmpMessage (id : UInt16) (icmpBody : List UInt8) : Option Message :=
  match parseEchoReply icmpBody with
  | some (rid, rseq, _) => if rid = id then some ⟨rseq, true⟩ else none
  | none =>
    match parseIcmpError icmpBody with
    | some (icmpType, icmpCode, protocol, transport) =>
      if icmpType = icmpTimeExceeded ∧ icmpCode = 0 ∧ protocol = 1 then
        let innerId := ofOctets16 (transport.get 4) (transport.get 5)
        let innerSeq := ofOctets16 (transport.get 6) (transport.get 7)
        if innerId = id then some ⟨innerSeq, false⟩ else none
      else none
    | none => none

namespace Mode

/-- What a packet says, in the mode of the trace. -/
def message : Mode → List UInt8 → Option Message
  | udp => udpMessage
  | icmp id => icmpMessage id

/-- A message that carries a marker: the port or the sequence number of the packet that it
quotes, or the sequence number of an echo reply. -/
def Carries : Mode → UInt16 → List UInt8 → Prop
  | udp, marker, body => ∃ icmpType icmpCode transport,
      parseIcmpError body = some (icmpType, icmpCode, 17, transport) ∧
        ofOctets16 (transport.get 2) (transport.get 3) = marker
  | icmp id, marker, body => (∃ payload, parseEchoReply body = some (id, marker, payload)) ∨
      ∃ transport, parseIcmpError body = some (icmpTimeExceeded, 0, 1, transport) ∧
        ofOctets16 (transport.get 4) (transport.get 5) = id ∧
        ofOctets16 (transport.get 6) (transport.get 7) = marker

/-- A message that shows that the target has been reached: port unreachable, or an echo reply. -/
def Reached : Mode → List UInt8 → Prop
  | udp, body => ∃ transport, parseIcmpError body = some (icmpDestUnreach, 3, 17, transport)
  | icmp id, body => ∃ seq payload, parseEchoReply body = some (id, seq, payload)

theorem of_udpMessage {body : List UInt8} {m : Message} (h : udpMessage body = some m) :
    Carries .udp m.marker body ∧ (m.reached = true ↔ Reached .udp body) := by
  unfold udpMessage at h
  cases hparse : parseIcmpError body with
  | none =>
    rw [hparse] at h
    cases h
  | some quoted =>
    obtain ⟨icmpType, icmpCode, protocol, transport⟩ := quoted
    rw [hparse] at h
    simp only [Option.ite_none_right_eq_some, Option.some.injEq] at h
    obtain ⟨rfl, rfl⟩ := h
    refine ⟨⟨icmpType, icmpCode, transport, hparse, rfl⟩, ?_⟩
    simp [Reached, hparse]

theorem of_icmpMessage {id : UInt16} {body : List UInt8} {m : Message}
    (h : icmpMessage id body = some m) :
    Carries (.icmp id) m.marker body ∧ (m.reached = true ↔ Reached (.icmp id) body) := by
  unfold icmpMessage at h
  cases hreply : parseEchoReply body with
  | some reply =>
    obtain ⟨rid, rseq, payload⟩ := reply
    rw [hreply] at h
    simp only [Option.ite_none_right_eq_some, Option.some.injEq] at h
    obtain ⟨rfl, rfl⟩ := h
    refine ⟨.inl ⟨payload, hreply⟩, ?_⟩
    simp [Reached, hreply]
  | none =>
    cases hparse : parseIcmpError body with
    | none =>
      rw [hreply, hparse] at h
      cases h
    | some quoted =>
      obtain ⟨icmpType, icmpCode, protocol, transport⟩ := quoted
      rw [hreply, hparse] at h
      simp only [Option.ite_none_right_eq_some, Option.some.injEq] at h
      obtain ⟨⟨rfl, rfl, rfl⟩, hid, rfl⟩ := h
      refine ⟨.inr ⟨transport, hparse, hid, rfl⟩, ?_⟩
      simp [Reached, hreply]

/-- What is read of a message is what it carries. -/
theorem of_message {mode : Mode} {body : List UInt8} {m : Message}
    (h : mode.message body = some m) :
    mode.Carries m.marker body ∧ (m.reached = true ↔ mode.Reached body) := by
  cases mode with
  | udp => exact of_udpMessage h
  | icmp id => exact of_icmpMessage h

end Mode

/-! ## The loops -/

/-- What `recv_from` returns. -/
inductive Reception where
  /-- A packet, its sender, and the clock when it is matched. -/
  | packet (p : IpPacket) (from_ : Ipv4Addr) (now : Instant)
  | wouldBlock
  | failed

/-- One turn: the clock in the condition of the loop, and what is received. -/
structure Turn where
  clock : Instant
  reception : Reception

/-- A turn that receives a message with the property `P`. -/
def Turn.Receives (P : List UInt8 → Prop) (t : Turn) : Prop :=
  ∃ packet ip now, t.reception = .packet packet ip now ∧ P packet.icmpBody

theorem Turn.receives_iff {P : List UInt8 → Prop} {t : Turn} {packet : IpPacket} {ip : Ipv4Addr}
    {now : Instant} (h : t.reception = .packet packet ip now) :
    t.Receives P ↔ P packet.icmpBody := by
  simp [Turn.Receives, h]

/-- What a loop works on. -/
structure Trace where
  probes : List Probe
  hopAddrs : List (Option Ipv4Addr)
  targetReachedAt : Option UInt8
  unreceived : Nat
  globalDeadline : Instant
  /-- The loop has been left. -/
  ended : Bool

namespace Trace

/-- Before the loop: the probes that have been sent, and the number of entries of `hop_addrs`. -/
def start (table : List Sent) (hops : Nat) (globalDeadline : Instant) : Trace where
  probes := table.map Sent.probe
  hopAddrs := List.replicate hops none
  targetReachedAt := none
  unreceived := table.length
  globalDeadline := globalDeadline
  ended := false

/-- The matching of a message with the probes: the first that carries its marker and has not
been received. -/
def account (s : Trace) (m : Message) (ip : Ipv4Addr) (now : Instant) : Exec Trace :=
  match s.probes.findIdx? fun probe => probe.marker = m.marker ∧ probe.received = false with
  | none => pure s
  | some i => do
    let probe ← Exec.index s.probes i
    let unreceived ← Exec.sub s.unreceived 1
    let hopAddr ← Exec.index s.hopAddrs probe.ttl.toNat
    let hopAddrs :=
      if hopAddr.isNone then s.hopAddrs.set probe.ttl.toNat (some ip) else s.hopAddrs
    let targetReachedAt :=
      if m.reached ∧ ∀ t ∈ s.targetReachedAt, probe.ttl < t then some probe.ttl
      else s.targetReachedAt
    pure { s with
      probes := s.probes.set i { probe with received := true, rtt := now - probe.sentAt }
      unreceived, hopAddrs, targetReachedAt }

/-- One turn of the loop. -/
def turn (mode : Mode) (s : Trace) (t : Turn) : Exec Trace :=
  if s.ended then pure s
  else if 0 < s.unreceived ∧ t.clock < s.globalDeadline then
    match t.reception with
    | .packet p from_ now =>
      match mode.message p.icmpBody with
      | none => pure s
      | some m => s.account m from_ now
    | .wouldBlock => pure s
    | .failed => pure { s with ended := true }
  else pure { s with ended := true }

/-- One turn of a loop that has not gone wrong. -/
def step (mode : Mode) (x : Exec Trace) (t : Turn) : Exec Trace := x >>= fun s => s.turn mode t

/-! ## What a turn does -/

/-- A turn that gives nothing to account. -/
structure Quiet (s s' : Trace) : Prop where
  probes : s'.probes = s.probes
  hopAddrs : s'.hopAddrs = s.hopAddrs
  targetReachedAt : s'.targetReachedAt = s.targetReachedAt
  unreceived : s'.unreceived = s.unreceived

/-- A message from `ip` that is taken up for the probe at `i`. -/
structure Takes (m : Message) (ip : Ipv4Addr) (i : Nat) (p : Probe) (s s' : Trace) : Prop where
  probe : s.probes[i]? = some p
  marker : p.marker = m.marker
  not_received : p.received = false
  probes : ∃ rtt, s'.probes = s.probes.set i { p with received := true, rtt := rtt }
  hopAddrs : s.hopAddrs[p.ttl.toNat]? = some none ∧
      s'.hopAddrs = s.hopAddrs.set p.ttl.toNat (some ip) ∨
    (∃ ip', s.hopAddrs[p.ttl.toNat]? = some (some ip')) ∧ s'.hopAddrs = s.hopAddrs
  targetReachedAt : s'.targetReachedAt =
    if m.reached ∧ ∀ t ∈ s.targetReachedAt, p.ttl < t then some p.ttl else s.targetReachedAt
  unreceived : s'.unreceived + 1 = s.unreceived

/-- What keeps a loop from going wrong. -/
structure Sound (table : List Sent) (hops : Nat) (s : Trace) : Prop where
  probes_sent : s.probes.map Probe.sent = table
  unreceived_add : s.unreceived + s.probes.countP (fun p => p.received) = table.length
  length_hopAddrs : s.hopAddrs.length = hops

section Turns

variable {table : List Sent} {hops : Nat} {mode : Mode} {s s' : Trace} {m : Message}
  {ip : Ipv4Addr} {i : Nat} {p : Probe} {t : Turn}

theorem sound_start (globalDeadline : Instant) :
    (start table hops globalDeadline).Sound table hops where
  probes_sent := by
    rw [start, List.map_map]
    exact List.map_id table
  unreceived_add := by simp [start, Sent.probe, List.countP_map, Function.comp_def]
  length_hopAddrs := by simp [start]

theorem Sound.table_eq (h : s.Sound table hops) (hprobe : s.probes[i]? = some p) :
    table[i]? = some p.sent := by
  rw [← h.probes_sent, List.getElem?_map, hprobe]
  rfl

/-- As long as a probe has not been received, something is left to be received. -/
theorem Sound.unreceived_pos (h : s.Sound table hops) (hprobe : s.probes[i]? = some p)
    (hreceived : p.received = false) : 0 < s.unreceived := by
  have hmem : p ∈ s.probes := List.mem_of_getElem? hprobe
  have hlt : s.probes.countP (fun p => p.received) < s.probes.length := by
    rw [List.countP_lt_length_iff]
    exact ⟨p, hmem, by simp [hreceived]⟩
  have hlength : s.probes.length = table.length := by rw [← h.probes_sent, List.length_map]
  have hadd := h.unreceived_add
  omega

/-- The ttl of a probe is one of the table. -/
theorem Sound.ttl_lt (h : s.Sound table hops) (hidx : ∀ p ∈ table, p.ttl.toNat < hops)
    (hprobe : s.probes[i]? = some p) : p.ttl.toNat < hops := by
  refine hidx p.sent ?_
  rw [← h.probes_sent]
  exact List.mem_map_of_mem (List.mem_of_getElem? hprobe)

/-- The matching finds no probe, or takes the message up for one. -/
theorem account_cases (h : s.Sound table hops) (hidx : ∀ p ∈ table, p.ttl.toNat < hops)
    (m : Message) (ip : Ipv4Addr) (now : Instant) :
    s.account m ip now = .returns s ∨
      ∃ i p s', s.account m ip now = .returns s' ∧ Takes m ip i p s s' := by
  unfold account
  cases hfind : s.probes.findIdx? fun probe => probe.marker = m.marker ∧ probe.received = false with
  | none => exact .inl rfl
  | some i =>
    obtain ⟨hi, hp, -⟩ := List.findIdx?_eq_some_iff_getElem.mp hfind
    obtain ⟨hmarker, hreceived⟩ := of_decide_eq_true hp
    have hprobe : s.probes[i]? = some s.probes[i] := List.getElem?_eq_getElem hi
    have hpos := h.unreceived_pos hprobe hreceived
    have httl : s.probes[i].ttl.toNat < s.hopAddrs.length := by
      rw [h.length_hopAddrs]
      exact h.ttl_lt hidx hprobe
    dsimp only
    rw [Exec.index_eq hi, Exec.returns_bind, Exec.sub_eq hpos, Exec.returns_bind,
      Exec.index_eq httl, Exec.returns_bind]
    refine .inr ⟨i, s.probes[i], _, rfl, hprobe, hmarker, hreceived, ⟨_, rfl⟩, ?_, rfl, ?_⟩
    · rw [List.getElem?_eq_getElem httl]
      cases s.hopAddrs[s.probes[i].ttl.toNat] with
      | none => exact .inl ⟨rfl, rfl⟩
      | some ip' => exact .inr ⟨⟨ip', rfl⟩, rfl⟩
    · exact Nat.sub_add_cancel hpos

/-- A turn gives nothing to account, or takes up what it has received. -/
theorem turn_cases (h : s.Sound table hops) (hidx : ∀ p ∈ table, p.ttl.toNat < hops)
    (mode : Mode) (t : Turn) :
    ∃ s', s.turn mode t = .returns s' ∧ (Quiet s s' ∨ ∃ packet ip now m i p,
      t.reception = .packet packet ip now ∧ mode.message packet.icmpBody = some m ∧
        Takes m ip i p s s') := by
  have hquiet : Quiet s s := ⟨rfl, rfl, rfl, rfl⟩
  have hended : Quiet s { s with ended := true } := ⟨rfl, rfl, rfl, rfl⟩
  unfold turn
  split
  · exact ⟨s, rfl, .inl hquiet⟩
  · split
    · cases hreception : t.reception with
      | wouldBlock => exact ⟨s, rfl, .inl hquiet⟩
      | failed => exact ⟨_, rfl, .inl hended⟩
      | packet packet ip now =>
        dsimp only
        cases hmessage : mode.message packet.icmpBody with
        | none => exact ⟨s, rfl, .inl hquiet⟩
        | some m =>
          rcases account_cases h hidx m ip now with heq | ⟨i, p, s', heq, htakes⟩
          · exact ⟨s, heq, .inl hquiet⟩
          · exact ⟨s', heq, .inr ⟨packet, ip, now, m, i, p, rfl, hmessage, htakes⟩⟩
    · exact ⟨_, rfl, .inl hended⟩

theorem Sound.of_quiet (h : s.Sound table hops) (hq : Quiet s s') : s'.Sound table hops := by
  refine ⟨?_, ?_, ?_⟩
  · rw [hq.probes, h.probes_sent]
  · rw [hq.unreceived, hq.probes, h.unreceived_add]
  · rw [hq.hopAddrs, h.length_hopAddrs]

theorem Sound.of_takes (h : s.Sound table hops) (ht : Takes m ip i p s s') :
    s'.Sound table hops := by
  obtain ⟨hi, hp⟩ := List.getElem?_eq_some_iff.mp ht.probe
  obtain ⟨rtt, hprobes⟩ := ht.probes
  refine ⟨?_, ?_, ?_⟩
  · have hlt : i < (s.probes.map Probe.sent).length := by rwa [List.length_map]
    have hsame : Probe.sent { p with received := true, rtt := rtt } =
        (s.probes.map Probe.sent)[i] := by
      rw [List.getElem_map, hp]
      rfl
    rw [hprobes, List.map_set, hsame, List.set_getElem_self, h.probes_sent]
  · rw [hprobes, List.countP_set hi, hp, ht.not_received]
    have hadd := h.unreceived_add
    have hless := ht.unreceived
    simp
    omega
  · rcases ht.hopAddrs with ⟨-, hset⟩ | ⟨-, hsame⟩
    · rw [hset, List.length_set, h.length_hopAddrs]
    · rw [hsame, h.length_hopAddrs]

/-- The probe at `i` is marked received. -/
def Received (i : Nat) (x : Exec Trace) : Prop :=
  ∃ s p, x = .returns s ∧ s.probes[i]? = some p ∧ p.received = true

theorem received_iff {i : Nat} :
    Received i (.returns s) ↔ ∃ p, s.probes[i]? = some p ∧ p.received = true := by
  simp [Received]

theorem received_of_quiet {i : Nat} (hq : Quiet s s') :
    Received i (.returns s') ↔ Received i (.returns s) := by
  rw [received_iff, received_iff, hq.probes]

/-- A message that is taken up for the probe at `i` marks this probe and no other. -/
theorem received_of_takes {j : Nat} (ht : Takes m ip i p s s') :
    Received j (.returns s') ↔ j = i ∨ Received j (.returns s) := by
  obtain ⟨hi, -⟩ := List.getElem?_eq_some_iff.mp ht.probe
  obtain ⟨rtt, hprobes⟩ := ht.probes
  rw [received_iff, received_iff, hprobes, List.getElem?_set]
  by_cases hij : i = j
  · subst hij
    simp [hi]
  · simp [hij, Ne.symm hij]

theorem not_received_of_takes (ht : Takes m ip i p s s') : ¬ Received i (.returns s) := by
  rw [received_iff]
  rintro ⟨q, hq, hreceived⟩
  rw [ht.probe] at hq
  cases hq
  rw [ht.not_received] at hreceived
  cases hreceived

/-! ## The books -/

/-- The probes at the positions in `reached` are those that the target has answered. -/
structure Books (table : List Sent) (hops : Nat) (reached : Nat → Prop) (s : Trace) : Prop
    extends Sound table hops s where
  hop_iff : ∀ ttl : UInt8, ttl.toNat < hops →
    ((∃ ip, s.hopAddrs[ttl.toNat]? = some (some ip)) ↔
      ∃ p ∈ s.probes, p.ttl = ttl ∧ p.received = true)
  reached_none : s.targetReachedAt = none → ∀ i, ¬ reached i
  reached_some : ∀ ttl, s.targetReachedAt = some ttl →
    (∃ i p, reached i ∧ table[i]? = some p ∧ p.ttl = ttl) ∧
      ∀ i p, reached i → table[i]? = some p → ttl ≤ p.ttl

theorem books_start (globalDeadline : Instant) :
    (start table hops globalDeadline).Books table hops fun _ => False where
  toSound := sound_start globalDeadline
  hop_iff ttl httl := by simp [start, Sent.probe, List.getElem?_replicate]
  reached_none _ _ := id
  reached_some _ h := by cases h

variable {reached : Nat → Prop}

theorem Books.of_quiet (h : s.Books table hops reached) (hq : Quiet s s') :
    s'.Books table hops reached := by
  refine ⟨h.toSound.of_quiet hq, ?_, ?_, ?_⟩
  · rw [hq.hopAddrs, hq.probes]
    exact h.hop_iff
  · rw [hq.targetReachedAt]
    exact h.reached_none
  · rw [hq.targetReachedAt]
    exact h.reached_some

/-- Of the hop of a probe that is taken up a probe has been received, of the others what
had been received before. -/
theorem exists_received_of_takes (ht : Takes m ip i p s s') {ttl : UInt8} :
    (∃ q ∈ s'.probes, q.ttl = ttl ∧ q.received = true) ↔
      p.ttl = ttl ∨ ∃ q ∈ s.probes, q.ttl = ttl ∧ q.received = true := by
  obtain ⟨hi, -⟩ := List.getElem?_eq_some_iff.mp ht.probe
  obtain ⟨rtt, hprobes⟩ := ht.probes
  rw [hprobes]
  constructor
  · rintro ⟨q, hq, httl, hreceived⟩
    rcases List.mem_or_eq_of_mem_set hq with hq | rfl
    · exact .inr ⟨q, hq, httl, hreceived⟩
    · exact .inl httl
  · rintro (httl | ⟨q, hq, httl, hreceived⟩)
    · exact ⟨_, List.mem_set hi _, httl, rfl⟩
    · obtain ⟨j, hj⟩ := List.mem_iff_getElem?.mp hq
      have hne : i ≠ j := by
        rintro rfl
        exact not_received_of_takes ht (received_iff.mpr ⟨q, hj, hreceived⟩)
      refine ⟨q, List.mem_iff_getElem?.mpr ⟨j, ?_⟩, httl, hreceived⟩
      rw [List.getElem?_set_ne hne, hj]

/-- An address that is known is kept. -/
theorem hopAddrs_of_takes (ht : Takes m ip i p s s') {n : Nat} {ip' : Ipv4Addr}
    (h : s.hopAddrs[n]? = some (some ip')) : s'.hopAddrs[n]? = some (some ip') := by
  rcases ht.hopAddrs with ⟨hnone, hset⟩ | ⟨-, hsame⟩
  · have hne : p.ttl.toNat ≠ n := by
      rintro rfl
      rw [h] at hnone
      cases hnone
    rw [hset, List.getElem?_set_ne hne, h]
  · rw [hsame, h]

/-- The address of a hop is known once a probe of the hop is received. -/
theorem Books.hop_iff_of_takes (h : s.Books table hops reached) (ht : Takes m ip i p s s')
    {ttl : UInt8} (httl : ttl.toNat < hops) :
    (∃ ip, s'.hopAddrs[ttl.toNat]? = some (some ip)) ↔
      ∃ p ∈ s'.probes, p.ttl = ttl ∧ p.received = true := by
  rw [exists_received_of_takes ht]
  by_cases heq : p.ttl = ttl
  · refine iff_of_true ?_ (.inl heq)
    subst heq
    rcases ht.hopAddrs with ⟨-, hset⟩ | ⟨⟨ip', hsome⟩, -⟩
    · refine ⟨ip, ?_⟩
      rw [hset, List.getElem?_set_self (by rwa [h.length_hopAddrs])]
    · exact ⟨ip', hopAddrs_of_takes ht hsome⟩
  · have hsame : s'.hopAddrs[ttl.toNat]? = s.hopAddrs[ttl.toNat]? := by
      rcases ht.hopAddrs with ⟨-, hset⟩ | ⟨-, hsame⟩
      · rw [hset, List.getElem?_set_ne fun hnat => heq (UInt8.toNat_inj.mp hnat)]
      · rw [hsame]
    rw [hsame, h.hop_iff ttl httl, or_iff_right heq]

theorem Books.of_takes (h : s.Books table hops reached) (ht : Takes m ip i p s s') :
    s'.Books table hops fun j => reached j ∨ j = i ∧ m.reached = true := by
  have hprobe : table[i]? = some p.sent := h.table_eq ht.probe
  refine ⟨h.toSound.of_takes ht, fun ttl httl => h.hop_iff_of_takes ht httl, ?_, ?_⟩
  · rw [ht.targetReachedAt]
    split
    · intro hnone
      cases hnone
    · rename_i hkeep
      rintro hnone j (hj | ⟨-, hreached⟩)
      · exact h.reached_none hnone j hj
      · exact hkeep ⟨hreached, by simp [hnone]⟩
  · rw [ht.targetReachedAt]
    split
    · rename_i hless
      rintro ttl ⟨⟩
      refine ⟨⟨i, p.sent, .inr ⟨rfl, hless.1⟩, hprobe, rfl⟩, ?_⟩
      rintro j q (hj | ⟨rfl, -⟩) hq
      · -- an earlier answer of the target had a greater ttl
        cases hold : s.targetReachedAt with
        | none => exact absurd hj (h.reached_none hold j)
        | some t =>
          have hlt := hless.2 t hold
          exact UInt8.le_trans (UInt8.le_of_lt hlt) ((h.reached_some t hold).2 j q hj hq)
      · rw [hprobe] at hq
        cases hq
        exact UInt8.le_refl _
    · rename_i hkeep
      intro ttl hold
      obtain ⟨⟨j, q, hj, hq, httl⟩, hleast⟩ := h.reached_some ttl hold
      refine ⟨⟨j, q, .inl hj, hq, httl⟩, ?_⟩
      rintro k q (hk | ⟨rfl, hreached⟩) hq
      · exact hleast k q hk hq
      · rw [hprobe] at hq
        cases hq
        refine UInt8.not_lt.mp fun hlt => hkeep ⟨hreached, ?_⟩
        intro t ht
        rw [hold] at ht
        cases ht
        exact hlt

end Turns

/-! ## Runs -/

section Runs

variable {table : List Sent} {hops : Nat} {mode : Mode} {globalDeadline : Instant}
  {turns : List Turn} {i k : Nat}

/-- A loop after some turns. -/
def runLoop (mode : Mode) (table : List Sent) (hops : Nat) (globalDeadline : Instant)
    (turns : List Turn) : Exec Trace :=
  run (step mode) (.returns (start table hops globalDeadline)) turns

/-- The turn at the position `k` marks the probe at the position `i` received. -/
def MarkedAt (mode : Mode) (table : List Sent) (hops : Nat) (globalDeadline : Instant)
    (turns : List Turn) (i k : Nat) : Prop :=
  Run.BecomesAt (step mode) (Received i) (.returns (start table hops globalDeadline)) turns k

/-- The probe at the position `i` is marked received by a message that shows that the target
has been reached. -/
def AnsweredBy (mode : Mode) (table : List Sent) (hops : Nat) (globalDeadline : Instant)
    (turns : List Turn) (i : Nat) : Prop :=
  ∃ k t, MarkedAt mode table hops globalDeadline turns i k ∧ turns[k]? = some t ∧
    t.Receives mode.Reached

theorem runLoop_append {t : Turn} : runLoop mode table hops globalDeadline (turns ++ [t]) =
    step mode (runLoop mode table hops globalDeadline turns) t := by
  rw [runLoop, Run.run_append]
  rfl

theorem markedAt_append {t : Turn} : MarkedAt mode table hops globalDeadline (turns ++ [t]) i k ↔
    MarkedAt mode table hops globalDeadline turns i k ∨ k = turns.length ∧
      ¬ Received i (runLoop mode table hops globalDeadline turns) ∧
      Received i (step mode (runLoop mode table hops globalDeadline turns) t) :=
  Run.becomesAt_append_singleton

theorem MarkedAt.lt (h : MarkedAt mode table hops globalDeadline turns i k) : k < turns.length :=
  Run.BecomesAt.lt h

theorem answeredBy_append {t : Turn} :
    AnsweredBy mode table hops globalDeadline (turns ++ [t]) i ↔
      AnsweredBy mode table hops globalDeadline turns i ∨
        ¬ Received i (runLoop mode table hops globalDeadline turns) ∧
        Received i (step mode (runLoop mode table hops globalDeadline turns) t) ∧
        t.Receives mode.Reached := by
  constructor
  · rintro ⟨k, t', hmarked, ht', hreached⟩
    rcases markedAt_append.mp hmarked with hold | ⟨rfl, hbefore, hafter⟩
    · rw [List.getElem?_append_left hold.lt] at ht'
      exact .inl ⟨k, t', hold, ht', hreached⟩
    · rw [List.getElem?_concat_length] at ht'
      cases ht'
      exact .inr ⟨hbefore, hafter, hreached⟩
  · rintro (⟨k, t', hold, ht', hreached⟩ | ⟨hbefore, hafter, hreached⟩)
    · refine ⟨k, t', markedAt_append.mpr (.inl hold), ?_, hreached⟩
      rw [List.getElem?_append_left hold.lt, ht']
    · exact ⟨turns.length, t, markedAt_append.mpr (.inr ⟨rfl, hbefore, hafter⟩),
        List.getElem?_concat_length, hreached⟩

theorem Books.congr {reached reached' : Nat → Prop} {s : Trace} (h : s.Books table hops reached)
    (hiff : ∀ i, reached' i ↔ reached i) : s.Books table hops reached' := by
  have heq : reached' = reached := funext fun i => propext (hiff i)
  rwa [heq]

/-- In every run the books are kept, and a probe is marked by a message that carries its
marker. -/
theorem books_run (hidx : ∀ p ∈ table, p.ttl.toNat < hops) (mode : Mode)
    (globalDeadline : Instant) (turns : List Turn) :
    (∃ s, runLoop mode table hops globalDeadline turns = .returns s ∧
      s.Books table hops (AnsweredBy mode table hops globalDeadline turns)) ∧
    ∀ i k, MarkedAt mode table hops globalDeadline turns i k → ∃ t p, turns[k]? = some t ∧
      table[i]? = some p ∧ t.Receives (mode.Carries p.marker) := by
  induction turns using List.reverseRecOn with
  | nil =>
    have hnone : ∀ i k, ¬ MarkedAt mode table hops globalDeadline [] i k :=
      fun i k h => absurd h.lt (Nat.not_lt_zero _)
    refine ⟨⟨_, rfl, (books_start globalDeadline).congr ?_⟩, fun i k h => absurd h (hnone i k)⟩
    exact fun i => iff_of_false (fun ⟨k, _, h, _⟩ => hnone i k h) id
  | append_singleton turns t ih =>
    obtain ⟨⟨s, hrun, hbooks⟩, hcarried⟩ := ih
    obtain ⟨s', hturn, hcases⟩ := turn_cases hbooks.toSound hidx mode t
    have hstep : step mode (runLoop mode table hops globalDeadline turns) t = .returns s' := by
      rw [hrun, step, Exec.returns_bind, hturn]
    have hkept : ∀ i k, MarkedAt mode table hops globalDeadline turns i k →
        ∃ t' p, (turns ++ [t])[k]? = some t' ∧ table[i]? = some p ∧
          t'.Receives (mode.Carries p.marker) := by
      intro i k h
      obtain ⟨t', p, ht', hp, hreceives⟩ := hcarried i k h
      exact ⟨t', p, by rw [List.getElem?_append_left h.lt, ht'], hp, hreceives⟩
    rw [runLoop_append, hstep]
    rcases hcases with hquiet | ⟨packet, ip, now, m, i, p, hreception, hmessage, htakes⟩
    · have hnothing : ∀ i, ¬ (¬ Received i (.returns s) ∧ Received i (.returns s')) :=
        fun i h => h.1 ((received_of_quiet hquiet).mp h.2)
      refine ⟨⟨s', rfl, (hbooks.of_quiet hquiet).congr fun i => ?_⟩, fun i k h => ?_⟩
      · rw [answeredBy_append, hstep, hrun]
        exact or_iff_left fun h => hnothing i ⟨h.1, h.2.1⟩
      · rw [markedAt_append, hstep, hrun] at h
        rcases h with hold | ⟨-, hbefore, hafter⟩
        · exact hkept i k hold
        · exact absurd ⟨hbefore, hafter⟩ (hnothing i)
    · obtain ⟨hcarries, hreached⟩ := Mode.of_message hmessage
      have hmarks : ∀ j, ¬ Received j (.returns s) ∧ Received j (.returns s') ↔ j = i := by
        intro j
        rw [received_of_takes htakes]
        constructor
        · rintro ⟨hbefore, rfl | hold⟩
          · rfl
          · exact absurd hold hbefore
        · rintro rfl
          exact ⟨not_received_of_takes htakes, .inl rfl⟩
      refine ⟨⟨s', rfl, (hbooks.of_takes htakes).congr fun j => ?_⟩, fun j k h => ?_⟩
      · rw [answeredBy_append, hstep, hrun, ← and_assoc, hmarks, hreached,
          Turn.receives_iff hreception]
      · rw [markedAt_append, hstep, hrun] at h
        rcases h with hold | ⟨rfl, hnew⟩
        · exact hkept j k hold
        · obtain rfl := (hmarks j).mp hnew
          have hmarker : p.sent.marker = m.marker := htakes.marker
          refine ⟨t, p.sent, List.getElem?_concat_length, hbooks.table_eq htakes.probe, ?_⟩
          rw [Turn.receives_iff hreception, hmarker]
          exact hcarries

/-- A loop that has not gone wrong goes on, and forgets nothing. -/
theorem step_keeps (hidx : ∀ p ∈ table, p.ttl.toNat < hops) {x : Exec Trace} {t : Turn}
    (h : ∃ s, x = .returns s ∧ s.Sound table hops) :
    (∃ s, step mode x t = .returns s ∧ s.Sound table hops) ∧
    (∀ i, Received i x → Received i (step mode x t)) ∧
    ∀ (n : Nat) (ip : Ipv4Addr), (∃ s, x = .returns s ∧ s.hopAddrs[n]? = some (some ip)) →
      ∃ s, step mode x t = .returns s ∧ s.hopAddrs[n]? = some (some ip) := by
  obtain ⟨s, rfl, hsound⟩ := h
  obtain ⟨s', hturn, hcases⟩ := turn_cases hsound hidx mode t
  rw [step, Exec.returns_bind, hturn]
  rcases hcases with hquiet | ⟨packet, ip, now, m, i, p, -, -, htakes⟩
  · refine ⟨⟨s', rfl, hsound.of_quiet hquiet⟩, fun i => (received_of_quiet hquiet).mpr, ?_⟩
    rintro n ip ⟨s₀, hs₀, hsome⟩
    cases hs₀
    exact ⟨s', rfl, by rw [hquiet.hopAddrs, hsome]⟩
  · refine ⟨⟨s', rfl, hsound.of_takes htakes⟩,
      fun j h => (received_of_takes htakes).mpr (.inr h), ?_⟩
    rintro n ip' ⟨s₀, hs₀, hsome⟩
    cases hs₀
    exact ⟨s', rfl, hopAddrs_of_takes htakes hsome⟩

theorem MarkedAt.unique (hidx : ∀ p ∈ table, p.ttl.toNat < hops) {j : Nat}
    (hj : MarkedAt mode table hops globalDeadline turns i j)
    (hk : MarkedAt mode table hops globalDeadline turns i k) : j = k :=
  Run.BecomesAt.unique (fun x => ∃ s, x = .returns s ∧ s.Sound table hops)
    (fun _ _ h => (step_keeps hidx h).1) (fun _ _ h => (step_keeps hidx h).2.1 i)
    ⟨_, rfl, sound_start globalDeadline⟩ hj hk

/-- The address of a hop never changes. -/
theorem hopAddrs_run (hidx : ∀ p ∈ table, p.ttl.toNat < hops) {es : List Turn}
    (hes : es <+: turns) {s s' : Trace}
    (hs : runLoop mode table hops globalDeadline es = .returns s)
    (hs' : runLoop mode table hops globalDeadline turns = .returns s') {n : Nat} {ip : Ipv4Addr}
    (hip : s.hopAddrs[n]? = some (some ip)) : s'.hopAddrs[n]? = some (some ip) := by
  obtain ⟨rest, rfl⟩ := hes
  obtain ⟨⟨s₀, hrun, hbooks⟩, -⟩ := books_run hidx mode globalDeadline es
  have hstep : ∀ x t, ((∃ s, x = .returns s ∧ s.Sound table hops) ∧
      ∃ s, x = .returns s ∧ s.hopAddrs[n]? = some (some ip)) →
      (∃ s, step mode x t = .returns s ∧ s.Sound table hops) ∧
      ∃ s, step mode x t = .returns s ∧ s.hopAddrs[n]? = some (some ip) :=
    fun x t h => ⟨(step_keeps hidx h.1).1, (step_keeps hidx h.1).2.2 n ip h.2⟩
  have hkept := Run.invariant _ hstep ⟨⟨s₀, hrun, hbooks.toSound⟩, s, hs, hip⟩ rest
  obtain ⟨-, s₁, hs₁, hip₁⟩ := hkept
  rw [runLoop, Run.run_append] at hs'
  rw [← runLoop, hs₁] at hs'
  cases hs'
  exact hip₁

end Runs

end Trace

open Trace

/-- In every run of either loop nothing goes wrong and the four records agree. -/
theorem traceroute_bookkeeping (mode : Mode) {table : List Sent} {hops : Nat}
    (hidx : ∀ p ∈ table, p.ttl.toNat < hops) (globalDeadline : Instant) (turns : List Turn) :
    ∃ s, runLoop mode table hops globalDeadline turns = .returns s ∧
      s.probes.map Probe.sent = table ∧
      s.unreceived + s.probes.countP (fun p => p.received) = table.length ∧
      (∀ i k, MarkedAt mode table hops globalDeadline turns i k →
        (∀ j, MarkedAt mode table hops globalDeadline turns i j → j = k) ∧
        ∃ t p, turns[k]? = some t ∧ table[i]? = some p ∧ t.Receives (mode.Carries p.marker)) ∧
      (∀ ttl : UInt8, ttl.toNat < hops → ((∃ ip, s.hopAddrs[ttl.toNat]? = some (some ip)) ↔
        ∃ p ∈ s.probes, p.ttl = ttl ∧ p.received = true)) ∧
      (∀ es s', es <+: turns → runLoop mode table hops globalDeadline es = .returns s' →
        ∀ (n : Nat) (ip : Ipv4Addr), s'.hopAddrs[n]? = some (some ip) →
          s.hopAddrs[n]? = some (some ip)) ∧
      (s.targetReachedAt = none ↔
        ∀ i, ¬ AnsweredBy mode table hops globalDeadline turns i) ∧
      ∀ ttl, s.targetReachedAt = some ttl ↔
        (∃ i p, AnsweredBy mode table hops globalDeadline turns i ∧ table[i]? = some p ∧
          p.ttl = ttl) ∧
        ∀ i p, AnsweredBy mode table hops globalDeadline turns i → table[i]? = some p →
          ttl ≤ p.ttl := by
  obtain ⟨⟨s, hrun, hbooks⟩, hcarried⟩ := books_run hidx mode globalDeadline turns
  refine ⟨s, hrun, hbooks.probes_sent, hbooks.unreceived_add, ?_, hbooks.hop_iff, ?_, ?_, ?_⟩
  · exact fun i k h => ⟨fun j hj => hj.unique hidx h, hcarried i k h⟩
  · exact fun es s' hes hs' n ip hip => hopAddrs_run hidx hes hs' hrun hip
  · refine ⟨hbooks.reached_none, fun hnone => ?_⟩
    by_contra hsome
    obtain ⟨ttl, httl⟩ := Option.ne_none_iff_exists'.mp hsome
    obtain ⟨⟨i, p, hanswered, -⟩, -⟩ := hbooks.reached_some ttl httl
    exact hnone i hanswered
  · refine fun ttl => ⟨hbooks.reached_some ttl, ?_⟩
    rintro ⟨⟨i, p, hanswered, hp, rfl⟩, hleast⟩
    obtain ⟨t, ht⟩ := Option.ne_none_iff_exists'.mp fun hnone =>
      hbooks.reached_none hnone i hanswered
    obtain ⟨⟨j, q, hj, hq, rfl⟩, hleast'⟩ := hbooks.reached_some t ht
    rw [ht, UInt8.le_antisymm (hleast' i p hanswered hp) (hleast j q hj hq)]

/-- The target answers the first of two probes with port unreachable. -/
def demoUnreachable : Turn where
  clock := 0
  reception := .packet
    { data := 0x45 :: List.replicate 19 0 ++ [3, 3, 0, 0, 0, 0, 0, 0] ++ 0x45 :: List.replicate 8 0
        ++ 17 :: List.replicate 10 0 ++ [0x80, 0, 0x82, 0x9A, 0, 8, 0, 0]
      header_le := by decide
      options_le := by decide }
    ⟨192, 0, 2, 1⟩ 5

/-- Two probes, one for each of two hops. -/
def demoTable : List Sent := [⟨1, 33434, 0⟩, ⟨2, 33435, 1⟩]

theorem demo_bookkeeping :
    ∃ s, runLoop .udp demoTable 3 10 [demoUnreachable] = .returns s ∧
      s.unreceived + s.probes.countP (fun p => p.received) = 2 ∧
      ((∃ ip, s.hopAddrs[(1 : UInt8).toNat]? = some (some ip)) ↔
        ∃ p ∈ s.probes, p.ttl = 1 ∧ p.received = true) := by
  have hidx : ∀ p ∈ demoTable, p.ttl.toNat < 3 := by decide
  obtain ⟨s, hrun, -, hadd, -, hhop, -⟩ := traceroute_bookkeeping .udp hidx 10 [demoUnreachable]
  exact ⟨s, hrun, hadd, hhop 1 (by decide)⟩

end PpcaNetwork.Toolkit
