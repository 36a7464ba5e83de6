import PpcaNetwork.Toolkit.IcmpErrors
import PpcaNetwork.Toolkit.ProbeTable

/-!
# The route that `traceroute` reports

The two programs from the probes to what they print, on a network in which all packets to the
target take one route.

* `printHops` — the loop that prints; `traceroute` — either function, from the table on.
* `Route.Answers` — what the hop that a probe ends at sends back.
* `Turn.Along` — answers in any order and number, from where they should be, and other messages.
* `Trace.Named` — what the records say then; `Trace.named_run` is the run lemma.
* `traceroute_reports_route` — what is printed.
-/

namespace PpcaNetwork.Toolkit

/-! ## The report -/

/-- A line of the report: a time for each probe of the hop, or a star. -/
structure HopLine where
  ttl : UInt8
  addr : Option Ipv4Addr
  rtts : List (Option Duration)

/-- `print_hop`.  Behind a hop without an address there are stars only. -/
def printHop (ttl : UInt8) (hopAddr : Option Ipv4Addr) (probes : List Probe) : HopLine where
  ttl := ttl
  addr := hopAddr
  rtts := probes.map fun p => if hopAddr.isSome ∧ p.received then some p.rtt else none

/-- The loop at the end of either function, which stops at the target. -/
def printHops (s : Trace) : List UInt8 → Exec (List HopLine)
  | [] => pure []
  | ttl :: ttls => do
    let hopProbes := s.probes.filter (·.ttl = ttl)
    let addr ← Exec.index s.hopAddrs ttl.toNat
    let line := printHop ttl addr hopProbes
    if s.targetReachedAt = some ttl then pure [line]
    else do
      let lines ← printHops s ttls
      pure (line :: lines)

/-- `run_udp` and `run_icmp`; nothing when they return with an error. -/
def traceroute (mode : Mode) (config : TraceConfig) (sys : TraceSystem) (globalDeadline : Instant)
    (turns : List Turn) : Exec (Option (List HopLine)) := do
  match ← probeTable mode config sys with
  | none => pure none
  | some table => do
    let s ← Trace.runLoop mode table.probes table.hops globalDeadline turns
    let lines ← printHops s config.ttls
    pure (some lines)

/-- The line of a hop. -/
def Trace.line (s : Trace) (ttl : UInt8) : HopLine :=
  printHop ttl (s.hopAddrs.getD ttl.toNat none) (s.probes.filter (·.ttl = ttl))

/-- Up to the hop at which the target was reached, all hops are printed. -/
theorem printHops_eq (s : Trace) {ttls : List UInt8} (hsorted : ttls.Pairwise (· < ·))
    (hlt : ∀ ttl ∈ ttls, ttl.toNat < s.hopAddrs.length)
    (hreached : ∀ t, s.targetReachedAt = some t → t ∈ ttls) :
    printHops s ttls = .returns
      ((ttls.filter fun ttl => ∀ t ∈ s.targetReachedAt, ttl ≤ t).map s.line) := by
  induction ttls with
  | nil => rfl
  | cons ttl ttls ih =>
    obtain ⟨hfirst, hsorted⟩ := List.pairwise_cons.mp hsorted
    have hthis := hlt ttl List.mem_cons_self
    have hline :
        printHop ttl s.hopAddrs[ttl.toNat] (s.probes.filter (·.ttl = ttl)) = s.line ttl := by
      rw [Trace.line, List.getD_eq_getElem _ _ hthis]
    rw [printHops, Exec.index_eq hthis, Exec.returns_bind]
    dsimp only
    rw [hline]
    by_cases hstop : s.targetReachedAt = some ttl
    · have hrest : (ttls.filter fun ttl' => ∀ t ∈ s.targetReachedAt, ttl' ≤ t) = [] := by
        refine List.filter_eq_nil_iff.mpr fun ttl' hmem => ?_
        rw [hstop, decide_eq_true_eq]
        exact fun hall => UInt8.not_le.mpr (hfirst ttl' hmem) (hall ttl rfl)
      rw [if_pos hstop, List.filter_cons_of_pos, hrest]
      · rfl
      · rw [hstop, decide_eq_true_eq]
        rintro t ⟨⟩
        exact UInt8.le_refl _
    · have hrest := ih hsorted (fun ttl' hmem => hlt ttl' (List.mem_cons_of_mem _ hmem))
        fun t ht => by
          rcases List.mem_cons.mp (hreached t ht) with rfl | hmem
          · exact absurd ht hstop
          · exact hmem
      rw [if_neg hstop, hrest, List.filter_cons_of_pos]
      · rfl
      · rw [decide_eq_true_eq]
        intro t ht
        rcases List.mem_cons.mp (hreached t ht) with rfl | hmem
        · exact UInt8.le_refl _
        · exact UInt8.le_of_lt (hfirst t hmem)

/-! ## The table of a run -/

/-- Where there is a table, it is well formed, and its probes have the ttls of the range. -/
theorem of_probeTable {mode : Mode} {config : TraceConfig} {sys : TraceSystem} {table : ProbeTable}
    (h : probeTable mode config sys = .returns (some table)) :
    table.WellFormed ∧ table.hops = config.maxHops.toNat + 1 ∧ config.maxHops.toNat < 255 ∧
      ∀ p ∈ table.probes, p.ttl ∈ config.ttls := by
  by_cases hrange : config.firstTtl ≤ config.maxHops ∧ config.maxHops < 255
  · have hle := UInt8.le_iff_toNat_le.mp hrange.1
    have hlt : config.maxHops.toNat < 255 := UInt8.lt_iff_toNat_lt.mp hrange.2
    obtain ⟨hsent, hpanics⟩ := sendHops_spec sys config.nqueries.toNat config.ttls
      (counted_start mode)
    rw [List.length_nil, Nat.zero_add] at hsent hpanics
    rw [probeTable_eq hle hlt] at h
    by_cases hroom : mode.Room ((config.ttls.takeWhile sys.setTtl).length * config.nqueries.toNat)
    · obtain ⟨sent, hrun, -, hcounted⟩ := hsent hroom
      rw [hrun, Exec.returns_bind] at h
      cases sent with
      | none => cases h
      | some s =>
        cases h
        obtain ⟨hs, hlen, hmem⟩ := hcounted s rfl
        have hmem' : ∀ p ∈ s.probes, p.ttl ∈ config.ttls := fun p hp =>
          (hmem p hp).resolve_left (List.not_mem_nil)
        have hfew : config.ttls.length * config.nqueries.toNat ≤ 255 * 255 := by
          refine Nat.mul_le_mul ?_ (Nat.le_of_lt_succ config.nqueries.toNat_lt)
          rw [TraceConfig.ttls, List.length_map, List.length_range']
          omega
        exact ⟨wellFormed_of_counted hs (by simpa using hlen) (hfew.trans (by decide))
          fun p hp => Nat.lt_succ_of_le (ttl_le_of_mem (hmem' p hp)), rfl, hlt, hmem'⟩
    · rw [hpanics hroom] at h
      cases h
  · rw [probeTable_panics hrange] at h
    cases h

/-- The ttls are counted up. -/
theorem pairwise_ttls {config : TraceConfig} (h : config.maxHops.toNat < 255) :
    config.ttls.Pairwise (· < ·) := by
  rw [TraceConfig.ttls, List.pairwise_map]
  refine (List.pairwise_lt_range' 1).imp_of_mem fun {i j} hi hj hij => ?_
  have hi' := List.mem_range'_1.mp hi
  have hj' := List.mem_range'_1.mp hj
  rw [UInt8.lt_iff_toNat_lt, UInt8.toNat_ofNat', UInt8.toNat_ofNat', Nat.mod_eq_of_lt (by omega),
    Nat.mod_eq_of_lt (by omega)]
  exact hij

theorem mem_ttls {config : TraceConfig} (h : config.maxHops.toNat < 255) {ttl : UInt8} :
    ttl ∈ config.ttls ↔ config.firstTtl.toNat ≤ ttl.toNat ∧ ttl.toNat ≤ config.maxHops.toNat := by
  rw [TraceConfig.ttls, List.mem_map]
  constructor
  · rintro ⟨n, hn, rfl⟩
    have hn' := List.mem_range'_1.mp hn
    rw [UInt8.toNat_ofNat', Nat.mod_eq_of_lt (by omega)]
    omega
  · rintro ⟨hfirst, hmax⟩
    exact ⟨ttl.toNat, List.mem_range'_1.mpr (by omega), UInt8.ofNat_toNat⟩

/-! ## Routes -/

/-- The way to a target: the routers in their order. -/
structure Route where
  routers : List Ipv4Addr
  target : Ipv4Addr

namespace Route

/-- The ttl that is enough. -/
def length (r : Route) : Nat := r.routers.length + 1

/-- Where a packet with this ttl ends: the router that discards it, or the target. -/
def hop (r : Route) (ttl : UInt8) : Ipv4Addr := r.routers.getD (ttl.toNat - 1) r.target

theorem hop_eq_target {r : Route} {ttl : UInt8} (h : r.length ≤ ttl.toNat) :
    r.hop ttl = r.target := by
  rw [length] at h
  exact List.getD_eq_default _ _ (by omega)

/-- What comes back for a probe, and where from.  A router quotes the probe, and so does the target
that has no listener; to an echo request the target replies. -/
inductive Answers (r : Route) (p : Sent) : Mode → Ipv4Addr → List UInt8 → Prop where
  | timeExceeded (mode : Mode) (probe fields header behind : List UInt8) (n : Nat) :
    p.ttl.toNat < r.length → IsProbe mode p.marker probe → fields.length = 6 →
    IpHeader header mode.protocol → 8 ≤ n →
    Answers r p mode (r.hop p.ttl)
      (icmpTimeExceeded :: 0 :: fields ++ header ++ probe.take n ++ behind)
  | portUnreachable (probe fields header behind : List UInt8) (n : Nat) :
    r.length ≤ p.ttl.toNat → IsProbe .udp p.marker probe → fields.length = 6 →
    IpHeader header Mode.udp.protocol → 8 ≤ n →
    Answers r p .udp r.target (icmpDestUnreach :: 3 :: fields ++ header ++ probe.take n ++ behind)
  | echoReply (id cs : UInt16) (payload : List UInt8) :
    r.length ≤ p.ttl.toNat →
    Answers r p (.icmp id) r.target
      ([0, 0] ++ octets16 cs ++ (octets16 id ++ octets16 p.marker ++ payload))

end Route

section Answers

variable {r : Route} {p : Sent} {mode : Mode} {from_ : Ipv4Addr} {body : List UInt8}

/-- An error that quotes a probe is read as being about that probe. -/
theorem message_of_quoted {marker : UInt16} {icmpType icmpCode : UInt8}
    {probe fields header : List UInt8} {n : Nat} (behind : List UInt8)
    (hprobe : IsProbe mode marker probe) (hisError : IsError icmpType) (hfields : fields.length = 6)
    (hheader : IpHeader header mode.protocol) (hn : 8 ≤ n)
    (hmode : mode = .udp ∨ icmpType = icmpTimeExceeded ∧ icmpCode = 0) :
    ∃ transport reached, parseIcmpError (icmpType :: icmpCode :: fields ++ header ++
        probe.take n ++ behind) = some (icmpType, icmpCode, mode.protocol, transport) ∧
      mode.message (icmpType :: icmpCode :: fields ++ header ++ probe.take n ++ behind) =
        some ⟨marker, reached⟩ := by
  obtain ⟨transport, rest, rfl, hmarker, hid⟩ := hprobe.transport
  have htake : (transport.toList ++ rest).take n = transport.toList ++ rest.take (n - 8) := by
    rw [List.take_append, List.take_of_length_le (by simpa using hn), Vector.length_toList]
  have hquotes : Quotes (icmpType :: icmpCode :: fields ++ header ++
      (transport.toList ++ rest).take n ++ behind) icmpType icmpCode mode.protocol transport :=
    ⟨fields, header, rest.take (n - 8) ++ behind, hfields, hheader, by rw [htake]; simp⟩
  obtain ⟨versionIhl, -, haccepted⟩ := hquotes.accepted hisError
  have hparse := parseIcmpError_eq_some_iff.mpr ⟨versionIhl, haccepted⟩
  obtain ⟨reached, hmessage⟩ := message_of_parse hparse hmode hid
  rw [hmarker] at hmessage
  exact ⟨transport, reached, hparse, hmessage⟩

/-- What an answer is read as: about its probe, and showing that the target has been reached just
when the ttl was enough for that. -/
theorem Route.Answers.message (h : r.Answers p mode from_ body) :
    from_ = r.hop p.ttl ∧ ∃ reached, mode.message body = some ⟨p.marker, reached⟩ ∧
      (reached = true ↔ r.length ≤ p.ttl.toNat) := by
  cases h with
  | timeExceeded mode probe fields header behind n hnear hprobe hfields hheader hn =>
    obtain ⟨transport, reached, hparse, hmessage⟩ := message_of_quoted behind hprobe
      (.inl rfl) hfields hheader hn (.inr ⟨rfl, rfl⟩)
    refine ⟨rfl, reached, hmessage, iff_of_false (fun htrue => ?_) (Nat.not_le.mpr hnear)⟩
    have hreached := (Mode.of_message hmessage).2.mp htrue
    cases mode with
    | udp =>
      obtain ⟨transport', hparse'⟩ := hreached
      rw [hparse] at hparse'
      cases hparse'
    | icmp id =>
      obtain ⟨seq, payload, hreply⟩ := hreached
      simp only [parseEchoReply] at hreply
      split at hreply
      · cases hreply
      · rw [if_pos] at hreply
        · cases hreply
        · exact of_decide_eq_true rfl
  | portUnreachable probe fields header behind n hfar hprobe hfields hheader hn =>
    obtain ⟨transport, reached, hparse, hmessage⟩ := message_of_quoted behind hprobe
      (.inr rfl) hfields hheader hn (.inl rfl)
    exact ⟨(Route.hop_eq_target hfar).symm, reached, hmessage, iff_of_true
      ((Mode.of_message hmessage).2.mpr ⟨transport, hparse⟩) hfar⟩
  | echoReply id cs payload hfar =>
    refine ⟨(Route.hop_eq_target hfar).symm, true, ?_, iff_of_true rfl hfar⟩
    simp only [Mode.message, icmpMessage, parseEchoReply_reply, if_true]

end Answers

/-- An answer to the probe, whose route is `r`. -/
def Turn.Answers (r : Route) (mode : Mode) (p : Sent) (t : Turn) : Prop :=
  ∃ packet from_ now, t.reception = .packet packet from_ now ∧
    r.Answers p mode from_ packet.icmpBody

/-- What arrives is an answer to a probe, or carries the marker of none. -/
def Turn.Along (r : Route) (mode : Mode) (table : List Sent) (t : Turn) : Prop :=
  ∀ packet from_ now, t.reception = .packet packet from_ now →
    (∃ p ∈ table, r.Answers p mode from_ packet.icmpBody) ∨
      ∀ p ∈ table, ¬ mode.Carries p.marker packet.icmpBody

theorem Turn.Answers.along {r : Route} {mode : Mode} {p : Sent} {t : Turn} {table : List Sent}
    (h : t.Answers r mode p) (hp : p ∈ table) : t.Along r mode table := by
  obtain ⟨packet, from_, now, hreception, hanswers⟩ := h
  intro packet' from' now' hreception'
  rw [hreception] at hreception'
  cases hreception'
  exact .inl ⟨p, hp, hanswers⟩

/-- A turn that does not end the loop by itself. -/
def Turn.InTime (globalDeadline : Instant) (t : Turn) : Prop :=
  t.clock < globalDeadline ∧ t.reception ≠ .failed

namespace Trace

/-! ## What the records say -/

/-- The hops that have been heard of are known, as those of the route, and the target is reached
with the least ttl that it has answered to. -/
structure Named (r : Route) (table : List Sent) (hops : Nat) (s : Trace) : Prop
    extends Sound table hops s where
  hop_eq : ∀ (ttl : UInt8) ip, s.hopAddrs[ttl.toNat]? = some (some ip) →
    ip = r.hop ttl ∧ ∃ p ∈ s.probes, p.ttl = ttl ∧ p.received = true
  hop_known : ∀ p ∈ s.probes, p.received = true → ∃ ip, s.hopAddrs[p.ttl.toNat]? = some (some ip)
  reached_far : ∀ t, s.targetReachedAt = some t →
    r.length ≤ t.toNat ∧ ∃ p ∈ s.probes, p.ttl = t ∧ p.received = true
  reached_le : ∀ p ∈ s.probes, p.received = true → r.length ≤ p.ttl.toNat →
    ∃ t, s.targetReachedAt = some t ∧ t ≤ p.ttl

section Turns

variable {r : Route} {table : List Sent} {hops : Nat} {mode : Mode} {s s' : Trace} {m : Message}
  {ip : Ipv4Addr} {i : Nat} {p : Probe} {t : Turn} {globalDeadline : Instant}

theorem named_start (globalDeadline : Instant) :
    (start table hops globalDeadline).Named r table hops where
  toSound := sound_start globalDeadline
  hop_eq ttl ip h := by simp [start, List.getElem?_replicate] at h
  hop_known p hp hreceived := by
    obtain ⟨q, -, rfl⟩ := List.mem_map.mp hp
    cases hreceived
  reached_far t h := by cases h
  reached_le p hp hreceived := by
    obtain ⟨q, -, rfl⟩ := List.mem_map.mp hp
    cases hreceived

theorem Named.of_quiet (h : s.Named r table hops) (hq : Quiet s s') : s'.Named r table hops where
  toSound := h.toSound.of_quiet hq
  hop_eq := by
    rw [hq.hopAddrs, hq.probes]
    exact h.hop_eq
  hop_known := by
    rw [hq.hopAddrs, hq.probes]
    exact h.hop_known
  reached_far := by
    rw [hq.targetReachedAt, hq.probes]
    exact h.reached_far
  reached_le := by
    rw [hq.targetReachedAt, hq.probes]
    exact h.reached_le

/-- The entries after a reply has been taken up. -/
theorem mem_of_takes (ht : Takes m ip i p s s') {q : Probe} (hq : q ∈ s'.probes) :
    q.sent = p.sent ∨ q ∈ s.probes := by
  obtain ⟨rtt, hprobes⟩ := ht.probes
  rw [hprobes] at hq
  rcases List.mem_or_eq_of_mem_set hq with hold | rfl
  · exact .inr hold
  · exact .inl rfl

/-- What is taken up for a probe comes from the end of the probe's way. -/
theorem Named.of_takes (h : s.Named r table hops) (hidx : ∀ p ∈ table, p.ttl.toNat < hops)
    (ht : Takes m ip i p s s') (hip : ip = r.hop p.ttl)
    (hreached : m.reached = true ↔ r.length ≤ p.ttl.toNat) : s'.Named r table hops where
  toSound := h.toSound.of_takes ht
  hop_eq ttl ip' hip' := by
    rw [exists_received_of_takes ht]
    rcases ht.hopAddrs with ⟨-, hset⟩ | ⟨-, hsame⟩
    · rw [hset] at hip'
      by_cases heq : p.ttl = ttl
      · subst heq
        have hlt : p.ttl.toNat < s.hopAddrs.length := by
          rw [h.length_hopAddrs]
          exact h.ttl_lt hidx ht.probe
        rw [List.getElem?_set_self hlt] at hip'
        cases hip'
        exact ⟨hip, .inl rfl⟩
      · rw [List.getElem?_set_ne fun hnat => heq (UInt8.toNat_inj.mp hnat)] at hip'
        obtain ⟨hhop, hreceived⟩ := h.hop_eq ttl ip' hip'
        exact ⟨hhop, .inr hreceived⟩
    · rw [hsame] at hip'
      obtain ⟨hhop, hreceived⟩ := h.hop_eq ttl ip' hip'
      exact ⟨hhop, .inr hreceived⟩
  hop_known q hq hreceived := by
    rcases mem_of_takes ht hq with hnew | hold
    · have httl : q.ttl = p.ttl := congrArg Sent.ttl hnew
      rw [httl]
      rcases ht.hopAddrs with ⟨-, hset⟩ | ⟨⟨ip', hsome⟩, hsame⟩
      · refine ⟨ip, ?_⟩
        rw [hset, List.getElem?_set_self (by rw [h.length_hopAddrs]; exact h.ttl_lt hidx ht.probe)]
      · exact ⟨ip', hopAddrs_of_takes ht hsome⟩
    · obtain ⟨ip', hsome⟩ := h.hop_known q hold hreceived
      exact ⟨ip', hopAddrs_of_takes ht hsome⟩
  reached_far t htarget := by
    rw [ht.targetReachedAt] at htarget
    split at htarget
    · rename_i hless
      cases htarget
      exact ⟨hreached.mp hless.1, (exists_received_of_takes ht).mpr (.inl rfl)⟩
    · obtain ⟨hfar, q, hq, httl, hreceived⟩ := h.reached_far t htarget
      exact ⟨hfar, (exists_received_of_takes ht).mpr (.inr ⟨q, hq, httl, hreceived⟩)⟩
  reached_le q hq hreceived hfar := by
    rw [ht.targetReachedAt]
    rcases mem_of_takes ht hq with hnew | hold
    · have httl : q.ttl = p.ttl := congrArg Sent.ttl hnew
      rw [httl] at hfar ⊢
      split
      · exact ⟨p.ttl, rfl, UInt8.le_refl _⟩
      · rename_i hkeep
        have hnot : ¬ ∀ t ∈ s.targetReachedAt, p.ttl < t :=
          fun hless => hkeep ⟨hreached.mpr hfar, hless⟩
        obtain ⟨t, htarget, hle⟩ : ∃ t ∈ s.targetReachedAt, ¬ p.ttl < t := by
          simpa only [not_forall, exists_prop] using hnot
        exact ⟨t, htarget, UInt8.not_lt.mp hle⟩
    · obtain ⟨t, htarget, hle⟩ := h.reached_le q hold hreceived hfar
      split
      · rename_i hless
        exact ⟨p.ttl, rfl, UInt8.le_trans (UInt8.le_of_lt (hless.2 t htarget)) hle⟩
      · exact ⟨t, htarget, hle⟩

/-- One turn. -/
theorem Named.turn (h : s.Named r table hops) (hidx : ∀ p ∈ table, p.ttl.toNat < hops)
    (hnodup : (table.map Sent.marker).Nodup) (ht : t.Along r mode table) :
    ∃ s', s.turn mode t = .returns s' ∧ s'.Named r table hops ∧
      ∀ q ∈ s'.probes, q.received = true →
        (∃ q' ∈ s.probes, q'.sent = q.sent ∧ q'.received = true) ∨ t.Answers r mode q.sent := by
  obtain ⟨s', hturn, hquiet | ⟨packet, ip, now, m, i, p, hreception, hmessage, htakes⟩⟩ :=
    turn_cases h.toSound hidx mode t
  · refine ⟨s', hturn, h.of_quiet hquiet, fun q hq hreceived => .inl ⟨q, ?_, rfl, hreceived⟩⟩
    rwa [← hquiet.probes]
  · have hmem : p.sent ∈ table := List.mem_of_getElem? (h.table_eq htakes.probe)
    have hmarker : p.sent.marker = m.marker := htakes.marker
    rcases ht packet ip now hreception with ⟨q, hq, hanswers⟩ | hnone
    · obtain ⟨hip, reached, hmessage', hreached⟩ := hanswers.message
      rw [hmessage] at hmessage'
      cases hmessage'
      obtain rfl : p.sent = q := List.inj_on_of_nodup_map hnodup hmem hq hmarker
      refine ⟨s', hturn, h.of_takes hidx htakes hip hreached, fun q hq' hreceived => ?_⟩
      rcases mem_of_takes htakes hq' with hnew | hold
      · rw [hnew]
        exact .inr ⟨packet, ip, now, hreception, hanswers⟩
      · exact .inl ⟨q, hold, rfl, hreceived⟩
    · obtain ⟨hcarries, -⟩ := Mode.of_message hmessage
      rw [← hmarker] at hcarries
      exact absurd hcarries (hnone p.sent hmem)

/-! ## What is heard in time -/

/-- A loop that has ended because nothing was left to be received. -/
structure Running (globalDeadline : Instant) (s : Trace) : Prop where
  deadline_eq : s.globalDeadline = globalDeadline
  of_ended : s.ended = true → s.unreceived = 0

/-- The matching does not end the loop. -/
theorem account_frame {now : Instant} (h : s.account m ip now = .returns s') :
    s'.ended = s.ended ∧ s'.globalDeadline = s.globalDeadline := by
  unfold account at h
  split at h
  · cases h
    exact ⟨rfl, rfl⟩
  · obtain ⟨probe, -, h⟩ := Exec.exists_of_bind h
    obtain ⟨unreceived, -, h⟩ := Exec.exists_of_bind h
    obtain ⟨hopAddr, -, h⟩ := Exec.exists_of_bind h
    cases h
    exact ⟨rfl, rfl⟩

theorem Running.turn (h : s.Running globalDeadline) (ht : t.InTime globalDeadline)
    (hturn : s.turn mode t = .returns s') : s'.Running globalDeadline := by
  unfold Trace.turn at hturn
  split at hturn
  · cases hturn
    exact h
  · rename_i hended
    split at hturn
    · cases hreception : t.reception with
      | wouldBlock =>
        rw [hreception] at hturn
        cases hturn
        exact h
      | failed => exact absurd hreception ht.2
      | packet packet from_ now =>
        rw [hreception] at hturn
        dsimp only at hturn
        cases hmessage : mode.message packet.icmpBody with
        | none =>
          rw [hmessage] at hturn
          cases hturn
          exact h
        | some m =>
          rw [hmessage] at hturn
          obtain ⟨hsame, hdeadline⟩ := account_frame hturn
          exact ⟨hdeadline.trans h.deadline_eq, fun h' => absurd (hsame ▸ h') hended⟩
    · rename_i hstop
      cases hturn
      refine ⟨h.deadline_eq, fun _ => ?_⟩
      rw [h.deadline_eq] at hstop
      exact Nat.eq_zero_of_not_pos fun hpos => hstop ⟨hpos, ht.1⟩

/-- An answer that comes in time is taken up, unless one has been already. -/
theorem received_of_answers (h : s.Sound table hops) (hidx : ∀ p ∈ table, p.ttl.toNat < hops)
    (hnodup : (table.map Sent.marker).Nodup) (hrunning : s.Running globalDeadline)
    (hin : t.InTime globalDeadline) {q : Sent} (hq : table[i]? = some q)
    (ht : t.Answers r mode q) : Received i (step mode (.returns s) t) := by
  obtain ⟨packet, ip, now, hreception, hanswers⟩ := ht
  obtain ⟨-, reached, hmessage, -⟩ := hanswers.message
  rw [← h.probes_sent, List.getElem?_map] at hq
  obtain ⟨p, hp, rfl⟩ := Option.map_eq_some_iff.mp hq
  by_cases hreceived : p.received = true
  · exact (step_keeps hidx ⟨s, rfl, h⟩).2.1 i (received_iff.mpr ⟨p, hp, hreceived⟩)
  · rw [Bool.not_eq_true] at hreceived
    have hpos := h.unreceived_pos hp hreceived
    have hended : ¬ s.ended = true := fun hended => hpos.ne' (hrunning.of_ended hended)
    have hturn : s.turn mode t = s.account ⟨p.sent.marker, reached⟩ ip now := by
      rw [Trace.turn, if_neg hended, if_pos ⟨hpos, hrunning.deadline_eq ▸ hin.1⟩, hreception]
      dsimp only
      rw [hmessage]
    rw [step, Exec.returns_bind, hturn]
    rcases account_cases h hidx ⟨p.sent.marker, reached⟩ ip now with
      hsame | ⟨j, p', s', hrun, htakes⟩
    · -- the entry itself would have been found
      unfold account at hsame
      split at hsame
      · rename_i hfind
        have hnot := List.findIdx?_eq_none_iff.mp hfind p (List.mem_of_getElem? hp)
        simp [hreceived, Probe.sent] at hnot
      · obtain ⟨probe, -, hsame⟩ := Exec.exists_of_bind hsame
        obtain ⟨unreceived, hsub, hsame⟩ := Exec.exists_of_bind hsame
        obtain ⟨hopAddr, -, hsame⟩ := Exec.exists_of_bind hsame
        rw [Exec.sub_eq hpos] at hsub
        cases hsub
        have hless := congrArg Trace.unreceived (Exec.returns.inj hsame)
        simp only at hless
        omega
    · rw [hrun]
      have hi : table[i]? = some p.sent := h.table_eq hp
      have hj : table[j]? = some p'.sent := h.table_eq htakes.probe
      have hij : i = j := by
        have hi' : (table.map Sent.marker)[i]? = some p.sent.marker := by simp [hi]
        have hj' : (table.map Sent.marker)[j]? = some p.sent.marker := by
          simp only [List.getElem?_map, hj, Option.map_some, Option.some.injEq]
          exact htakes.marker
        obtain ⟨hlt, -⟩ := List.getElem?_eq_some_iff.mp hi'
        exact (List.getElem?_inj hlt hnodup).mp (hi'.trans hj'.symm)
      exact (received_of_takes htakes).mpr (.inl hij)

end Turns

/-- Every run. -/
theorem named_run {r : Route} {mode : Mode} {table : List Sent} {hops : Nat}
    (globalDeadline : Instant) {turns : List Turn} (hidx : ∀ p ∈ table, p.ttl.toNat < hops)
    (hnodup : (table.map Sent.marker).Nodup) (hturns : ∀ t ∈ turns, t.Along r mode table) :
    ∃ s, runLoop mode table hops globalDeadline turns = .returns s ∧ s.Named r table hops ∧
      (∀ q ∈ s.probes, q.received = true → ∃ t ∈ turns, t.Answers r mode q.sent) ∧
      ((∀ t ∈ turns, t.InTime globalDeadline) → s.Running globalDeadline ∧
        ∀ i q, table[i]? = some q → (∃ t ∈ turns, t.Answers r mode q) →
          Received i (.returns s)) := by
  induction turns using List.reverseRecOn with
  | nil =>
    refine ⟨_, rfl, named_start globalDeadline, fun q hq hreceived => ?_,
      fun _ => ⟨⟨rfl, fun hended => ?_⟩, fun i q _ hnone => ?_⟩⟩
    · obtain ⟨p, -, rfl⟩ := List.mem_map.mp hq
      cases hreceived
    · cases hended
    · obtain ⟨t, hmem, -⟩ := hnone
      cases hmem
  | append_singleton turns t ih =>
    have hbefore : ∀ t' ∈ turns, t' ∈ turns ++ [t] := fun t' => List.mem_append_left _
    have hlast : t ∈ turns ++ [t] := List.mem_append_right _ List.mem_cons_self
    obtain ⟨s, hrun, hnamed, hheard, htimely⟩ := ih fun t' ht' => hturns t' (hbefore t' ht')
    obtain ⟨s', hturn, hnamed', hnew⟩ := hnamed.turn hidx hnodup (hturns t hlast)
    have hstep : step mode (.returns s) t = .returns s' := by
      rw [step, Exec.returns_bind, hturn]
    refine ⟨s', by rw [runLoop_append, hrun, hstep], hnamed', fun q hq hreceived => ?_,
      fun hintime => ?_⟩
    · rcases hnew q hq hreceived with ⟨q', hq', hsame, hreceived'⟩ | hanswers
      · obtain ⟨t', ht', hanswers⟩ := hheard q' hq' hreceived'
        exact ⟨t', hbefore t' ht', hsame ▸ hanswers⟩
      · exact ⟨t, hlast, hanswers⟩
    · obtain ⟨hrunning, hreceived⟩ := htimely fun t' ht' => hintime t' (hbefore t' ht')
      refine ⟨hrunning.turn (hintime t hlast) hturn, fun i q hq hanswered => ?_⟩
      rw [← hstep]
      obtain ⟨t', ht', hanswers⟩ := hanswered
      rcases List.mem_append.mp ht' with hold | hthis
      · exact (step_keeps hidx ⟨s, rfl, hnamed.toSound⟩).2.1 i
          (hreceived i q hq ⟨t', hold, hanswers⟩)
      · rw [List.mem_singleton.mp hthis] at hanswers
        exact received_of_answers hnamed.toSound hidx hnodup hrunning (hintime t hlast) hq hanswers

/-! ## What is printed -/

section Lines

variable {r : Route} {mode : Mode} {table : List Sent} {hops : Nat} {s : Trace} {ttl : UInt8}

theorem addr_line {ip : Ipv4Addr} :
    (s.line ttl).addr = some ip ↔ s.hopAddrs[ttl.toNat]? = some (some ip) := by
  rw [line, printHop, List.getD_eq_getElem?_getD]
  cases s.hopAddrs[ttl.toNat]? with
  | none => simp
  | some addr => simp

/-- A line has an address when a probe of its hop has been received. -/
theorem Named.isSome_addr_line (h : s.Named r table hops) :
    (s.line ttl).addr.isSome = true ↔ ∃ p ∈ s.probes, p.ttl = ttl ∧ p.received = true := by
  rw [Option.isSome_iff_exists]
  constructor
  · rintro ⟨ip, hip⟩
    exact (h.hop_eq ttl ip (addr_line.mp hip)).2
  · rintro ⟨p, hp, rfl, hreceived⟩
    obtain ⟨ip, hip⟩ := h.hop_known p hp hreceived
    exact ⟨ip, addr_line.mpr hip⟩

/-- It is the right one. -/
theorem Named.addr_line_eq (h : s.Named r table hops)
    (hreceived : ∃ p ∈ s.probes, p.ttl = ttl ∧ p.received = true) :
    (s.line ttl).addr = some (r.hop ttl) := by
  obtain ⟨ip, hip⟩ := Option.isSome_iff_exists.mp (h.isSome_addr_line.mpr hreceived)
  rw [hip, (h.hop_eq ttl ip (addr_line.mp hip)).1]

theorem Named.mem_table (h : s.Named r table hops) {p : Probe} (hp : p ∈ s.probes) :
    p.sent ∈ table := by
  rw [← h.probes_sent]
  exact List.mem_map_of_mem hp

/-- The hops that are printed. -/
def shown (s : Trace) (ttls : List UInt8) : List UInt8 :=
  ttls.filter fun ttl => ∀ t ∈ s.targetReachedAt, ttl ≤ t

theorem mem_shown {ttls : List UInt8} :
    ttl ∈ s.shown ttls ↔ ttl ∈ ttls ∧ ∀ t, s.targetReachedAt = some t → ttl ≤ t := by
  rw [shown, List.mem_filter, decide_eq_true_eq]
  rfl

theorem map_ttl_line (ttls : List UInt8) : (ttls.map s.line).map (·.ttl) = ttls := by
  rw [List.map_map]
  exact List.map_id ttls

/-- Once the target has answered from where it is, the hops up to there are printed. -/
theorem Named.shown_eq (h : s.Named r table hops) {p : Probe} (hp : p ∈ s.probes)
    (hreceived : p.received = true) (hfar : p.ttl.toNat = r.length) (ttls : List UInt8) :
    s.shown ttls = ttls.filter (·.toNat ≤ r.length) := by
  obtain ⟨t, htarget, hle⟩ := h.reached_le p hp hreceived hfar.ge
  obtain rfl : t = p.ttl := by
    refine UInt8.le_antisymm hle (UInt8.le_iff_toNat_le.mpr ?_)
    rw [hfar]
    exact (h.reached_far t htarget).1
  refine List.filter_congr fun ttl _ => ?_
  rw [htarget, decide_eq_decide, ← hfar, ← UInt8.le_iff_toNat_le]
  exact ⟨fun hall => hall p.ttl rfl, fun hle t ht => Option.some.inj ht ▸ hle⟩

end Lines

end Trace

/-- Of a list whose later elements have a property only if the earlier have, those that have it
come first. -/
theorem filter_prefix {α : Type*} {p : α → Bool} {l : List α}
    (h : l.Pairwise fun a b => p b = true → p a = true) : l.filter p <+: l := by
  induction l with
  | nil => exact List.nil_prefix
  | cons a l ih =>
    obtain ⟨hfirst, hrest⟩ := List.pairwise_cons.mp h
    by_cases ha : p a = true
    · rw [List.filter_cons_of_pos ha]
      exact (List.prefix_cons_inj a).mpr (ih hrest)
    · have hnone : (a :: l).filter p = [] := by
        refine List.filter_eq_nil_iff.mpr fun b hb => ?_
        rcases List.mem_cons.mp hb with rfl | hb
        · exact ha
        · exact fun hpb => ha (hfirst b hb hpb)
      rw [hnone]
      exact List.nil_prefix

open Trace in
/-- **The reported route.**  On a network where packets to the target take the route `r`, whatever
is lost, repeated, delayed or mixed with other messages, the report gives hops in their order, each
with its own address or none, and ends early only at the target.  When all turns are in time a hop
has its address exactly when one of its probes was answered, and if those up to the target were,
the report is the route. -/
theorem traceroute_reports_route (r : Route) (mode : Mode) (config : TraceConfig)
    (sys : TraceSystem) (table : ProbeTable)
    (htable : probeTable mode config sys = .returns (some table)) (globalDeadline : Instant)
    (turns : List Turn) (hturns : ∀ t ∈ turns, t.Along r mode table.probes) :
    ∃ lines, traceroute mode config sys globalDeadline turns = .returns (some lines) ∧
      lines.map (·.ttl) <+: config.ttls ∧
      (∀ line ∈ lines, ∀ ip, line.addr = some ip → ip = r.hop line.ttl) ∧
      (lines.map (·.ttl) ≠ config.ttls → ∃ line ∈ lines, line.addr = some r.target ∧
        ∀ other ∈ lines, other.ttl ≤ line.ttl) ∧
      ((∀ t ∈ turns, t.InTime globalDeadline) →
        (∀ line ∈ lines, line.addr.isSome ↔
          ∃ p ∈ table.probes, p.ttl = line.ttl ∧ ∃ t ∈ turns, t.Answers r mode p) ∧
        ((∀ ttl ∈ config.ttls, ttl.toNat ≤ r.length →
            ∃ p ∈ table.probes, p.ttl = ttl ∧ ∃ t ∈ turns, t.Answers r mode p) →
          config.firstTtl.toNat ≤ r.length → r.length ≤ config.maxHops.toNat →
          lines.map (fun line => (line.ttl, line.addr)) =
            (config.ttls.filter (·.toNat ≤ r.length)).map fun ttl => (ttl, some (r.hop ttl)))) := by
  obtain ⟨hwell, hhops, hmax, hmem⟩ := of_probeTable htable
  obtain ⟨s, hrun, hnamed, hheard, htimely⟩ :=
    named_run globalDeadline hwell.ttl_lt hwell.markers_nodup hturns
  have hsorted := pairwise_ttls hmax
  have hlt : ∀ ttl ∈ config.ttls, ttl.toNat < s.hopAddrs.length := by
    intro ttl httl
    rw [hnamed.length_hopAddrs, hhops]
    exact Nat.lt_succ_of_le (ttl_le_of_mem httl)
  have hreached : ∀ t, s.targetReachedAt = some t → t ∈ config.ttls := by
    intro t ht
    obtain ⟨-, p, hp, rfl, -⟩ := hnamed.reached_far t ht
    exact hmem p.sent (hnamed.mem_table hp)
  have hlines : traceroute mode config sys globalDeadline turns =
      .returns (some ((s.shown config.ttls).map s.line)) := by
    rw [traceroute, htable, Exec.returns_bind]
    dsimp only
    rw [hrun, Exec.returns_bind, printHops_eq s hsorted hlt hreached, Exec.returns_bind]
    rfl
  refine ⟨_, hlines, ?_, ?_, ?_, fun hin => ?_⟩
  · rw [map_ttl_line]
    refine filter_prefix (hsorted.imp fun {a b} hab hb => ?_)
    rw [decide_eq_true_eq] at hb ⊢
    exact fun t ht => UInt8.le_trans (UInt8.le_of_lt hab) (hb t ht)
  · rintro line hline ip hip
    obtain ⟨ttl, -, rfl⟩ := List.mem_map.mp hline
    exact (hnamed.hop_eq ttl ip (addr_line.mp hip)).1
  · rw [map_ttl_line]
    intro hshort
    obtain ⟨t, htarget⟩ : ∃ t, s.targetReachedAt = some t := by
      by_contra hnone
      refine hshort (List.filter_eq_self.mpr fun ttl _ => ?_)
      rw [decide_eq_true_eq]
      exact fun t ht => absurd ⟨t, ht⟩ hnone
    obtain ⟨hfar, hreceived⟩ := hnamed.reached_far t htarget
    have hshown : t ∈ s.shown config.ttls :=
      mem_shown.mpr ⟨hreached t htarget, fun t' ht' =>
        UInt8.le_of_eq (Option.some.inj (htarget.symm.trans ht'))⟩
    refine ⟨s.line t, List.mem_map_of_mem hshown, ?_, fun other hother => ?_⟩
    · rw [hnamed.addr_line_eq hreceived, Route.hop_eq_target hfar]
    · obtain ⟨ttl, httl, rfl⟩ := List.mem_map.mp hother
      exact (mem_shown.mp httl).2 t htarget
  · obtain ⟨-, hreceived⟩ := htimely hin
    have hanswered : ∀ ttl, (∃ p ∈ s.probes, p.ttl = ttl ∧ p.received = true) ↔
        ∃ p ∈ table.probes, p.ttl = ttl ∧ ∃ t ∈ turns, t.Answers r mode p := by
      intro ttl
      constructor
      · rintro ⟨p, hp, rfl, hp'⟩
        exact ⟨p.sent, hnamed.mem_table hp, rfl, hheard p hp hp'⟩
      · rintro ⟨q, hq, rfl, hturn⟩
        obtain ⟨i, hi⟩ := List.mem_iff_getElem?.mp hq
        obtain ⟨p, hp, hp'⟩ := received_iff.mp (hreceived i q hi hturn)
        obtain rfl : q = p.sent := Option.some.inj (hi.symm.trans (hnamed.table_eq hp))
        exact ⟨p, List.mem_of_getElem? hp, rfl, hp'⟩
    refine ⟨fun line hline => ?_, fun hall hfirst hlast => ?_⟩
    · obtain ⟨ttl, -, rfl⟩ := List.mem_map.mp hline
      rw [hnamed.isSome_addr_line]
      exact hanswered ttl
    · have hfits : (UInt8.ofNat r.length).toNat = r.length := by
        rw [UInt8.toNat_ofNat', Nat.mod_eq_of_lt (by omega)]
      have hend : UInt8.ofNat r.length ∈ config.ttls :=
        (mem_ttls hmax).mpr (by rw [hfits]; exact ⟨hfirst, hlast⟩)
      obtain ⟨p, hp, httl, hp'⟩ := (hanswered _).mpr (hall _ hend hfits.le)
      rw [hnamed.shown_eq hp hp' (by rw [httl, hfits]), List.map_map]
      refine List.map_congr_left fun ttl hmem' => ?_
      obtain ⟨httl, hle⟩ := List.mem_filter.mp hmem'
      have hanswers := hall ttl httl (of_decide_eq_true hle)
      have haddr := hnamed.addr_line_eq ((hanswered ttl).mpr hanswers)
      exact Prod.ext rfl haddr

/-- One router, at whose other side the target is. -/
def demoRoute : Route := ⟨[⟨192, 168, 1, 1⟩], ⟨192, 0, 2, 1⟩⟩

/-- An error that quotes a probe to a port. -/
def demoQuote (icmpType icmpCode : UInt8) (port : UInt16) : List UInt8 :=
  icmpType :: icmpCode :: List.replicate 6 0 ++ (0x45 :: List.replicate 8 0 ++ 17 ::
    List.replicate 10 0) ++ (octets16 40000 ++ octets16 port ++ octets16 (8 + 32) ++ octets16 0 ++
      List.replicate 32 0).take 8 ++ []

/-- A packet with a plain header. -/
def demoPacket (body : List UInt8) : IpPacket where
  data := 0x45 :: List.replicate 19 0 ++ body
  header_le := by simp
  options_le := by simp

theorem icmpBody_demoPacket (body : List UInt8) : (demoPacket body).icmpBody = body := by
  simp [IpPacket.icmpBody, demoPacket]

/-- An error about a probe to a port arrives. -/
def demoError (from_ : Ipv4Addr) (icmpType icmpCode : UInt8) (port : UInt16) : Turn where
  clock := 0
  reception := .packet (demoPacket (demoQuote icmpType icmpCode port)) from_ 5

/-- The target is heard before the router, and twice. -/
def demoErrors : List Turn :=
  [demoError ⟨192, 0, 2, 1⟩ 3 3 33435, demoError ⟨192, 0, 2, 1⟩ 3 3 33435,
    demoError ⟨192, 168, 1, 1⟩ 11 0 33434]

theorem demo_reported_route :
    ∃ lines, traceroute .udp ⟨2, 1, 1⟩ demoSystem 10 demoErrors = .returns (some lines) ∧
      lines.map (fun line => (line.ttl, line.addr)) =
        [(1, some ⟨192, 168, 1, 1⟩), (2, some ⟨192, 0, 2, 1⟩)] := by
  have hheader : IpHeader (0x45 :: List.replicate 8 0 ++ 17 :: List.replicate 10 0) 17 :=
    ⟨by decide, ⟨0x45, by decide⟩, by decide⟩
  have hfirst : (demoError ⟨192, 0, 2, 1⟩ 3 3 33435).Answers demoRoute .udp ⟨2, 33435, 0⟩ := by
    refine ⟨_, _, _, rfl, ?_⟩
    rw [icmpBody_demoPacket]
    exact .portUnreachable _ _ _ [] 8 (by decide) (.udp 40000 33435 0) rfl hheader (by decide)
  have hlast : (demoError ⟨192, 168, 1, 1⟩ 11 0 33434).Answers demoRoute .udp ⟨1, 33434, 0⟩ := by
    refine ⟨_, _, _, rfl, ?_⟩
    rw [icmpBody_demoPacket]
    exact .timeExceeded .udp _ _ _ [] 8 (by decide) (.udp 40000 33434 0) rfl hheader (by decide)
  have hturns : ∀ t ∈ demoErrors,
      t.Along demoRoute .udp [⟨1, 33434, 0⟩, ⟨2, 33435, 0⟩] := by
    intro t ht
    simp only [demoErrors, List.mem_cons, List.not_mem_nil, or_false] at ht
    rcases ht with rfl | rfl | rfl
    · exact hfirst.along (by simp)
    · exact hfirst.along (by simp)
    · exact hlast.along (by simp)
  obtain ⟨lines, hrun, -, -, -, hin⟩ := traceroute_reports_route demoRoute .udp ⟨2, 1, 1⟩ demoSystem
    ⟨2, 3, [⟨1, 33434, 0⟩, ⟨2, 33435, 0⟩]⟩ rfl 10 demoErrors hturns
  refine ⟨lines, hrun, ?_⟩
  obtain ⟨-, hroute⟩ := hin (by
    intro t ht
    simp only [demoErrors, List.mem_cons, List.not_mem_nil, or_false] at ht
    rcases ht with rfl | rfl | rfl <;> exact ⟨by decide, by rintro ⟨⟩⟩)
  refine hroute (fun ttl httl _ => ?_) (by decide) (by decide)
  rcases List.mem_cons.mp httl with rfl | httl
  · exact ⟨⟨1, 33434, 0⟩, by simp, rfl, _, by simp [demoErrors], hlast⟩
  · rw [List.mem_singleton.mp httl]
    exact ⟨⟨2, 33435, 0⟩, by simp, rfl, _, List.mem_cons_self, hfirst⟩

end PpcaNetwork.Toolkit
