import PpcaNetwork.Toolkit.Traceroute

/-!
# The probe table of `traceroute`

Before their loops `run_udp` and `run_icmp` compute the number of probes and the length of
`hop_addrs`, and send the probes.  The code stands in either function; they differ in the
marker and in how it is counted up.

* `probeTable` — this part of both functions.
* `Mode.Room` — how many probes have a marker; `Sending.Counted` — what is kept while they are
  sent.
* `sendProbes_spec`, `sendHops_spec` — the two loops.
* `probe_table_well_formed` — when nothing overflows, and that the table is then as the loops
  of the replies need it.
-/

namespace PpcaNetwork.Toolkit

/-- `Config`, as far as the table depends on it. -/
structure TraceConfig where
  maxHops : UInt8
  nqueries : UInt8
  firstTtl : UInt8

/-- What the system answers: whether `set_ttl_v4` takes a ttl, and the clock when the probe with a
number is sent. -/
structure TraceSystem where
  setTtl : UInt8 → Bool
  clock : Nat → Instant

/-- `BASE_PORT`. -/
def basePort : UInt16 := 33434

namespace Mode

/-- The first marker. -/
def firstMarker : Mode → UInt16
  | udp => basePort
  | icmp _ => 0

/-- `port += 1`, and `global_seq.wrapping_add(1)`. -/
def nextMarker : Mode → UInt16 → Exec UInt16
  | udp, port => do
    let next ← Exec.fits (2 ^ 16) (port.toNat + 1)
    pure (UInt16.ofNat next)
  | icmp _, seq => pure (seq + 1)

end Mode

/-- The probes that have been sent, and the next marker. -/
structure Sending where
  probes : List Sent
  marker : UInt16

/-- `nqueries` probes with one ttl. -/
def sendProbes (mode : Mode) (sys : TraceSystem) (ttl : UInt8) : Nat → Sending → Exec Sending
  | 0, s => pure s
  | n + 1, s => do
    let probes := s.probes ++ [⟨ttl, s.marker, sys.clock s.probes.length⟩]
    let marker ← mode.nextMarker s.marker
    sendProbes mode sys ttl n ⟨probes, marker⟩

/-- The probes with each of the ttls; nothing when one is refused. -/
def sendHops (mode : Mode) (sys : TraceSystem) (nqueries : Nat) :
    List UInt8 → Sending → Exec (Option Sending)
  | [], s => pure (some s)
  | ttl :: ttls, s =>
    if sys.setTtl ttl then do
      let s ← sendProbes mode sys ttl nqueries s
      sendHops mode sys nqueries ttls s
    else pure none

/-- `first_ttl..=max_hops`. -/
def TraceConfig.ttls (config : TraceConfig) : List UInt8 :=
  (List.range' config.firstTtl.toNat (config.maxHops.toNat + 1 - config.firstTtl.toNat)).map
    UInt8.ofNat

/-- What the loop of the replies starts with. -/
structure ProbeTable where
  total : Nat
  /-- The length of `hop_addrs`. -/
  hops : Nat
  probes : List Sent

/-- The table; nothing when the function returns with an error. -/
def probeTable (mode : Mode) (config : TraceConfig) (sys : TraceSystem) :
    Exec (Option ProbeTable) := do
  let width ← Exec.sub config.maxHops.toNat config.firstTtl.toNat
  let numHops ← Exec.fits (2 ^ 8) (width + 1)
  let total := numHops * config.nqueries.toNat
  let hops ← Exec.fits (2 ^ 8) (config.maxHops.toNat + 1)
  let sent ← sendHops mode sys config.nqueries.toNat config.ttls ⟨[], mode.firstMarker⟩
  pure (sent.map fun s => ⟨total, hops, s.probes⟩)

/-! ## The markers -/

/-- There are markers for so many probes, and one more. -/
def Mode.Room : Mode → Nat → Prop
  | udp, n => n ≤ 32101
  | icmp _, _ => True

theorem Mode.Room.mono {mode : Mode} {m n : Nat} (h : mode.Room n) (hle : m ≤ n) :
    mode.Room m := by
  cases mode with
  | udp => exact hle.trans h
  | icmp id => trivial

/-- What is kept while the probes are sent: the markers are counted up from the first. -/
structure Sending.Counted (mode : Mode) (s : Sending) : Prop where
  room : mode.Room s.probes.length
  marker_eq : s.marker = mode.firstMarker + UInt16.ofNat s.probes.length
  markers_eq : s.probes.map Sent.marker =
    (List.range s.probes.length).map fun i => mode.firstMarker + UInt16.ofNat i

section Markers

variable {mode : Mode} {s : Sending} {sys : TraceSystem} {ttl : UInt8}

theorem counted_start (mode : Mode) : Sending.Counted mode ⟨[], mode.firstMarker⟩ where
  room := by cases mode <;> simp [Mode.Room]
  marker_eq := by simp
  markers_eq := rfl

/-- The counter goes on as long as there is room. -/
theorem Sending.Counted.nextMarker (h : s.Counted mode) :
    (mode.Room (s.probes.length + 1) →
      mode.nextMarker s.marker =
        .returns (mode.firstMarker + UInt16.ofNat (s.probes.length + 1))) ∧
    (¬ mode.Room (s.probes.length + 1) → mode.nextMarker s.marker = .panics) := by
  have hnext : s.marker + 1 = mode.firstMarker + UInt16.ofNat (s.probes.length + 1) := by
    rw [h.marker_eq, UInt16.ofNat_add, UInt16.add_assoc]
    rfl
  cases mode with
  | icmp id => exact ⟨fun _ => congrArg _ hnext, fun hroom => absurd trivial hroom⟩
  | udp =>
    have hlen : s.probes.length ≤ 32101 := h.room
    have hport : s.marker.toNat = 33434 + s.probes.length := by
      rw [h.marker_eq, UInt16.toNat_add, UInt16.toNat_ofNat']
      simp only [Mode.firstMarker, basePort, UInt16.reduceToNat]
      omega
    constructor
    · intro hroom
      have hroom' : s.probes.length + 1 ≤ 32101 := hroom
      rw [← hnext, Mode.nextMarker, Exec.fits_eq (by omega), Exec.returns_bind, UInt16.ofNat_add,
        UInt16.ofNat_toNat]
      rfl
    · intro hroom
      have hroom' : ¬ s.probes.length + 1 ≤ 32101 := hroom
      rw [Mode.nextMarker, Exec.fits, if_neg (by omega)]
      rfl

/-- One probe more. -/
theorem Sending.Counted.push (h : s.Counted mode) (hroom : mode.Room (s.probes.length + 1))
    (ttl : UInt8) (sentAt : Instant) :
    Sending.Counted mode ⟨s.probes ++ [⟨ttl, s.marker, sentAt⟩],
      mode.firstMarker + UInt16.ofNat (s.probes.length + 1)⟩ where
  room := by simpa using hroom
  marker_eq := by simp
  markers_eq := by
    simp [List.range_succ, h.markers_eq, h.marker_eq]

/-- The probes of one ttl are sent when there is room for them. -/
theorem sendProbes_spec (sys : TraceSystem) (ttl : UInt8) (n : Nat) (h : s.Counted mode) :
    (mode.Room (s.probes.length + n) → ∃ s', sendProbes mode sys ttl n s = .returns s' ∧
      s'.Counted mode ∧ s'.probes.length = s.probes.length + n ∧
      ∀ p ∈ s'.probes, p ∈ s.probes ∨ p.ttl = ttl) ∧
    (¬ mode.Room (s.probes.length + n) → sendProbes mode sys ttl n s = .panics) := by
  induction n generalizing s with
  | zero =>
    exact ⟨fun _ => ⟨s, rfl, h, rfl, fun p hp => .inl hp⟩, fun hroom => absurd h.room hroom⟩
  | succ n ih =>
    obtain ⟨hnext, hoverflow⟩ := h.nextMarker
    have hcomm : s.probes.length + (n + 1) = s.probes.length + 1 + n := by omega
    have hlength : (s.probes ++ [Sent.mk ttl s.marker (sys.clock s.probes.length)]).length =
        s.probes.length + 1 := List.length_append
    by_cases hone : mode.Room (s.probes.length + 1)
    · obtain ⟨hsent, hpanics⟩ := ih (h.push hone ttl (sys.clock s.probes.length))
      rw [sendProbes, hnext hone, Exec.returns_bind]
      rw [hlength, ← hcomm] at hsent hpanics
      refine ⟨fun hroom => ?_, hpanics⟩
      obtain ⟨s', hrun, hcounted, hlen, hmem⟩ := hsent hroom
      refine ⟨s', hrun, hcounted, hlen, fun p hp => ?_⟩
      rcases hmem p hp with hold | hnew
      · rcases List.mem_append.mp hold with hold | hlast
        · exact .inl hold
        · rw [List.mem_singleton.mp hlast]
          exact .inr rfl
      · exact .inr hnew
    · rw [sendProbes, hoverflow hone]
      exact ⟨fun hroom => absurd (hroom.mono (by omega)) hone, fun _ => rfl⟩

/-- The probes of all ttls are sent, up to the first that is refused, when there is room. -/
theorem sendHops_spec (sys : TraceSystem) (nqueries : Nat) (ttls : List UInt8)
    (h : s.Counted mode) :
    (mode.Room (s.probes.length + (ttls.takeWhile sys.setTtl).length * nqueries) →
      ∃ sent, sendHops mode sys nqueries ttls s = .returns sent ∧
        sent.isSome = ttls.all sys.setTtl ∧ ∀ s' ∈ sent, s'.Counted mode ∧
          s'.probes.length = s.probes.length + ttls.length * nqueries ∧
          ∀ p ∈ s'.probes, p ∈ s.probes ∨ p.ttl ∈ ttls) ∧
    (¬ mode.Room (s.probes.length + (ttls.takeWhile sys.setTtl).length * nqueries) →
      sendHops mode sys nqueries ttls s = .panics) := by
  induction ttls generalizing s with
  | nil =>
    refine ⟨fun _ => ⟨some s, rfl, rfl, ?_⟩, fun hroom => absurd h.room (by simpa using hroom)⟩
    rintro _ ⟨⟩
    exact ⟨h, by simp, fun p hp => .inl hp⟩
  | cons ttl ttls ih =>
    by_cases httl : sys.setTtl ttl = true
    · have hcomm : s.probes.length + ((ttl :: ttls).takeWhile sys.setTtl).length * nqueries =
          s.probes.length + nqueries + (ttls.takeWhile sys.setTtl).length * nqueries := by
        rw [List.takeWhile_cons_of_pos httl, List.length_cons]
        ring
      obtain ⟨hsent, hpanics⟩ := sendProbes_spec sys ttl nqueries h
      rw [hcomm, sendHops, if_pos httl]
      by_cases hone : mode.Room (s.probes.length + nqueries)
      · obtain ⟨s₁, hrun, hcounted, hlen, hmem⟩ := hsent hone
        obtain ⟨hrest, hpanics'⟩ := ih hcounted
        rw [hlen] at hrest hpanics'
        rw [hrun, Exec.returns_bind]
        refine ⟨fun hroom => ?_, hpanics'⟩
        obtain ⟨sent, hrun', hsome, hsent'⟩ := hrest hroom
        refine ⟨sent, hrun', by simpa [httl] using hsome, fun s' hs' => ?_⟩
        obtain ⟨hcounted', hlen', hmem'⟩ := hsent' s' hs'
        refine ⟨hcounted', by rw [hlen', List.length_cons]; ring, fun p hp => ?_⟩
        rcases hmem' p hp with hearlier | hlater
        · rcases hmem p hearlier with hold | rfl
          · exact .inl hold
          · exact .inr List.mem_cons_self
        · exact .inr (List.mem_cons_of_mem _ hlater)
      · rw [hpanics hone]
        exact ⟨fun hroom => absurd (hroom.mono (Nat.le_add_right _ _)) hone, fun _ => rfl⟩
    · rw [sendHops, if_neg httl, List.takeWhile_cons_of_neg httl, List.length_nil, Nat.zero_mul]
      refine ⟨fun _ => ⟨none, rfl, by simp [httl], fun _ h => nomatch h⟩, fun hroom => ?_⟩
      exact absurd h.room hroom

/-- Markers that are counted up from the first are distinct while there are fewer than 65536. -/
theorem Sending.Counted.nodup (h : s.Counted mode) (hlt : s.probes.length ≤ 2 ^ 16) :
    (s.probes.map Sent.marker).Nodup := by
  rw [h.markers_eq]
  refine List.Nodup.map_on (fun i hi j hj hij => ?_) List.nodup_range
  have hij' := congrArg UInt16.toNat (UInt16.add_right_inj _ |>.mp hij)
  rw [UInt16.toNat_ofNat', UInt16.toNat_ofNat'] at hij'
  have hi' := List.mem_range.mp hi
  have hj' := List.mem_range.mp hj
  omega

end Markers

/-! ## The table -/

/-- Of the ttls, those that are taken before the first that is refused. -/
def TraceConfig.takenTtls (config : TraceConfig) (sys : TraceSystem) : List UInt8 :=
  config.ttls.takeWhile sys.setTtl

/-- A table in which each probe has an entry of `hop_addrs`, and a reply that says a marker is
about one probe. -/
structure ProbeTable.WellFormed (t : ProbeTable) : Prop where
  total_eq : t.total = t.probes.length
  ttl_lt : ∀ p ∈ t.probes, p.ttl.toNat < t.hops
  markers_nodup : (t.probes.map Sent.marker).Nodup
  identifies : ∀ (m : Message) (i j : Nat) (p q : Sent), t.probes[i]? = some p →
    t.probes[j]? = some q → p.marker = m.marker → q.marker = m.marker → i = j

/-- Nothing overflows; and when no ttl is refused there is a table, which is well formed. -/
def Computes (mode : Mode) (config : TraceConfig) (sys : TraceSystem) : Prop :=
  ∃ table, probeTable mode config sys = .returns table ∧
    table.isSome = config.ttls.all sys.setTtl ∧ ∀ t ∈ table, t.WellFormed

theorem ttl_le_of_mem {config : TraceConfig} {ttl : UInt8} (h : ttl ∈ config.ttls) :
    ttl.toNat ≤ config.maxHops.toNat := by
  obtain ⟨n, hn, rfl⟩ := List.mem_map.mp h
  have hle := List.mem_range'_1.mp hn
  rw [UInt8.toNat_ofNat']
  have hmod := Nat.mod_le n (2 ^ 8)
  omega

section Table

variable {mode : Mode} {config : TraceConfig} {sys : TraceSystem}

/-- A ttl range that is empty, or that ends with 255, overflows. -/
theorem probeTable_panics (h : ¬ (config.firstTtl ≤ config.maxHops ∧ config.maxHops < 255)) :
    probeTable mode config sys = .panics := by
  unfold probeTable
  by_cases hle : config.firstTtl.toNat ≤ config.maxHops.toNat
  · have hlast : ¬ config.maxHops.toNat < 255 :=
      fun hlt => h ⟨UInt8.le_iff_toNat_le.mpr hle, UInt8.lt_iff_toNat_lt.mpr hlt⟩
    rw [Exec.sub_eq hle, Exec.returns_bind]
    by_cases hfits : config.maxHops.toNat - config.firstTtl.toNat + 1 < 2 ^ 8
    · rw [Exec.fits_eq hfits, Exec.returns_bind, Exec.fits, if_neg (by omega)]
      rfl
    · rw [Exec.fits, if_neg hfits]
      rfl
  · rw [Exec.sub, if_neg hle]
    rfl

/-- Otherwise the probes are sent. -/
theorem probeTable_eq (hle : config.firstTtl.toNat ≤ config.maxHops.toNat)
    (hlt : config.maxHops.toNat < 255) :
    probeTable mode config sys =
      (sendHops mode sys config.nqueries.toNat config.ttls ⟨[], mode.firstMarker⟩ >>= fun sent =>
        pure (sent.map fun s => ⟨config.ttls.length * config.nqueries.toNat,
          config.maxHops.toNat + 1, s.probes⟩)) := by
  have hlength : config.ttls.length = config.maxHops.toNat - config.firstTtl.toNat + 1 := by
    rw [TraceConfig.ttls, List.length_map, List.length_range']
    omega
  rw [hlength, probeTable, Exec.sub_eq hle, Exec.returns_bind, Exec.fits_eq (by omega),
    Exec.returns_bind, Exec.fits_eq (by omega), Exec.returns_bind]

/-- The table of the probes that have been sent. -/
theorem wellFormed_of_counted {s : Sending} {ttls nqueries hops : Nat} (h : s.Counted mode)
    (hlen : s.probes.length = ttls * nqueries) (hfew : ttls * nqueries ≤ 2 ^ 16)
    (httl : ∀ p ∈ s.probes, p.ttl.toNat < hops) :
    ProbeTable.WellFormed ⟨ttls * nqueries, hops, s.probes⟩ := by
  have hnodup := h.nodup (by omega)
  refine ⟨hlen.symm, httl, hnodup, fun m i j p q hi hj hp hq => ?_⟩
  have hi' : (s.probes.map Sent.marker)[i]? = some m.marker := by simp [hi, hp]
  have hj' : (s.probes.map Sent.marker)[j]? = some m.marker := by simp [hj, hq]
  obtain ⟨hilt, -⟩ := List.getElem?_eq_some_iff.mp hi'
  exact (List.getElem?_inj hilt hnodup).mp (hi'.trans hj'.symm)

theorem room_iff {n : Nat} : mode.Room n ↔ (mode = .udp → n ≤ 32101) := by
  cases mode with
  | udp => exact ⟨fun h _ => h, fun h => h rfl⟩
  | icmp id => exact ⟨fun _ h => (nomatch h), fun _ => trivial⟩

end Table

/-- **The probe table.**  It is computed without an overflow, and is well formed, exactly when
the first ttl is not above the last, the last is below 255, and with UDP no more than 32101
probes are sent. -/
theorem probe_table_well_formed (mode : Mode) (config : TraceConfig) (sys : TraceSystem) :
    Computes mode config sys ↔
      config.firstTtl ≤ config.maxHops ∧ config.maxHops < 255 ∧
      (mode = .udp → (config.takenTtls sys).length * config.nqueries.toNat ≤ 32101) := by
  rw [← and_assoc, ← room_iff]
  by_cases hrange : config.firstTtl ≤ config.maxHops ∧ config.maxHops < 255
  · rw [and_iff_right hrange]
    have hle := UInt8.le_iff_toNat_le.mp hrange.1
    have hlt : config.maxHops.toNat < 255 := UInt8.lt_iff_toNat_lt.mp hrange.2
    obtain ⟨hsent, hpanics⟩ := sendHops_spec sys config.nqueries.toNat config.ttls
      (counted_start mode)
    rw [List.length_nil, Nat.zero_add] at hsent hpanics
    rw [Computes, probeTable_eq hle hlt]
    constructor
    · rintro ⟨table, hrun, -⟩
      by_contra hroom
      rw [hpanics hroom] at hrun
      cases hrun
    · intro hroom
      obtain ⟨sent, hrun, hsome, hcounted⟩ := hsent hroom
      rw [hrun, Exec.returns_bind]
      refine ⟨_, rfl, by rw [Option.isSome_map, hsome], fun t ht => ?_⟩
      obtain ⟨s, hs, rfl⟩ := Option.map_eq_some_iff.mp ht
      obtain ⟨hs', hlen, hmem⟩ := hcounted s hs
      refine wellFormed_of_counted hs' (by simpa using hlen) ?_ fun p hp => ?_
      · have hfew : config.ttls.length ≤ 255 := by
          rw [TraceConfig.ttls, List.length_map, List.length_range']
          omega
        have hqueries : config.nqueries.toNat ≤ 255 := Nat.le_of_lt_succ config.nqueries.toNat_lt
        exact (Nat.mul_le_mul hfew hqueries).trans (by decide)
      · rcases hmem p hp with hnone | httl
        · cases hnone
        · exact Nat.lt_succ_of_le (ttl_le_of_mem httl)
  · rw [Computes, probeTable_panics hrange]
    exact iff_of_false (fun ⟨_, h, _⟩ => nomatch h) fun h => hrange h.1

/-- A system that takes every ttl. -/
def demoSystem : TraceSystem := ⟨fun _ => true, fun _ => 0⟩

/-- A first ttl above the default of 30 hops: the number of hops underflows. -/
theorem demo_first_above_last :
    ¬ ∀ (mode : Mode) (config : TraceConfig) (sys : TraceSystem), Computes mode config sys := by
  intro h
  obtain ⟨table, hrun, -⟩ := h .udp ⟨30, 3, 31⟩ demoSystem
  cases hrun

end PpcaNetwork.Toolkit
