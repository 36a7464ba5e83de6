import PpcaNetwork.DnsResolver.CacheRuns

/-!
# How long cached information lives

A record keeps its TTL while it ages in the cache, and a denial is kept for the minimum
of its SOA record, whatever the TTL of that record is.

* `LoggedCache.RespectsTtl` — a lookup hands on nothing beyond its TTL.
* `LoggedCache.Timely` — the lookups for which that is so, in terms of the log alone.
* `ttl_respected_iff` — every lookup of a run respects the TTLs exactly if every lookup
  of the run is timely.
-/

namespace PpcaNetwork.Dns

/-- The TTL and the minimum of the first SOA record. -/
def firstSoa (authorities : List DnsRR) : Option (UInt32 × UInt32) :=
  authorities.findSome? fun rr =>
    match rr.rdata with
    | .soa _ _ _ _ _ _ minimum => some (rr.ttl, minimum)
    | _ => none

/-- `extract_soa_minimum` reads the minimum of that record. -/
theorem extractSoaMinimum_eq (authorities : List DnsRR) :
    extractSoaMinimum authorities = ((firstSoa authorities).map (·.2)).getD 60 := by
  induction authorities with
  | nil => rfl
  | cons rr authorities ih =>
    obtain ⟨name, rtype, cls, ttl, rdata⟩ := rr
    cases rdata with
    | soa mname rname serial refresh retry expire minimum => rfl
    | _ => simpa [extractSoaMinimum, firstSoa] using ih

namespace LoggedCache

/-- The lookup hands on nothing beyond its TTL: a record served now with a TTL is gone,
there too, when the TTL it was put with is over, and a name is denied only within both
the TTL and the minimum of the SOA record it was denied with. -/
def RespectsTtl (s : LoggedCache) : CacheEvent → Prop
  | .get name qtype qclass =>
    ∀ rrs, s.answer name qtype qclass = some rrs → ∀ served ∈ rrs,
      ∃ t rr, s.lastPut (cacheKey name qtype qclass) served.rdata = some (t, rr) ∧
        s.now + Duration.fromSecs served.ttl.toNat ≤ t + Duration.fromSecs rr.ttl.toNat
  | .isNxdomain name qtype qclass =>
    s.cache.isNxdomain name qtype qclass s.now = true →
      ∃ t authorities, s.lastDenial (cacheKey name qtype qclass) = some (t, authorities) ∧
        ∀ ttl minimum, firstSoa authorities = some (ttl, minimum) →
          s.now < t + Duration.fromSecs (min ttl.toNat minimum.toNat)
  | _ => True

/-- No time has passed since the last put of anything that is still alive under the key;
and once the TTL of the SOA record is over, so is its minimum. -/
def Timely (s : LoggedCache) : CacheEvent → Prop
  | .get name qtype qclass =>
    ∀ rdata t rr, s.lastPut (cacheKey name qtype qclass) rdata = some (t, rr) →
      s.now < t + Duration.fromSecs rr.ttl.toNat → s.now = t
  | .isNxdomain name qtype qclass =>
    ∀ t authorities ttl minimum,
      s.lastDenial (cacheKey name qtype qclass) = some (t, authorities) →
      firstSoa authorities = some (ttl, minimum) →
      t + Duration.fromSecs ttl.toNat ≤ s.now → t + Duration.fromSecs minimum.toNat ≤ s.now
  | _ => True

theorem Inv.lastPut_le {s : LoggedCache} (h : s.Inv) {key : CacheKey} {rdata : RData}
    {t : Instant} {rr : DnsRR} (hlast : s.lastPut key rdata = some (t, rr)) : t ≤ s.now :=
  h.puts_le (t, rr) (List.mem_of_find?_eq_some hlast)

/-- Records: a lookup respects the TTLs if nothing alive is older than now. -/
theorem Inv.respectsTtl_get_iff {s : LoggedCache} (h : s.Inv) (name : Text)
    (qtype qclass : UInt16) :
    s.RespectsTtl (.get name qtype qclass) ↔ s.Timely (.get name qtype qclass) := by
  constructor
  · intro hrespects rdata t rr hlast hlt
    have hlive : s.Live (cacheKey name qtype qclass) rdata rr.ttl := ⟨t, rr, hlast, rfl, hlt⟩
    cases hrrs : s.answer name qtype qclass with
    | none => exact absurd hlive ((h.answer_eq_none_iff name qtype qclass).mp hrrs rdata rr.ttl)
    | some rrs =>
      obtain ⟨served, hserved, rfl, httl⟩ := ((h.answer_eq_some hrrs).2 rdata rr.ttl).mpr hlive
      obtain ⟨t', rr', hlast', hle⟩ := hrespects rrs hrrs served hserved
      obtain ⟨rfl, rfl⟩ := Prod.mk.inj (Option.some.inj (hlast'.symm.trans hlast))
      rw [httl] at hle
      exact Nat.le_antisymm (Nat.le_of_add_le_add_right hle) (h.lastPut_le hlast)
  · intro htimely rrs hrrs served hserved
    obtain ⟨t, rr, hlast, httl, hlt⟩ :=
      ((h.answer_eq_some hrrs).2 served.rdata served.ttl).mp ⟨served, hserved, rfl, rfl⟩
    rw [← httl] at hlt ⊢
    have hnow : s.now = t := htimely served.rdata t rr hlast hlt
    exact ⟨t, rr, hlast, by rw [hnow]⟩

/-- A time within both of two lengths of time. -/
theorem lt_add_fromSecs_min_iff (now t : Instant) (a b : Nat) :
    now < t + Duration.fromSecs (min a b) ↔
      now < t + Duration.fromSecs a ∧ now < t + Duration.fromSecs b := by
  have hnat : ∀ n m : Nat, n < m + min a b * 1000000000 ↔
      n < m + a * 1000000000 ∧ n < m + b * 1000000000 := by
    intro n m
    omega
  exact hnat now t

theorem Inv.isNxdomain_iff {s : LoggedCache} (h : s.Inv) (name : Text) (qtype qclass : UInt16) :
    s.cache.isNxdomain name qtype qclass s.now = true ↔
      ∃ t authorities, s.lastDenial (cacheKey name qtype qclass) = some (t, authorities) ∧
        s.now < t + Duration.fromSecs (extractSoaMinimum authorities).toNat := by
  rw [DnsCache.isNxdomain, h.negatives]
  simp only [Option.any_map, Option.any_eq_true, decide_eq_true_eq, Prod.exists]

/-- Denials: a lookup respects the TTL of the SOA record if the minimum is no longer. -/
theorem Inv.respectsTtl_isNxdomain_iff {s : LoggedCache} (h : s.Inv) (name : Text)
    (qtype qclass : UInt16) :
    s.RespectsTtl (.isNxdomain name qtype qclass) ↔
      s.Timely (.isNxdomain name qtype qclass) := by
  simp only [RespectsTtl, Timely, h.isNxdomain_iff]
  constructor
  · intro hrespects t authorities ttl minimum hlast hsoa hover
    by_contra hlt
    have hminimum : extractSoaMinimum authorities = minimum := by
      rw [extractSoaMinimum_eq, hsoa]
      rfl
    obtain ⟨t', authorities', hlast', hmin⟩ :=
      hrespects ⟨t, authorities, hlast, by rw [hminimum]; exact Nat.lt_of_not_le hlt⟩
    obtain ⟨rfl, rfl⟩ := Prod.mk.inj (Option.some.inj (hlast'.symm.trans hlast))
    have hboth := (lt_add_fromSecs_min_iff _ _ _ _).mp (hmin ttl minimum hsoa)
    exact Nat.not_le_of_lt hboth.1 hover
  · rintro htimely ⟨t, authorities, hlast, hlt⟩
    refine ⟨t, authorities, hlast, ?_⟩
    intro ttl minimum hsoa
    have hover := htimely t authorities ttl minimum hlast hsoa
    rw [extractSoaMinimum_eq, hsoa] at hlt
    refine (lt_add_fromSecs_min_iff _ _ _ _).mpr ⟨?_, hlt⟩
    exact Nat.lt_of_not_le fun hle => Nat.not_le_of_lt hlt (hover hle)

end LoggedCache

/-- **When nothing outlives its TTL.**  In every run, all lookups respect the TTLs
exactly if each of them finds no record alive that was put before now, and asks for no
name whose SOA record has run out while its minimum has not. -/
theorem ttl_respected_iff (start : Instant) (es : List CacheEvent) :
    Run.Guarded LoggedCache.step LoggedCache.RespectsTtl (.start start) es ↔
      Run.Guarded LoggedCache.step LoggedCache.Timely (.start start) es := by
  refine Run.guarded_congr LoggedCache.Inv (fun _ e h => h.step e) ?_ (LoggedCache.Inv.start start)
  intro s e h
  cases e with
  | get name qtype qclass => exact h.respectsTtl_get_iff name qtype qclass
  | isNxdomain name qtype qclass => exact h.respectsTtl_isNxdomain_iff name qtype qclass
  | _ => exact Iff.rfl

/-- **A record is kept too long.**  A record put for 300 seconds is served 100 seconds
later, for 300 seconds again. -/
theorem demo_ttl_outlived :
    let s := run LoggedCache.step (.start 0) [.put demoLong, .wait (Duration.fromSecs 100)]
    s.answer (utf8 "www.example.com.") typeA classIn = some [demoLong] ∧
      ¬ Run.Guarded LoggedCache.step LoggedCache.RespectsTtl (.start 0)
        [.put demoLong, .wait (Duration.fromSecs 100),
          .get (utf8 "www.example.com.") typeA classIn] := by
  intro s
  have hanswer : s.answer (utf8 "www.example.com.") typeA classIn = some [demoLong] := by
    decide +kernel
  have hlast : s.lastPut (cacheKey (utf8 "www.example.com.") typeA classIn) demoLong.rdata =
      some (0, demoLong) := by
    decide +kernel
  refine ⟨hanswer, ?_⟩
  rintro ⟨-, -, hget, -⟩
  obtain ⟨t, rr, hput, hle⟩ := hget [demoLong] hanswer demoLong (by simp)
  obtain ⟨rfl, rfl⟩ := Prod.mk.inj (Option.some.inj (hput.symm.trans hlast))
  exact absurd hle (by decide +kernel)

end PpcaNetwork.Dns
