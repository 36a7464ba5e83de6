import PpcaNetwork.Lib.Expiring
import PpcaNetwork.Lib.Lockstep
import PpcaNetwork.DnsResolver.Resolve

/-!
# Runs of the cache

The cache over time: records and denials are put in, time passes, and lookups drop what
has expired.

* `LoggedCache` — a cache with its clock and a log of what was put when.
* `LoggedCache.Inv` — under every key the entries track the last puts.
* `get_refines_lastPuts` — what a lookup returns, in terms of the log alone, and what a
  lookup leaves for those after it.
* `ttl_respected_iff` — in which runs no lookup hands on anything beyond its TTL.
-/

namespace PpcaNetwork.Dns

/-- One thing that happens to the cache. -/
inductive CacheEvent where
  /-- Time passes. -/
  | wait (elapsed : Duration)
  | put (rr : DnsRR)
  /-- `put_all`; each `put` reads the clock, so time may pass before each of them. -/
  | putAll (rrs : List (Duration × DnsRR))
  | get (name : Text) (qtype qclass : UInt16)
  /-- The negative caching of `resolve_iterative`, for a response with these
  authorities. -/
  | deny (name : Text) (qtype qclass : UInt16) (authorities : List DnsRR)
  | isNxdomain (name : Text) (qtype qclass : UInt16)
  deriving DecidableEq, Repr

/-- A cache with its clock and the log of what was put, the latest first. -/
structure LoggedCache where
  cache : DnsCache
  now : Instant
  puts : List (Instant × DnsRR)
  denials : List (Instant × CacheKey × List DnsRR)

namespace LoggedCache

/-- An empty cache. -/
def start (now : Instant) : LoggedCache := ⟨.new, now, [], []⟩

/-- Time passes. -/
def wait (s : LoggedCache) (elapsed : Duration) : LoggedCache := { s with now := s.now + elapsed }

/-- A `put`, now. -/
def put (s : LoggedCache) (rr : DnsRR) : LoggedCache :=
  { s with cache := s.cache.put rr s.now, puts := (s.now, rr) :: s.puts }

/-- A `put` after each time. -/
def putAll (s : LoggedCache) (rrs : List (Duration × DnsRR)) : LoggedCache :=
  rrs.foldl (fun s p => (s.wait p.1).put p.2) s

/-- The state after one event. -/
def step (s : LoggedCache) : CacheEvent → LoggedCache
  | .wait elapsed => s.wait elapsed
  | .put rr => s.put rr
  | .putAll rrs => s.putAll rrs
  | .get name qtype qclass => { s with cache := (s.cache.get name qtype qclass s.now).2 }
  | .deny name qtype qclass authorities =>
    { s with
      cache := s.cache.putNxdomain name qtype qclass (extractSoaMinimum authorities) s.now
      denials := (s.now, cacheKey name qtype qclass, authorities) :: s.denials }
  | .isNxdomain _ _ _ => s

/-- The most recent put of a value under a key, and its time. -/
def lastPut (s : LoggedCache) (key : CacheKey) (rdata : RData) : Option (Instant × DnsRR) :=
  s.puts.find? fun p => p.2.cacheKey = key ∧ p.2.rdata = rdata

/-- The most recent denial of a key: its time, and the authorities of the response. -/
def lastDenial (s : LoggedCache) (key : CacheKey) : Option (Instant × List DnsRR) :=
  (s.denials.find? fun d => d.2.1 = key).map fun d => (d.1, d.2.2)

/-- When a put expires. -/
def expiry (p : Instant × DnsRR) : Instant := p.1 + Duration.fromSecs p.2.ttl.toNat

/-- The last puts under a key: when each value expires, and its TTL. -/
def lastStamps (s : LoggedCache) (key : CacheKey) (rdata : RData) : Option (Nat × UInt32) :=
  (s.lastPut key rdata).map fun p => (expiry p, p.2.ttl)

/-- What a cache entry says about its value. -/
def entryStamp : Stamp CacheEntry RData UInt32 where
  value e := e.rr.rdata
  expires e := e.expires
  payload e := e.rr.ttl

/-! ## The invariant -/

/-- What holds of every run. -/
structure Inv (s : LoggedCache) : Prop where
  /-- Under every key the entries track the last puts. -/
  tracks : ∀ key, Tracks entryStamp (s.lastStamps key) s.now (s.cache.entriesAt key)
  /-- What was put was put before. -/
  puts_le : ∀ p ∈ s.puts, p.1 ≤ s.now
  /-- The negative cache holds the last denials. -/
  negatives : ∀ key, s.cache.negatives.lookup key =
    (s.lastDenial key).map fun d => d.1 + Duration.fromSecs (extractSoaMinimum d.2).toNat

theorem putEntry_eq_upsert (rr : DnsRR) (expires : Instant) (es : List CacheEntry) :
    DnsCache.putEntry rr expires es =
      upsert (fun e => e.rr.rdata = rr.rdata)
        (fun e => { rr := { e.rr with ttl := rr.ttl }, expires := expires })
        { rr := rr, expires := expires } es := by
  induction es with
  | nil => rfl
  | cons e es ih =>
    rw [DnsCache.putEntry, upsert, ih]
    simp only [decide_eq_true_eq]

/-- The loop of `put` puts. -/
theorem tracks_putEntry {last : RData → Option (Nat × UInt32)} {clock : Nat}
    {es : List CacheEntry} (h : Tracks entryStamp last clock es) (rr : DnsRR)
    (expires : Instant) :
    Tracks entryStamp (Function.update last rr.rdata (some (expires, rr.ttl))) clock
      (DnsCache.putEntry rr expires es) := by
  rw [putEntry_eq_upsert]
  refine h.upsert { rr := rr, expires := expires } ?_ (fun _ => rfl) (fun _ => rfl)
  intro e
  rw [decide_eq_true_eq]
  rfl

/-- The last put of a value after a put. -/
theorem lastStamps_put (s : LoggedCache) (rr : DnsRR) (key : CacheKey) :
    (s.put rr).lastStamps key =
      if key = rr.cacheKey then
        Function.update (s.lastStamps key) rr.rdata (some (expiry (s.now, rr), rr.ttl))
      else s.lastStamps key := by
  funext rdata
  by_cases hkey : key = rr.cacheKey
  · subst hkey
    by_cases hdata : rdata = rr.rdata
    · subst hdata
      simp [lastStamps, lastPut, put]
    · rw [if_pos rfl, Function.update_of_ne hdata]
      simp [lastStamps, lastPut, put, Ne.symm hdata]
  · rw [if_neg hkey]
    simp [lastStamps, lastPut, put, Ne.symm hkey]

theorem Inv.start (now : Instant) : (LoggedCache.start now).Inv where
  tracks := fun _ => Tracks.nil fun _ => rfl
  puts_le := by simp [LoggedCache.start]
  negatives := fun _ => rfl

theorem Inv.wait {s : LoggedCache} (h : s.Inv) (elapsed : Duration) : (s.wait elapsed).Inv where
  tracks := fun key => (h.tracks key).later (Nat.le_add_right _ _)
  puts_le := fun p hp => (h.puts_le p hp).trans (Nat.le_add_right _ _)
  negatives := h.negatives

theorem Inv.put {s : LoggedCache} (h : s.Inv) (rr : DnsRR) : (s.put rr).Inv where
  tracks := by
    intro key
    have hentries := s.cache.entriesAt_put rr s.now key
    have hlast := lastStamps_put s rr key
    by_cases hkey : key = rr.cacheKey
    · subst hkey
      rw [if_pos rfl] at hentries hlast
      rw [hlast]
      show Tracks entryStamp _ s.now ((s.cache.put rr s.now).entriesAt rr.cacheKey)
      rw [hentries]
      exact tracks_putEntry (h.tracks rr.cacheKey) rr _
    · rw [if_neg hkey] at hentries hlast
      rw [hlast]
      show Tracks entryStamp _ s.now ((s.cache.put rr s.now).entriesAt key)
      rw [hentries]
      exact h.tracks key
  puts_le := by
    intro p hp
    rcases List.mem_cons.mp hp with rfl | hp
    · exact Nat.le_refl _
    · exact h.puts_le p hp
  negatives := h.negatives

theorem Inv.putAll {s : LoggedCache} (h : s.Inv) (rrs : List (Duration × DnsRR)) :
    (s.putAll rrs).Inv := by
  induction rrs generalizing s with
  | nil => exact h
  | cons p rrs ih => exact ih ((h.wait p.1).put p.2)

theorem Inv.get {s : LoggedCache} (h : s.Inv) (name : Text) (qtype qclass : UInt16) :
    (s.step (.get name qtype qclass)).Inv where
  tracks := by
    intro key
    show Tracks entryStamp _ s.now ((s.cache.get name qtype qclass s.now).2.entriesAt key)
    rw [DnsCache.entriesAt_get]
    split
    · exact (h.tracks key).prune
    · exact h.tracks key
  puts_le := h.puts_le
  negatives := by
    intro key
    show (s.cache.get name qtype qclass s.now).2.negatives.lookup key = _
    rw [DnsCache.negatives_get]
    exact h.negatives key

theorem Inv.deny {s : LoggedCache} (h : s.Inv) (name : Text) (qtype qclass : UInt16)
    (authorities : List DnsRR) : (s.step (.deny name qtype qclass authorities)).Inv where
  tracks := h.tracks
  puts_le := h.puts_le
  negatives := by
    intro key
    show (s.cache.negatives.insert (cacheKey name qtype qclass) _).lookup key = _
    by_cases hkey : key = cacheKey name qtype qclass
    · subst hkey
      simp [step, lastDenial, AList.lookup_insert]
    · rw [AList.lookup_insert_ne hkey, h.negatives key]
      simp [step, lastDenial, Ne.symm hkey]

theorem Inv.step {s : LoggedCache} (h : s.Inv) (e : CacheEvent) : (s.step e).Inv := by
  cases e with
  | wait elapsed => exact h.wait elapsed
  | put rr => exact h.put rr
  | putAll rrs => exact h.putAll rrs
  | get name qtype qclass => exact h.get name qtype qclass
  | deny name qtype qclass authorities => exact h.deny name qtype qclass authorities
  | isNxdomain name qtype qclass => exact h

theorem inv_run (now : Instant) (es : List CacheEvent) : (run step (.start now) es).Inv :=
  Run.invariant Inv (fun _ e h => h.step e) (Inv.start now) es

/-! ## Lookups -/

/-- A record that the log has live now: the last put of its value has not expired. -/
def Live (s : LoggedCache) (key : CacheKey) (rdata : RData) (ttl : UInt32) : Prop :=
  ∃ t rr, s.lastPut key rdata = some (t, rr) ∧ rr.ttl = ttl ∧
    s.now < t + Duration.fromSecs ttl.toNat

theorem live_iff (s : LoggedCache) (key : CacheKey) (rdata : RData) (ttl : UInt32) :
    s.Live key rdata ttl ↔
      ∃ expires, s.lastStamps key rdata = some (expires, ttl) ∧ s.now < expires := by
  constructor
  · rintro ⟨t, rr, hlast, rfl, hlt⟩
    exact ⟨expiry (t, rr), by rw [lastStamps, hlast]; rfl, hlt⟩
  · rintro ⟨expires, hlast, hlt⟩
    obtain ⟨⟨t, rr⟩, hput, heq⟩ := Option.map_eq_some_iff.mp hlast
    obtain ⟨rfl, rfl⟩ := Prod.mk.inj heq
    exact ⟨t, rr, hput, rfl, hlt⟩

/-- The answer of a lookup. -/
def answer (s : LoggedCache) (name : Text) (qtype qclass : UInt16) : Option (List DnsRR) :=
  (s.cache.get name qtype qclass s.now).1

/-- The entries under a key that a lookup finds alive are the records that the log has
live. -/
theorem Inv.mem_live_iff {s : LoggedCache} (h : s.Inv) (key : CacheKey) (rdata : RData)
    (ttl : UInt32) :
    (∃ e ∈ (s.cache.entriesAt key).filter (fun e => s.now < e.expires),
        e.rr.rdata = rdata ∧ e.rr.ttl = ttl) ↔ s.Live key rdata ttl := by
  rw [live_iff]
  constructor
  · rintro ⟨e, he, hdata, rfl⟩
    exact ⟨e.expires, ((h.tracks key).mem_live_iff rdata e.expires e.rr.ttl).mp
      ⟨e, he, hdata, rfl⟩⟩
  · rintro ⟨expires, hlive⟩
    obtain ⟨e, he, hdata, hlast⟩ := ((h.tracks key).mem_live_iff rdata expires ttl).mpr hlive
    exact ⟨e, he, hdata, congrArg Prod.snd hlast⟩

theorem Inv.answer_eq_none_iff {s : LoggedCache} (h : s.Inv) (name : Text)
    (qtype qclass : UInt16) :
    s.answer name qtype qclass = none ↔
      ∀ rdata ttl, ¬ s.Live (cacheKey name qtype qclass) rdata ttl := by
  rw [answer, DnsCache.get_fst]
  simp only
  constructor
  · intro hnone rdata ttl hlive
    obtain ⟨e, he, -⟩ := (h.mem_live_iff _ rdata ttl).mpr hlive
    split at hnone
    · rename_i hempty
      rw [List.isEmpty_iff.mp hempty] at he
      exact absurd he (by simp)
    · exact absurd hnone (by simp)
  · intro hnone
    rw [if_pos]
    rw [List.isEmpty_iff, List.eq_nil_iff_forall_not_mem]
    intro e he
    exact hnone e.rr.rdata e.rr.ttl ((h.mem_live_iff _ _ _).mp ⟨e, he, rfl, rfl⟩)

/-- The records of an answer: each live value once, with the TTL of its last put. -/
theorem Inv.answer_eq_some {s : LoggedCache} (h : s.Inv) {name : Text} {qtype qclass : UInt16}
    {rrs : List DnsRR} (hrrs : s.answer name qtype qclass = some rrs) :
    (rrs.map (·.rdata)).Nodup ∧
      ∀ rdata ttl, (∃ rr ∈ rrs, rr.rdata = rdata ∧ rr.ttl = ttl) ↔
        s.Live (cacheKey name qtype qclass) rdata ttl := by
  rw [answer, DnsCache.get_fst] at hrrs
  simp only at hrrs
  split at hrrs
  · exact absurd hrrs (by simp)
  · obtain rfl := Option.some.inj hrrs
    constructor
    · have hnodup := (h.tracks (cacheKey name qtype qclass)).prune.nodup
      rw [List.map_map]
      exact hnodup
    · intro rdata ttl
      rw [← h.mem_live_iff]
      simp only [List.mem_map, exists_exists_and_eq_and]

/-! ## What a lookup leaves -/

/-- The record with its name in lower case. -/
def canonical (rr : DnsRR) : DnsRR := { rr with name := toAsciiLowercase rr.name }

/-- Answers with the same records, whatever their order and the case of their names. -/
def SameAnswer : Option (List DnsRR) → Option (List DnsRR) → Prop
  | none, none => True
  | some rrs, some rrs' => (rrs.map canonical).Perm (rrs'.map canonical)
  | _, _ => False

/-- A record of an answer is determined by its value and its TTL. -/
theorem canonical_of_mem_answer {s : LoggedCache} {name : Text} {qtype qclass : UInt16}
    {rrs : List DnsRR} (hrrs : s.answer name qtype qclass = some rrs) {rr : DnsRR}
    (hrr : rr ∈ rrs) :
    canonical rr = ⟨toAsciiLowercase name, qtype, qclass, rr.ttl, rr.rdata⟩ := by
  obtain ⟨hname, htype, hcls⟩ := DnsCache.get_sound hrrs rr hrr
  rw [SameText] at hname
  rw [canonical, hname, ← htype, ← hcls]

theorem mem_map_canonical_iff {s : LoggedCache} (h : s.Inv) {name : Text} {qtype qclass : UInt16}
    {rrs : List DnsRR} (hrrs : s.answer name qtype qclass = some rrs) (rr : DnsRR) :
    rr ∈ rrs.map canonical ↔
      s.Live (cacheKey name qtype qclass) rr.rdata rr.ttl ∧
        rr = ⟨toAsciiLowercase name, qtype, qclass, rr.ttl, rr.rdata⟩ := by
  rw [← (h.answer_eq_some hrrs).2]
  constructor
  · intro hmem
    obtain ⟨rr', hrr', rfl⟩ := List.mem_map.mp hmem
    exact ⟨⟨rr', hrr', rfl, rfl⟩, canonical_of_mem_answer hrrs hrr'⟩
  · rintro ⟨⟨rr', hrr', hdata, httl⟩, heq⟩
    refine List.mem_map.mpr ⟨rr', hrr', ?_⟩
    rw [canonical_of_mem_answer hrrs hrr', hdata, httl]
    exact heq.symm

theorem nodup_map_canonical {s : LoggedCache} (h : s.Inv) {name : Text} {qtype qclass : UInt16}
    {rrs : List DnsRR} (hrrs : s.answer name qtype qclass = some rrs) :
    (rrs.map canonical).Nodup := by
  have hdata := (h.answer_eq_some hrrs).1
  have hsame : rrs.map (·.rdata) = (rrs.map canonical).map (·.rdata) := by
    rw [List.map_map]
    rfl
  rw [hsame] at hdata
  exact hdata.of_map _

/-- The clock and the log of what was put. -/
def SameLog (s s' : LoggedCache) : Prop := s.now = s'.now ∧ s.puts = s'.puts

theorem SameLog.put {s s' : LoggedCache} (h : SameLog s s') (rr : DnsRR) :
    SameLog (s.put rr) (s'.put rr) :=
  ⟨h.1, by show (s.now, rr) :: s.puts = (s'.now, rr) :: s'.puts; rw [h.1, h.2]⟩

theorem SameLog.wait {s s' : LoggedCache} (h : SameLog s s') (elapsed : Duration) :
    SameLog (s.wait elapsed) (s'.wait elapsed) :=
  ⟨congrArg (· + elapsed) h.1, h.2⟩

theorem SameLog.putAll {s s' : LoggedCache} (h : SameLog s s') (rrs : List (Duration × DnsRR)) :
    SameLog (s.putAll rrs) (s'.putAll rrs) := by
  induction rrs generalizing s s' with
  | nil => exact h
  | cons p rrs ih => exact ih ((h.wait p.1).put p.2)

/-- The log does not depend on what is in the cache. -/
theorem SameLog.step {s s' : LoggedCache} (h : SameLog s s') (e : CacheEvent) :
    SameLog (s.step e) (s'.step e) := by
  cases e with
  | wait elapsed => exact h.wait elapsed
  | put rr => exact h.put rr
  | putAll rrs => exact h.putAll rrs
  | get name qtype qclass => exact h
  | deny name qtype qclass authorities => exact h
  | isNxdomain name qtype qclass => exact h

/-- The log determines the answers. -/
theorem sameAnswer_of_sameLog {s s' : LoggedCache} (hs : s.Inv) (hs' : s'.Inv)
    (hlog : SameLog s s') (name : Text) (qtype qclass : UInt16) :
    SameAnswer (s.answer name qtype qclass) (s'.answer name qtype qclass) := by
  have hlive : ∀ rdata ttl, s.Live (cacheKey name qtype qclass) rdata ttl ↔
      s'.Live (cacheKey name qtype qclass) rdata ttl := by
    intro rdata ttl
    simp only [Live, lastPut, hlog.1, hlog.2]
  have hnone : s.answer name qtype qclass = none ↔ s'.answer name qtype qclass = none := by
    rw [hs.answer_eq_none_iff, hs'.answer_eq_none_iff]
    simp only [hlive]
  cases hrrs : s.answer name qtype qclass with
  | none =>
    rw [hnone.mp hrrs]
    trivial
  | some rrs =>
    cases hrrs' : s'.answer name qtype qclass with
    | none => exact absurd (hrrs.symm.trans (hnone.mpr hrrs')) (by simp)
    | some rrs' =>
      refine (List.perm_ext_iff_of_nodup (nodup_map_canonical hs hrrs)
        (nodup_map_canonical hs' hrrs')).mpr ?_
      intro rr
      rw [mem_map_canonical_iff hs hrrs, mem_map_canonical_iff hs' hrrs', hlive]

end LoggedCache

/-- **The cache refines the map of last puts.**  At the end of every run a lookup returns
the values whose last put has not expired, each once and with the TTL of that put, and
nothing exactly if there is none; and without any one of the lookups before it the answer
has the same records, up to their order and the case of their names. -/
theorem get_refines_lastPuts (start : Instant) (es : List CacheEvent) (name : Text)
    (qtype qclass : UInt16) :
    let s := run LoggedCache.step (.start start) es
    (s.answer name qtype qclass = none ↔
        ∀ rdata ttl, ¬ s.Live (cacheKey name qtype qclass) rdata ttl) ∧
      (∀ rrs, s.answer name qtype qclass = some rrs →
        (rrs.map (·.rdata)).Nodup ∧
          ∀ rdata ttl, (∃ rr ∈ rrs, rr.rdata = rdata ∧ rr.ttl = ttl) ↔
            s.Live (cacheKey name qtype qclass) rdata ttl) ∧
      ∀ before after name' qtype' qclass', es = before ++ .get name' qtype' qclass' :: after →
        LoggedCache.SameAnswer (s.answer name qtype qclass)
          ((run LoggedCache.step (.start start) (before ++ after)).answer name qtype qclass) := by
  intro s
  have hinv : s.Inv := LoggedCache.inv_run start es
  refine ⟨hinv.answer_eq_none_iff name qtype qclass, fun rrs hrrs => hinv.answer_eq_some hrrs, ?_⟩
  rintro before after name' qtype' qclass' rfl
  refine LoggedCache.sameAnswer_of_sameLog hinv (LoggedCache.inv_run start (before ++ after)) ?_
    name qtype qclass
  show LoggedCache.SameLog (run LoggedCache.step (.start start)
    (before ++ .get name' qtype' qclass' :: after)) _
  rw [Run.run_append, Run.run_cons, Run.run_append]
  have hstep : ∀ s s' e, LoggedCache.SameLog s s' → LoggedCache.SameLog (s.step e) (s'.step e) :=
    fun _ _ e h => h.step e
  have hget : ∀ s : LoggedCache, LoggedCache.SameLog (s.step (.get name' qtype' qclass')) s :=
    fun _ => ⟨rfl, rfl⟩
  exact Run.related hstep (hget _) after

/-! ### The order of the records -/

/-- Two addresses of the demo host, for one second and for five minutes. -/
def demoShort : DnsRR := { demoRr "www.example.com." typeA (.a ⟨192, 0, 2, 1⟩) with ttl := 1 }

/-- Another address of the same name. -/
def demoLong : DnsRR := demoRr "www.example.com." typeA (.a ⟨192, 0, 2, 2⟩)

/-- The short-lived address comes first, expires, and is put again. -/
def demoPuts (lookup : List CacheEvent) : List CacheEvent :=
  [.put demoShort, .put demoLong, .wait (Duration.fromSecs 2)] ++ lookup ++ [.put demoShort]

/-- **A lookup changes a later answer.**  A lookup before the second put drops the
expired entry, which is then appended instead of refreshed in place: the records come in
the other order. -/
theorem demo_get_reorders :
    (run LoggedCache.step (.start 0) (demoPuts [])).answer (utf8 "www.example.com.") typeA
        classIn = some [demoShort, demoLong] ∧
      (run LoggedCache.step (.start 0)
          (demoPuts [.get (utf8 "www.example.com.") typeA classIn])).answer
        (utf8 "www.example.com.") typeA classIn = some [demoLong, demoShort] ∧
      [demoShort, demoLong] ≠ [demoLong, demoShort] := by
  decide +kernel

end PpcaNetwork.Dns
