import PpcaNetwork.Lib.Table
import PpcaNetwork.DnsResolver.Message

/-!
# The DNS cache

`DnsCache` of `dnsresolver/src/cache.rs`: positive records with the time they
expire at, and the names known not to exist.  A cache carries the proof that
every record is stored under its own name, type and class, so a lookup cannot
return a record of another name.

* `DnsCache.get_sound` — what a lookup returns belongs to the question.
* `DnsCache.entriesAt_get`, `entriesAt_put` — what the operations leave under a key.
* `DnsCache.Stores` — a record is there, whatever its TTL; `stores_put_iff`.
* `DnsCache.negatives_get`, `negatives_put` — only `put_nxdomain` touches the
  negative cache.
-/

namespace PpcaNetwork.Dns

/-- What records are stored under. -/
structure CacheKey where
  name : Text
  rtype : UInt16
  cls : UInt16
  deriving DecidableEq, Repr

/-- The key of a question: `(name.to_ascii_lowercase(), type, class)`. -/
def cacheKey (name : Text) (rtype cls : UInt16) : CacheKey := ⟨toAsciiLowercase name, rtype, cls⟩

/-- The key a record is stored under. -/
def DnsRR.cacheKey (rr : DnsRR) : CacheKey := Dns.cacheKey rr.name rr.rtype rr.cls

/-- A record, and when it expires. -/
structure CacheEntry where
  rr : DnsRR
  expires : Instant
  deriving DecidableEq, Repr

/-- The cache.  The locks around the two maps of the source make each operation
atomic; they hold nothing else. -/
structure DnsCache where
  records : Table CacheKey (List CacheEntry)
  negatives : Table CacheKey Instant
  /-- Every record is stored under its own key. -/
  wellKeyed : ∀ key entries, records.lookup key = some entries →
    ∀ e ∈ entries, e.rr.cacheKey = key

namespace DnsCache

/-- `DnsCache::new`. -/
def new : DnsCache where
  records := ∅
  negatives := ∅
  wellKeyed := by simp

/-- The entries stored under a key; none if the key is not there. -/
def entriesAt (c : DnsCache) (key : CacheKey) : List CacheEntry := (c.records.lookup key).getD []

theorem cacheKey_of_mem_entriesAt {c : DnsCache} {key : CacheKey} {e : CacheEntry}
    (he : e ∈ c.entriesAt key) : e.rr.cacheKey = key := by
  unfold entriesAt at he
  cases h : c.records.lookup key with
  | none => simp [h] at he
  | some entries =>
    rw [h, Option.getD_some] at he
    exact c.wellKeyed key entries h e he

/-- Store `entries` under `key`, which is the key of each of them. -/
def setEntries (c : DnsCache) (key : CacheKey) (entries : List CacheEntry)
    (h : ∀ e ∈ entries, e.rr.cacheKey = key) : DnsCache where
  records := c.records.insert key entries
  negatives := c.negatives
  wellKeyed := by
    intro key' entries' hlookup
    by_cases hk : key' = key
    · subst hk
      rw [AList.lookup_insert] at hlookup
      exact Option.some.inj hlookup ▸ h
    · rw [AList.lookup_insert_ne hk] at hlookup
      exact c.wellKeyed key' entries' hlookup

/-- `records.remove(&key)`. -/
def removeEntries (c : DnsCache) (key : CacheKey) : DnsCache where
  records := c.records.erase key
  negatives := c.negatives
  wellKeyed := by
    intro key' entries' hlookup
    by_cases hk : key' = key
    · subst hk
      simp [AList.lookup_erase] at hlookup
    · rw [AList.lookup_erase_ne hk] at hlookup
      exact c.wellKeyed key' entries' hlookup

/-- `get`: the records that have not expired at `now`; the others are dropped. -/
def get (c : DnsCache) (name : Text) (qtype qclass : UInt16) (now : Instant) :
    Option (List DnsRR) × DnsCache :=
  let key := cacheKey name qtype qclass
  let live := (c.entriesAt key).filter fun e => now < e.expires
  if live.isEmpty then (none, c.removeEntries key)
  else
    (some (live.map (·.rr)),
      c.setEntries key live fun _ he => cacheKey_of_mem_entriesAt (List.mem_of_mem_filter he))

/-- The loop of `put`: refresh the entry with the same data, or append a new one. -/
def putEntry (rr : DnsRR) (expires : Instant) : List CacheEntry → List CacheEntry
  | [] => [{ rr := rr, expires := expires }]
  | e :: es =>
    if e.rr.rdata = rr.rdata then { rr := { e.rr with ttl := rr.ttl }, expires := expires } :: es
    else e :: putEntry rr expires es

theorem cacheKey_of_mem_putEntry {rr : DnsRR} {expires : Instant} {es : List CacheEntry}
    (h : ∀ e ∈ es, e.rr.cacheKey = rr.cacheKey) :
    ∀ e ∈ putEntry rr expires es, e.rr.cacheKey = rr.cacheKey := by
  induction es with
  | nil => simp [putEntry]
  | cons x es ih =>
    have htail : ∀ e ∈ es, e.rr.cacheKey = rr.cacheKey := by
      intro e he
      exact h e (List.mem_cons_of_mem _ he)
    intro e he
    unfold putEntry at he
    split at he
    · rcases List.mem_cons.mp he with rfl | he
      · exact h x (by simp)
      · exact htail e he
    · rcases List.mem_cons.mp he with rfl | he
      · exact h _ (by simp)
      · exact ih htail e he

/-- `put`: the record expires when its TTL is over. -/
def put (c : DnsCache) (rr : DnsRR) (now : Instant) : DnsCache :=
  let expires := now + Duration.fromSecs rr.ttl.toNat
  c.setEntries rr.cacheKey (putEntry rr expires (c.entriesAt rr.cacheKey))
    (cacheKey_of_mem_putEntry fun _ => cacheKey_of_mem_entriesAt)

/-- `put_nxdomain`. -/
def putNxdomain (c : DnsCache) (name : Text) (qtype qclass : UInt16) (ttl : UInt32)
    (now : Instant) : DnsCache :=
  { c with
    negatives := c.negatives.insert (cacheKey name qtype qclass)
      (now + Duration.fromSecs ttl.toNat) }

/-- `is_nxdomain`: a denial that has not expired. -/
def isNxdomain (c : DnsCache) (name : Text) (qtype qclass : UInt16) (now : Instant) : Bool :=
  (c.negatives.lookup (cacheKey name qtype qclass)).any (now < ·)

/-! ## What the operations do -/

/-- A lookup returns records of the name asked for, of the type and class asked for. -/
theorem get_sound {c : DnsCache} {name : Text} {qtype qclass : UInt16} {now : Instant}
    {rrs : List DnsRR} (h : (c.get name qtype qclass now).1 = some rrs) :
    ∀ rr ∈ rrs, SameText rr.name name ∧ rr.rtype = qtype ∧ rr.cls = qclass := by
  unfold get at h
  simp only at h
  split at h
  · exact absurd h (by simp)
  · obtain rfl := Option.some.inj h
    intro rr hrr
    obtain ⟨e, he, rfl⟩ := List.mem_map.mp hrr
    have hkey := cacheKey_of_mem_entriesAt (List.mem_of_mem_filter he)
    simpa [DnsRR.cacheKey, cacheKey, SameText] using hkey

@[simp] theorem negatives_get (c : DnsCache) (name : Text) (qtype qclass : UInt16)
    (now : Instant) : (c.get name qtype qclass now).2.negatives = c.negatives := by
  unfold get
  simp only
  split <;> rfl

@[simp] theorem negatives_put (c : DnsCache) (rr : DnsRR) (now : Instant) :
    (c.put rr now).negatives = c.negatives := rfl

/-- A name is reported as not existing only if it is in the negative cache. -/
theorem mem_negatives_of_isNxdomain {c : DnsCache} {name : Text} {qtype qclass : UInt16}
    {now : Instant} (h : c.isNxdomain name qtype qclass now = true) :
    cacheKey name qtype qclass ∈ c.negatives := by
  unfold isNxdomain at h
  rw [← AList.lookup_isSome]
  cases hlookup : c.negatives.lookup (cacheKey name qtype qclass) with
  | none => simp [hlookup] at h
  | some expires => rfl

/-! ## What is under a key -/

theorem entriesAt_setEntries (c : DnsCache) {key : CacheKey} {entries : List CacheEntry}
    (h : ∀ e ∈ entries, e.rr.cacheKey = key) (key' : CacheKey) :
    (c.setEntries key entries h).entriesAt key' =
      if key' = key then entries else c.entriesAt key' := by
  by_cases hk : key' = key
  · subst hk
    rw [if_pos rfl, entriesAt, setEntries, AList.lookup_insert, Option.getD_some]
  · rw [if_neg hk, entriesAt, setEntries, AList.lookup_insert_ne hk, entriesAt]

theorem entriesAt_removeEntries (c : DnsCache) (key key' : CacheKey) :
    (c.removeEntries key).entriesAt key' = if key' = key then [] else c.entriesAt key' := by
  by_cases hk : key' = key
  · subst hk
    rw [if_pos rfl, entriesAt, removeEntries, AList.lookup_erase, Option.getD_none]
  · rw [if_neg hk, entriesAt, removeEntries, AList.lookup_erase_ne hk, entriesAt]

/-- A lookup drops what has expired under its key. -/
theorem entriesAt_get (c : DnsCache) (name : Text) (qtype qclass : UInt16) (now : Instant)
    (key : CacheKey) :
    (c.get name qtype qclass now).2.entriesAt key =
      if key = Dns.cacheKey name qtype qclass then
        (c.entriesAt key).filter fun e => now < e.expires
      else c.entriesAt key := by
  unfold get
  simp only
  split
  · rename_i hempty
    rw [entriesAt_removeEntries]
    split
    · rename_i hk
      rw [hk, List.isEmpty_iff.mp hempty]
    · rfl
  · rw [entriesAt_setEntries]
    split
    · rename_i hk
      rw [hk]
    · rfl

/-- A lookup returns what is under its key and has not expired. -/
theorem get_fst (c : DnsCache) (name : Text) (qtype qclass : UInt16) (now : Instant) :
    (c.get name qtype qclass now).1 =
      let live := (c.entriesAt (Dns.cacheKey name qtype qclass)).filter fun e => now < e.expires
      if live.isEmpty then none else some (live.map (·.rr)) := by
  unfold get
  simp only
  split <;> rfl

theorem entriesAt_put (c : DnsCache) (rr : DnsRR) (now : Instant) (key : CacheKey) :
    (c.put rr now).entriesAt key =
      if key = rr.cacheKey then
        putEntry rr (now + Duration.fromSecs rr.ttl.toNat) (c.entriesAt rr.cacheKey)
      else c.entriesAt key := by
  rw [put, entriesAt_setEntries]

/-! ## What is stored -/

/-- The cache has a record of the same name, type, class and data. -/
def Stores (c : DnsCache) (rr : DnsRR) : Prop :=
  ∃ e ∈ c.entriesAt rr.cacheKey, e.rr.rdata = rr.rdata

instance (c : DnsCache) (rr : DnsRR) : Decidable (c.Stores rr) :=
  inferInstanceAs (Decidable (∃ e ∈ c.entriesAt rr.cacheKey, e.rr.rdata = rr.rdata))

theorem stores_of_get {c : DnsCache} {name : Text} {qtype qclass : UInt16} {now : Instant}
    {rr : DnsRR} (h : (c.get name qtype qclass now).2.Stores rr) : c.Stores rr := by
  obtain ⟨e, he, hdata⟩ := h
  rw [entriesAt_get] at he
  split at he
  · exact ⟨e, List.mem_of_mem_filter he, hdata⟩
  · exact ⟨e, he, hdata⟩

/-- What a lookup returns was stored. -/
theorem stores_of_mem_get {c : DnsCache} {name : Text} {qtype qclass : UInt16} {now : Instant}
    {rrs : List DnsRR} (h : (c.get name qtype qclass now).1 = some rrs) {rr : DnsRR}
    (hrr : rr ∈ rrs) : c.Stores rr := by
  rw [get_fst] at h
  simp only at h
  split at h
  · exact absurd h (by simp)
  · obtain rfl := Option.some.inj h
    obtain ⟨e, he, rfl⟩ := List.mem_map.mp hrr
    have hmem := List.mem_of_mem_filter he
    exact ⟨e, (cacheKey_of_mem_entriesAt hmem).symm ▸ hmem, rfl⟩

theorem exists_mem_putEntry_iff (rr : DnsRR) (expires : Instant) (es : List CacheEntry)
    (rdata : RData) :
    (∃ e ∈ putEntry rr expires es, e.rr.rdata = rdata) ↔
      (∃ e ∈ es, e.rr.rdata = rdata) ∨ rr.rdata = rdata := by
  induction es with
  | nil => simp [putEntry]
  | cons e es ih =>
    unfold putEntry
    split
    · rename_i hsame
      simp only [List.exists_mem_cons_iff, hsame]
      constructor
      · exact .inl
      · rintro (h | hdata)
        · exact h
        · exact .inl hdata
    · simp only [List.exists_mem_cons_iff, ih, or_assoc]

end DnsCache

/-- Records that the cache takes for one: only the TTL and the case of the name may
differ. -/
def DnsRR.Same (rr rr' : DnsRR) : Prop := rr.cacheKey = rr'.cacheKey ∧ rr.rdata = rr'.rdata

instance (rr rr' : DnsRR) : Decidable (rr.Same rr') := inferInstanceAs (Decidable (_ ∧ _))

namespace DnsCache

theorem Stores.congr {c : DnsCache} {rr rr' : DnsRR} (h : c.Stores rr) (hsame : rr.Same rr') :
    c.Stores rr' := by
  obtain ⟨hkey, hdata⟩ := hsame
  rwa [Stores, ← hkey, ← hdata]

/-- `put` stores its record, and all that was there stays. -/
theorem stores_put_iff (c : DnsCache) (rr rr' : DnsRR) (now : Instant) :
    (c.put rr now).Stores rr' ↔ c.Stores rr' ∨ rr.Same rr' := by
  unfold Stores DnsRR.Same
  rw [entriesAt_put]
  by_cases hkey : rr'.cacheKey = rr.cacheKey
  · rw [if_pos hkey, exists_mem_putEntry_iff, hkey]
    simp
  · rw [if_neg hkey]
    simp [Ne.symm hkey]

end DnsCache
end PpcaNetwork.Dns
