import PpcaNetwork.Lib.Lockstep
import PpcaNetwork.DnsResolver.Provenance

/-!
# Records outside the zone of a server

The resolver does not know which zone a server was asked about: it caches what comes.

* `AtOrBelow` — a name in a zone.
* `World.Agree` — worlds whose caches differ in other classes than `IN` at most.
* `lockstep_resolve` — a resolution does not tell them apart.
* `poisoning_iff` — a response whose records outside a zone matter to nobody.
-/

namespace PpcaNetwork.Dns

/-! ## Worlds that no resolution tells apart -/

namespace World

/-- The worlds differ in records of other classes than `IN` at most. -/
structure Agree (w w' : World) : Prop where
  now : w.now = w'.now
  delays : w.delays = w'.delays
  upstream : w.upstream = w'.upstream
  log : w.log = w'.log
  negatives : w.cache.negatives = w'.cache.negatives
  entries : ∀ key, key.cls = classIn → w.cache.entriesAt key = w'.cache.entriesAt key

variable {w w' : World}

theorem Agree.refl (w : World) : w.Agree w := ⟨rfl, rfl, rfl, rfl, rfl, fun _ _ => rfl⟩

theorem Agree.tick (h : w.Agree w') : w.tick.Agree w'.tick := by
  obtain ⟨hnow, hdelays, hupstream, hlog, hnegatives, hentries⟩ := h
  unfold World.tick
  rw [hdelays]
  split
  · exact ⟨hnow, hdelays, hupstream, hlog, hnegatives, hentries⟩
  · exact ⟨congrArg (· + _) hnow, rfl, hupstream, hlog, hnegatives, hentries⟩

/-- The same record is put into both caches. -/
theorem Agree.put (h : w.Agree w') (rr : DnsRR) : (w.put rr).Agree (w'.put rr) := by
  obtain ⟨hnow, hdelays, hupstream, hlog, hnegatives, hentries⟩ := h.tick
  refine ⟨hnow, hdelays, hupstream, hlog, hnegatives, ?_⟩
  intro key hkey
  simp only [World.put, DnsCache.entriesAt_put, hnow]
  by_cases hk : key = rr.cacheKey
  · rw [if_pos hk, if_pos hk, hentries _ (hk ▸ hkey)]
  · rw [if_neg hk, if_neg hk, hentries _ hkey]

/-- A record of another class is put into one of them. -/
theorem Agree.put_left (h : w.Agree w') {rr : DnsRR} (hcls : rr.cls ≠ classIn) :
    (w.put rr).Agree w'.tick := by
  obtain ⟨hnow, hdelays, hupstream, hlog, hnegatives, hentries⟩ := h.tick
  refine ⟨hnow, hdelays, hupstream, hlog, hnegatives, ?_⟩
  intro key hkey
  simp only [World.put, DnsCache.entriesAt_put]
  rw [if_neg, hentries _ hkey]
  rintro rfl
  exact hcls hkey

theorem Agree.putAll (h : w.Agree w') (rrs : List DnsRR) : (w.putAll rrs).Agree (w'.putAll rrs) :=
  Run.related (fun _ _ rr hagree => hagree.put rr) h rrs

theorem Agree.putNxdomain (h : w.Agree w') (name : Text) (qtype : UInt16) (ttl : UInt32) :
    (w.putNxdomain name qtype ttl).Agree (w'.putNxdomain name qtype ttl) := by
  obtain ⟨hnow, hdelays, hupstream, hlog, hnegatives, hentries⟩ := h.tick
  refine ⟨hnow, hdelays, hupstream, hlog, ?_, hentries⟩
  simp only [World.putNxdomain, DnsCache.putNxdomain, hnow, hnegatives]

end World

theorem lockstep_get (name : Text) (qtype : UInt16) :
    Lockstep World.Agree fun w => w.get name qtype := by
  intro w w' h
  obtain ⟨hnow, hdelays, hupstream, hlog, hnegatives, hentries⟩ := h.tick
  refine ⟨?_, hnow, hdelays, hupstream, hlog, ?_, ?_⟩
  · show (w.tick.cache.get name qtype classIn w.tick.now).1 =
      (w'.tick.cache.get name qtype classIn w'.tick.now).1
    rw [DnsCache.get_fst, DnsCache.get_fst, hnow, hentries _ rfl]
  · simpa [World.get] using hnegatives
  · intro key hkey
    show (w.tick.cache.get name qtype classIn w.tick.now).2.entriesAt key =
      (w'.tick.cache.get name qtype classIn w'.tick.now).2.entriesAt key
    rw [DnsCache.entriesAt_get, DnsCache.entriesAt_get, hnow, hentries _ hkey]

theorem lockstep_isNxdomain (name : Text) (qtype : UInt16) :
    Lockstep World.Agree fun w => w.isNxdomain name qtype := by
  intro w w' h
  refine ⟨?_, h.tick⟩
  simp only [World.isNxdomain, DnsCache.isNxdomain, h.tick.now, h.tick.negatives]

theorem lockstep_sendQuery (server : SocketAddr) (name : Text) (qtype : UInt16) :
    Lockstep World.Agree (sendQuery server name qtype) := by
  intro w w' h
  obtain ⟨hnow, hdelays, hupstream, hlog, hnegatives, hentries⟩ := h
  unfold sendQuery
  rw [hupstream]
  split
  · exact ⟨rfl, hnow, hdelays, hupstream, hlog, hnegatives, hentries⟩
  · exact ⟨rfl, hnow, hdelays, rfl, hlog, hnegatives, hentries⟩
  · simp only
    split
    · exact ⟨rfl, hnow, hdelays, rfl, hlog, hnegatives, hentries⟩
    · exact ⟨rfl, hnow, hdelays, rfl, congrArg (· ++ _) hlog, hnegatives, hentries⟩

theorem lockstep_queryServers (name : Text) (qtype : UInt16) (servers : List Server)
    (lastErr : ResolveError) :
    Lockstep World.Agree (queryServers name qtype servers lastErr) := by
  induction servers generalizing lastErr with
  | nil => exact Lockstep.pure _
  | cons server servers ih =>
    obtain ⟨nsName, ip⟩ := server
    intro w w' h
    cases hsend : sendQuery ⟨ip, dnsPort⟩ name qtype w with
    | mk r w₁ =>
      obtain ⟨w₁', hsend', h₁⟩ := (lockstep_sendQuery _ name qtype).exists_eq h hsend
      rw [queryServers, queryServers, hsend, hsend']
      cases r with
      | ok reply => exact ⟨rfl, ((h₁.putAll _).putAll _).putAll _⟩
      | error e => exact ih _ w₁ w₁' h₁

/-! ## One resolution -/

/-- A way of looking up name servers that does not tell such worlds apart. -/
def ResolveNs.Lockstep (resolveNs : ResolveNs) : Prop :=
  ∀ resolve ∈ resolveNs, ∀ ns, PpcaNetwork.Lockstep World.Agree (resolve ns)

/-- Rounds that differ in the world only. -/
def Lookup.Agree (s s' : Lookup) : Prop :=
  ∃ w, s' = { s with world := w } ∧ s.world.Agree w

/-- Results that differ in the world only. -/
def Outcome.Agree (o o' : Outcome) : Prop :=
  ∃ w, o' = { o with world := w } ∧ o.world.Agree w

section Resolution

variable {resolveNs : ResolveNs} {name : Text} {qtype : UInt16}

theorem lockstep_addReferral (hns : resolveNs.Lockstep) (glue : List Server)
    (servers : List Server) (ns : Text) :
    Lockstep World.Agree fun w => addReferral glue resolveNs (servers, w) ns := by
  intro w w' h
  unfold addReferral
  cases glue.find? (·.1 = ns) with
  | some server => exact ⟨rfl, h⟩
  | none =>
    cases hget : w.get ns typeA with
    | mk r w₁ =>
      obtain ⟨w₁', hget', h₁⟩ := (lockstep_get ns typeA).exists_eq h hget
      simp only [hget, hget']
      cases r with
      | some aRecords => exact ⟨rfl, h₁⟩
      | none =>
        cases hresolve : resolveNs with
        | none => exact ⟨rfl, h₁⟩
        | some resolve =>
          cases hrun : resolve ns w₁ with
          | mk r w₂ =>
            obtain ⟨w₂', hrun', h₂⟩ := (hns resolve hresolve ns).exists_eq h₁ hrun
            simp only [hrun, hrun']
            cases r with
            | ok rrs => exact ⟨rfl, h₂⟩
            | error e => exact ⟨rfl, h₂⟩

theorem lockstep_extractReferral (hns : resolveNs.Lockstep)
    (authorities additionals : List DnsRR) :
    Lockstep World.Agree (extractReferral authorities additionals resolveNs) := by
  intro w w' h
  unfold extractReferral
  simp only
  split
  · exact ⟨rfl, h⟩
  · obtain ⟨hservers, hagree⟩ :=
      Lockstep.foldl (fun servers ns => lockstep_addReferral hns (glueOf additionals) servers ns)
        (nsNamesOf authorities) [] w w' h
    exact ⟨congrArg some hservers, hagree⟩

namespace Lookup

variable {s : Lookup} {w w' w₀ : World}

theorem finish_related (s : Lookup) (result : Except ResolveError (List DnsRR))
    (h : w.Agree w') :
    (s.finish result w).Related Lookup.Agree Outcome.Agree
      ({ s with world := w₀ }.finish result w') :=
  .done ⟨w', rfl, h⟩

theorem onAnswers_related (qtype : UInt16) (s : Lookup) (answers : List DnsRR) (h : w.Agree w') :
    (s.onAnswers qtype answers w).Related Lookup.Agree Outcome.Agree
      ({ s with world := w₀ }.onAnswers qtype answers w') := by
  unfold onAnswers
  simp only
  split
  · exact .done ⟨w', rfl, h⟩
  · split
    · exact .done ⟨w', rfl, h⟩
    · split
      · exact .done ⟨w', rfl, h⟩
      · rename_i rr target hcname
        split
        · exact .done ⟨w', rfl, h⟩
        · cases hservers : getNameservers target w with
          | mk r w₁ =>
            obtain ⟨w₁', hservers', h₁⟩ :=
              (lockstep_firstNameservers lockstep_get target (zonesOf target)).exists_eq h hservers
            simp only [show getNameservers target w' = _ from hservers']
            cases r with
            | error e => exact .done ⟨w₁', rfl, h₁⟩
            | ok servers => exact .next ⟨w₁', rfl, h₁⟩

theorem onReferral_related (s : Lookup) (servers : List Server) (h : w.Agree w') :
    (s.onReferral servers w).Related Lookup.Agree Outcome.Agree
      ({ s with world := w₀ }.onReferral servers w') := by
  unfold onReferral
  split
  · exact .done ⟨w', rfl, h⟩
  · simp only
    split
    · exact .done ⟨w', rfl, h⟩
    · exact .next ⟨w', rfl, h⟩

theorem onNoAnswers_related (hns : resolveNs.Lockstep) (name : Text) (qtype : UInt16) (s : Lookup)
    (authorities additionals : List DnsRR) (h : w.Agree w') :
    (s.onNoAnswers resolveNs name qtype authorities additionals w).Related
      Lookup.Agree Outcome.Agree
      ({ s with world := w₀ }.onNoAnswers resolveNs name qtype authorities additionals w') := by
  unfold onNoAnswers
  cases hreferral : extractReferral authorities additionals resolveNs w with
  | mk r w₁ =>
    obtain ⟨w₁', hreferral', h₁⟩ :=
      (lockstep_extractReferral hns authorities additionals).exists_eq h hreferral
    simp only [hreferral']
    cases r with
    | some servers => exact onReferral_related s servers h₁
    | none =>
      simp only
      split
      · exact finish_related s _ (h₁.putNxdomain name qtype _)
      · exact finish_related s _ h₁

/-- **One round** goes the same way in both. -/
theorem round_related (hns : resolveNs.Lockstep) (name : Text) (qtype : UInt16) {s s' : Lookup}
    (h : s.Agree s') :
    (s.round resolveNs name qtype).Related Lookup.Agree Outcome.Agree
      (s'.round resolveNs name qtype) := by
  obtain ⟨w', rfl, hworld⟩ := h
  unfold Lookup.round
  cases hget : s.world.get s.currentName qtype with
  | mk r w₁ =>
    obtain ⟨w₁', hget', h₁⟩ := (lockstep_get s.currentName qtype).exists_eq hworld hget
    simp only [hget']
    cases r with
    | some rrs => exact finish_related s _ h₁
    | none =>
      cases hquery : queryBestServer s.currentName qtype s.servers w₁ with
      | mk r w₂ =>
        obtain ⟨w₂', hquery', h₂⟩ :=
          (lockstep_queryServers s.currentName qtype s.servers .noServer).exists_eq h₁ hquery
        simp only [show queryBestServer s.currentName qtype s.servers w₁' = _ from hquery', hquery]
        cases r with
        | error e => exact finish_related s _ h₂
        | ok sections =>
          simp only
          split
          · exact onNoAnswers_related hns name qtype s _ _ h₂
          · exact onAnswers_related qtype s _ h₂

end Lookup

theorem agree_lookupWith (hns : resolveNs.Lockstep) (name : Text) (qtype : UInt16) {w w' : World}
    (h : w.Agree w') :
    (lookupWith resolveNs name qtype w).Agree (lookupWith resolveNs name qtype w') := by
  unfold lookupWith
  cases hservers : getNameservers rootName w with
  | mk r w₁ =>
    obtain ⟨w₁', hservers', h₁⟩ :=
      (lockstep_firstNameservers lockstep_get rootName (zonesOf rootName)).exists_eq h hservers
    simp only [show getNameservers rootName w' = _ from hservers']
    cases r with
    | error e => exact ⟨w₁', rfl, h₁⟩
    | ok servers =>
      refine Loop.bounded_related (fun _ _ hs => Lookup.round_related hns name qtype hs) ?_
        maxIterations ⟨w₁', rfl, h₁⟩
      rintro s s' ⟨w₂, rfl, h₂⟩
      exact ⟨w₂, rfl, h₂⟩

end Resolution

theorem agree_lookup (glueLeft : Nat) (name : Text) (qtype : UInt16) {w w' : World}
    (h : w.Agree w') : (lookup glueLeft name qtype w).Agree (lookup glueLeft name qtype w') := by
  induction glueLeft generalizing name qtype w w' with
  | zero =>
    refine agree_lookupWith ?_ name qtype h
    intro resolve hresolve
    exact absurd hresolve (by simp)
  | succ glueLeft ih =>
    refine agree_lookupWith ?_ name qtype h
    intro resolve hresolve ns w₁ w₁' h₁
    obtain rfl := Option.some.inj hresolve
    obtain ⟨w₂, heq, h₂⟩ := ih ns typeA h₁
    simp only [heq]
    exact ⟨trivial, h₂⟩

/-- **No resolution tells such worlds apart.** -/
theorem lockstep_resolve (name : Text) (qtype : UInt16) :
    Lockstep World.Agree (resolve name qtype) := by
  have htry : Lockstep World.Agree (tryResolve name qtype) := by
    intro w w' h
    unfold tryResolve
    simp only
    cases hget : w.get (toAsciiLowercase name) qtype with
    | mk r w₁ =>
      obtain ⟨w₁', hget', h₁⟩ := (lockstep_get (toAsciiLowercase name) qtype).exists_eq h hget
      simp only [hget']
      cases r with
      | some rrs => exact ⟨rfl, h₁⟩
      | none =>
        cases hdenied : w₁.isNxdomain (toAsciiLowercase name) qtype with
        | mk denied w₂ =>
          obtain ⟨w₂', hdenied', h₂⟩ :=
            (lockstep_isNxdomain (toAsciiLowercase name) qtype).exists_eq h₁ hdenied
          simp only [hdenied, hdenied']
          cases denied with
          | true => exact ⟨rfl, h₂⟩
          | false =>
            obtain ⟨w₃, heq, h₃⟩ := agree_lookup maxGlueDepth (toAsciiLowercase name) qtype h₂
            simp only [resolveIterative, heq]
            exact ⟨trivial, h₃⟩
  intro w w' h
  unfold resolve
  cases htried : tryResolve name qtype w with
  | mk r w₁ =>
    obtain ⟨w₁', htried', h₁⟩ := htry.exists_eq h htried
    simp only [htried']
    cases r with
    | ok rrs => exact ⟨rfl, h₁⟩
    | error e => exact ⟨rfl, h₁⟩

/-! ## Zones -/

/-- The name is that of the zone or below it. -/
def AtOrBelow (name zone : Text) : Prop :=
  zone = rootName ∨ SameText name zone ∨
    (dot :: toAsciiLowercase zone) <:+ toAsciiLowercase name

instance (name zone : Text) : Decidable (AtOrBelow name zone) :=
  inferInstanceAs (Decidable (_ ∨ _ ∨ _))

theorem AtOrBelow.congr {name name' zone : Text} (h : AtOrBelow name zone)
    (hsame : SameText name name') : AtOrBelow name' zone := by
  rcases h with hroot | hzone | hbelow
  · exact .inl hroot
  · exact .inr (.inl (hsame.symm.trans hzone))
  · exact .inr (.inr (hsame ▸ hbelow))

/-- `put_all` as if there were no records outside the zone; the clock is read for
those all the same. -/
def World.putAllWithin (zone : Text) (w : World) (rrs : List DnsRR) : World :=
  rrs.foldl (fun w rr => if AtOrBelow rr.name zone then w.put rr else w.tick) w

/-- What `resolve` returns after some other questions. -/
def answerAfter (w : World) (earlier : List (Text × UInt16)) (name : Text) (qtype : UInt16) :
    List DnsRR :=
  (resolve name qtype (run Session.resolve ⟨w, []⟩ earlier).world).1

theorem World.Agree.answerAfter_eq {w w' : World} (h : w.Agree w')
    (earlier : List (Text × UInt16)) (name : Text) (qtype : UInt16) :
    answerAfter w earlier name qtype = answerAfter w' earlier name qtype := by
  have hsessions : (run Session.resolve ⟨w, []⟩ earlier).world.Agree
      (run Session.resolve ⟨w', []⟩ earlier).world := by
    refine Run.related (R := fun s s' : Session => s.world.Agree s'.world) ?_ h earlier
    intro s s' question hagree
    exact (lockstep_resolve question.1 question.2 _ _ hagree).2
  exact (lockstep_resolve name qtype _ _ hsessions).1

/-- Records of other classes than `IN` may be left out. -/
theorem World.Agree.putAllWithin {zone : Text} {rrs : List DnsRR}
    (hzone : ∀ rr ∈ rrs, rr.cls = classIn → AtOrBelow rr.name zone) {w w' : World}
    (h : w.Agree w') : (w.putAll rrs).Agree (w'.putAllWithin zone rrs) := by
  induction rrs generalizing w w' with
  | nil => exact h
  | cons rr rrs ih =>
    have hrest : ∀ x ∈ rrs, x.cls = classIn → AtOrBelow x.name zone :=
      fun x hx => hzone x (List.mem_cons_of_mem _ hx)
    have hhead : (w.put rr).Agree (if AtOrBelow rr.name zone then w'.put rr else w'.tick) := by
      by_cases hin : AtOrBelow rr.name zone
      · rw [if_pos hin]
        exact h.put rr
      · rw [if_neg hin]
        exact h.put_left fun hcls => hin (hzone rr (by simp) hcls)
    exact ih hrest hhead

/-! ## Records that are seen -/

/-- A cached answer is returned as it is. -/
theorem resolve_of_get {name : Text} {qtype : UInt16} {w : World} {rrs : List DnsRR}
    (h : (w.get (toAsciiLowercase name) qtype).1 = some rrs) : (resolve name qtype w).1 = rrs := by
  cases hget : w.get (toAsciiLowercase name) qtype with
  | mk r w' =>
    rw [hget] at h
    obtain rfl : r = some rrs := h
    simp only [resolve, tryResolve, hget]

/-- Two records are under the key of `rr`: its own data with some TTL, and other data
that has not expired. -/
def Probes (rr : DnsRR) (other : RData) (ttl : UInt32) (expires : Instant) (w : World) : Prop :=
  w.now = 0 ∧ w.delays = [] ∧ ∃ more, w.cache.entriesAt rr.cacheKey =
    { rr := { rr with ttl := ttl }, expires := expires } ::
      { rr := { rr with rdata := other }, expires := 1 } :: more

/-- A world with these two records and nothing else. -/
def probeWorld (rr : DnsRR) (other : RData) (ttl : UInt32) : World where
  cache := DnsCache.new.setEntries rr.cacheKey
    [{ rr := { rr with ttl := ttl }, expires := 1 },
      { rr := { rr with rdata := other }, expires := 1 }] (by
      intro e he
      simp only [List.mem_cons, List.not_mem_nil, or_false] at he
      rcases he with rfl | rfl <;> rfl)
  now := 0
  delays := []
  upstream := []
  log := []

theorem probes_probeWorld (rr : DnsRR) (other : RData) (ttl : UInt32) :
    Probes rr other ttl 1 (probeWorld rr other ttl) := by
  refine ⟨rfl, rfl, [], ?_⟩
  rw [probeWorld, DnsCache.entriesAt_setEntries, if_pos rfl]

/-- The TTL of the data of `rr` after records have been put. -/
def lastTtl (rr : DnsRR) (ttl : UInt32) (rrs : List DnsRR) : UInt32 :=
  rrs.foldl (fun ttl x => if x.Same rr then x.ttl else ttl) ttl

/-- Once such a record has been put, the TTL before does not matter. -/
theorem exists_lastTtl_eq {rr : DnsRR} {rrs : List DnsRR} (h : ∃ x ∈ rrs, x.Same rr) :
    ∃ last, ∀ ttl, lastTtl rr ttl rrs = last := by
  induction rrs with
  | nil => simp at h
  | cons x rrs ih =>
    by_cases hlater : ∃ y ∈ rrs, y.Same rr
    · obtain ⟨last, hlast⟩ := ih hlater
      exact ⟨last, fun ttl => hlast _⟩
    · have hx : x.Same rr := by
        obtain ⟨y, hy, hsame⟩ := h
        rcases List.mem_cons.mp hy with rfl | hy
        · exact hsame
        · exact absurd ⟨y, hy, hsame⟩ hlater
      refine ⟨lastTtl rr x.ttl rrs, fun ttl => ?_⟩
      rw [lastTtl, List.foldl_cons, if_pos hx, lastTtl]

namespace Probes

variable {rr x : DnsRR} {other : RData} {ttl : UInt32} {expires : Instant} {w : World}

theorem tick_eq (h : Probes rr other ttl expires w) : w.tick = w := by
  rw [World.tick, h.2.1]

/-- A record under another key. -/
theorem put_other (h : Probes rr other ttl expires w) (hkey : x.cacheKey ≠ rr.cacheKey) :
    Probes rr other ttl expires (w.put x) := by
  obtain ⟨hnow, hdelays, more, hentries⟩ := h
  have htick : w.tick = w := tick_eq ⟨hnow, hdelays, more, hentries⟩
  rw [World.put, htick]
  refine ⟨hnow, hdelays, more, ?_⟩
  rw [DnsCache.entriesAt_put, if_neg (Ne.symm hkey), hentries]

/-- A record of any key changes the TTL of its own data only. -/
theorem put (h : Probes rr other ttl expires w) (hother : x.rdata ≠ other) :
    ∃ expires', Probes rr other (if x.Same rr then x.ttl else ttl) expires' (w.put x) := by
  by_cases hkey : x.cacheKey = rr.cacheKey
  · obtain ⟨hnow, hdelays, more, hentries⟩ := h
    have htick : w.tick = w := tick_eq ⟨hnow, hdelays, more, hentries⟩
    have hput : (w.put x).cache.entriesAt rr.cacheKey =
        DnsCache.putEntry x (Duration.fromSecs x.ttl.toNat) (w.cache.entriesAt rr.cacheKey) := by
      rw [World.put, htick, DnsCache.entriesAt_put, if_pos hkey.symm, hkey, hnow, Nat.zero_add]
    have hrest : w.tick.now = 0 ∧ w.tick.delays = [] := htick.symm ▸ ⟨hnow, hdelays⟩
    rw [hentries] at hput
    by_cases hdata : rr.rdata = x.rdata
    · rw [if_pos ⟨hkey, hdata.symm⟩]
      refine ⟨Duration.fromSecs x.ttl.toNat, hrest.1, hrest.2, more, ?_⟩
      rw [hput, DnsCache.putEntry, if_pos hdata]
    · rw [if_neg fun hsame => hdata hsame.2.symm]
      refine ⟨expires, hrest.1, hrest.2,
        DnsCache.putEntry x (Duration.fromSecs x.ttl.toNat) more, ?_⟩
      rw [hput, DnsCache.putEntry, if_neg hdata, DnsCache.putEntry, if_neg (Ne.symm hother)]
  · rw [if_neg fun hsame => hkey hsame.1]
    exact ⟨expires, h.put_other hkey⟩

theorem putAll (h : Probes rr other ttl expires w) {rrs : List DnsRR}
    (hother : ∀ x ∈ rrs, x.rdata ≠ other) :
    ∃ expires', Probes rr other (lastTtl rr ttl rrs) expires' (w.putAll rrs) := by
  induction rrs generalizing ttl expires w with
  | nil => exact ⟨expires, h⟩
  | cons x rrs ih =>
    obtain ⟨expires', hput⟩ := h.put (hother x (by simp))
    exact ih hput fun y hy => hother y (List.mem_cons_of_mem _ hy)

theorem putAllWithin (h : Probes rr other ttl expires w) {zone : Text}
    (hout : ¬ AtOrBelow rr.name zone) (rrs : List DnsRR) :
    Probes rr other ttl expires (w.putAllWithin zone rrs) := by
  induction rrs generalizing w with
  | nil => exact h
  | cons x rrs ih =>
    by_cases hin : AtOrBelow x.name zone
    · have hkey : x.cacheKey ≠ rr.cacheKey := by
        intro hkey
        exact hout (hin.congr (congrArg CacheKey.name hkey))
      have hput := ih (h.put_other hkey)
      rwa [World.putAllWithin, List.foldl_cons, if_pos hin]
    · have hput := ih h
      rwa [World.putAllWithin, List.foldl_cons, if_neg hin, h.tick_eq]

/-- What a resolution returns first. -/
theorem head_answer (h : Probes rr other ttl expires w) (hcls : rr.cls = classIn) :
    (answerAfter w [] rr.name rr.rtype).head? =
      some (if 0 < expires then { rr with ttl := ttl } else { rr with rdata := other }) := by
  obtain ⟨hnow, hdelays, more, hentries⟩ := h
  have htick : w.tick = w := tick_eq ⟨hnow, hdelays, more, hentries⟩
  have hkey : cacheKey (toAsciiLowercase rr.name) rr.rtype classIn = rr.cacheKey := by
    rw [DnsRR.cacheKey, cacheKey, cacheKey, toAsciiLowercase_toAsciiLowercase, hcls]
  have hget : (w.get (toAsciiLowercase rr.name) rr.rtype).1 =
      some (((w.cache.entriesAt rr.cacheKey).filter fun e => 0 < e.expires).map (·.rr)) := by
    show (w.tick.cache.get (toAsciiLowercase rr.name) rr.rtype classIn w.tick.now).1 = _
    rw [htick, DnsCache.get_fst, hkey, hnow]
    have hlive : ((w.cache.entriesAt rr.cacheKey).filter fun e => 0 < e.expires).isEmpty =
        false := by
      rw [hentries]
      by_cases hexpires : 0 < expires <;> simp [hexpires]
    simp [hlive]
  rw [show answerAfter w [] rr.name rr.rtype = _ from resolve_of_get hget, hentries]
  by_cases hexpires : 0 < expires
  · simp [hexpires]
  · simp [hexpires]

end Probes

/-- There is data that none of the records has. -/
theorem exists_other_rdata (rrs : List DnsRR) : ∃ other, ∀ rr ∈ rrs, rr.rdata ≠ other := by
  have : Infinite RData := Infinite.of_injective (fun n : Nat => .unknown (List.replicate n 0)) (by
    intro n m h
    simpa using congrArg List.length (RData.unknown.inj h))
  obtain ⟨other, hother⟩ := Infinite.exists_notMem_finset (rrs.map (·.rdata)).toFinset
  refine ⟨other, ?_⟩
  rintro rr hrr rfl
  exact hother (by simpa using ⟨rr, hrr, rfl⟩)

/-- A record of class `IN` outside the zone is seen in some world. -/
theorem exists_answer_ne {rrs : List DnsRR} {rr : DnsRR} (hrr : rr ∈ rrs)
    (hcls : rr.cls = classIn) {zone : Text} (hout : ¬ AtOrBelow rr.name zone) :
    ∃ w : World, answerAfter (w.putAll rrs) [] rr.name rr.rtype ≠
      answerAfter (w.putAllWithin zone rrs) [] rr.name rr.rtype := by
  obtain ⟨other, hother⟩ := exists_other_rdata rrs
  obtain ⟨last, hlast⟩ := exists_lastTtl_eq ⟨rr, hrr, .refl rr⟩
  -- the TTL at the start is not the one that the records leave behind
  have hprobes := probes_probeWorld rr other (last + 1)
  refine ⟨probeWorld rr other (last + 1), fun heq => ?_⟩
  obtain ⟨expires, hput⟩ := hprobes.putAll hother
  rw [hlast] at hput
  have hleft := hput.head_answer hcls
  have hright := (hprobes.putAllWithin hout rrs).head_answer hcls
  rw [heq, hright, if_pos Nat.one_pos] at hleft
  by_cases hexpires : 0 < expires
  · rw [if_pos hexpires] at hleft
    have httl : last + 1 = last := congrArg DnsRR.ttl (Option.some.inj hleft)
    simp at httl
  · rw [if_neg hexpires] at hleft
    have hdata : rr.rdata = other := congrArg DnsRR.rdata (Option.some.inj hleft)
    exact hother rr hrr hdata

/-- **What a server can put into the cache.**  Every query, in every state, caches all
records of the reply it receives, in all three sections and whatever their names.  For
every zone and reply: for every name outside the zone, all later resolutions answer as
if there had been no records outside the zone in the cached reply exactly if none of
class `IN` is outside. -/
theorem poisoning_iff (zone : Text) :
    (∀ (name : Text) (qtype : UInt16) (servers : List Server) (lastErr : ResolveError) (w : World),
      let w' := (queryServers name qtype servers lastErr w).2
      (w.received w' = [] ∧ w'.cache = w.cache) ∨
        ∃ (x : Exchange) (w₁ : World), w.received w' = [x] ∧ w₁.cache = w.cache ∧
          w' = w₁.putAll x.reply.records ∧
          ∀ rr, w'.cache.Stores rr ↔
            w.cache.Stores rr ∨ ∃ rr' ∈ x.reply.records, rr'.Same rr) ∧
    ∀ reply : DnsMessage,
      (∀ (w : World) (earlier : List (Text × UInt16)) (name : Text) (qtype : UInt16),
        ¬ AtOrBelow name zone →
          answerAfter (w.putAll reply.records) earlier name qtype =
            answerAfter (w.putAllWithin zone reply.records) earlier name qtype) ↔
      ∀ rr ∈ reply.records, rr.cls = classIn → AtOrBelow rr.name zone := by
  constructor
  · intro name qtype servers lastErr w w'
    rcases queryServers_received name qtype servers lastErr w with
      ⟨hnone, hcache⟩ | ⟨x, w₁, hnew, -, hcache, hput⟩
    · exact .inl ⟨hnone, hcache⟩
    · refine .inr ⟨x, w₁, hnew, hcache, hput, ?_⟩
      intro rr
      rw [show w' = _ from hput, World.stores_putAll_iff, hcache]
  · intro reply
    constructor
    · intro h rr hrr hcls
      by_contra hout
      obtain ⟨w, hne⟩ := exists_answer_ne hrr hcls hout
      exact hne (h w [] rr.name rr.rtype hout)
    · intro hzone w earlier name qtype _
      exact ((World.Agree.refl w).putAllWithin hzone).answerAfter_eq earlier name qtype

/-! ## The demo -/

/-- The demo's server of `evil.example.`. -/
def demoEvilAddr : Ipv4Addr := ⟨192, 0, 2, 66⟩

/-- A record for a name that is none of its own. -/
def demoStolen : DnsRR := demoRr "www.bank.example." typeA (.a demoEvilAddr)

/-- Its reply, with some further records. -/
def demoEvilReply (additionals : List DnsRR) : DnsMessage :=
  demoReply rcodeNoerror [demoRr "www.evil.example." typeA (.a demoEvilAddr)] [] additionals

/-- The root refers to the server of `evil.example.`, which replies. -/
def demoEvilWorld (reply : DnsMessage) : World :=
  { demoWorld [] with
    upstream := [
      (7, .received ⟨demoRootAddr, dnsPort⟩ (encodeMessage (demoReply rcodeNoerror []
        [demoRr "evil.example." typeNs (.ns (utf8 "ns.evil.example."))]
        [demoRr "ns.evil.example." typeA (.a demoEvilAddr)]))),
      (7, .received ⟨demoEvilAddr, dnsPort⟩ (encodeMessage reply))] }

/-- A record of another class does no harm. -/
theorem demo_other_class_unseen :
    answerAfter ((demoWorld []).putAll (demoEvilReply [{ demoStolen with cls := 3 }]).records) []
        (utf8 "www.bank.example.") typeA =
      answerAfter ((demoWorld []).putAllWithin (utf8 "evil.example.")
        (demoEvilReply [{ demoStolen with cls := 3 }]).records) []
        (utf8 "www.bank.example.") typeA :=
  ((poisoning_iff (utf8 "evil.example.")).2 (demoEvilReply [{ demoStolen with cls := 3 }])).mpr
    (by decide +kernel) (demoWorld []) [] (utf8 "www.bank.example.") typeA (by decide +kernel)

/-- A client has asked for `www.evil.example.`. -/
def demoEvilSession (reply : DnsMessage) : Session :=
  run Session.resolve ⟨demoEvilWorld reply, []⟩ [(utf8 "www.evil.example.", typeA)]

/-- **A name of another zone is stolen**: the server of `evil.example.`, to which the
root has referred, adds an address of `www.bank.example.` to its reply, and a later
resolution answers with it. -/
theorem demo_stolen_name :
    ((demoEvilWorld (demoEvilReply [demoStolen])).received
        (demoEvilSession (demoEvilReply [demoStolen])).world).map (·.server) =
      [⟨demoRootAddr, dnsPort⟩, ⟨demoEvilAddr, dnsPort⟩] ∧
    ¬ AtOrBelow demoStolen.name (utf8 "evil.example.") ∧
    (demoEvilSession (demoEvilReply [demoStolen])).world.cache.Stores demoStolen ∧
    (resolve (utf8 "www.bank.example.") typeA
      (demoEvilSession (demoEvilReply [demoStolen])).world).1 = [demoStolen] ∧
    (resolve (utf8 "www.bank.example.") typeA
      (demoEvilSession (demoEvilReply [])).world).1 = [] := by
  decide +kernel

end PpcaNetwork.Dns
