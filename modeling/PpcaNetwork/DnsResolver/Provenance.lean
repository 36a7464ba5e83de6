import PpcaNetwork.Lib.Run
import PpcaNetwork.DnsResolver.Rounds

/-!
# Where cached records come from

Every record in the cache, and every record of an answer, was in the cache at the
start or was in a reply that the resolver has received since.

* `queryServers_received` — a query caches all records of the reply, or nothing.
* `World.Learned` — what has come into the cache and the answers, and from where.
* `learned_lookup` — the invariant of a resolution.
* `Session.learned` — and of every run of resolutions.
-/

namespace PpcaNetwork.Dns

theorem DnsRR.Same.refl (rr : DnsRR) : rr.Same rr := ⟨rfl, rfl⟩

theorem DnsRR.Same.trans {rr rr' rr'' : DnsRR} (h : rr.Same rr') (h' : rr'.Same rr'') :
    rr.Same rr'' :=
  ⟨h.1.trans h'.1, h.2.trans h'.2⟩

/-! ## Queries -/

namespace World

@[simp] theorem log_get (w : World) (name : Text) (qtype : UInt16) :
    (w.get name qtype).2.log = w.log :=
  w.log_tick

@[simp] theorem log_putAll (w : World) (rrs : List DnsRR) : (w.putAll rrs).log = w.log := by
  induction rrs generalizing w with
  | nil => rfl
  | cons rr rrs ih => exact (ih (w.put rr)).trans w.log_tick

/-- `put_all` stores its records, and all that was there stays. -/
theorem stores_putAll_iff (w : World) (rrs : List DnsRR) (rr : DnsRR) :
    (w.putAll rrs).cache.Stores rr ↔ w.cache.Stores rr ∨ ∃ rr' ∈ rrs, rr'.Same rr := by
  induction rrs generalizing w with
  | nil => simp [putAll]
  | cons x rrs ih =>
    have hput : (w.put x).cache.Stores rr ↔ w.cache.Stores rr ∨ x.Same rr := by
      rw [put, DnsCache.stores_put_iff, cache_tick]
    rw [show w.putAll (x :: rrs) = (w.put x).putAll rrs from rfl, ih, hput, or_assoc]
    simp only [List.exists_mem_cons_iff]

end World

/-- The replies received between two states. -/
def World.received (w w' : World) : List Exchange := w'.log.drop w.log.length

theorem World.received_of_log {w w' : World} {new : List Exchange} (h : w'.log = w.log ++ new) :
    w.received w' = new := by
  rw [received, h, List.drop_left]

/-- A query receives one reply or none, and caches what it receives. -/
theorem queryServers_received (name : Text) (qtype : UInt16) (servers : List Server)
    (lastErr : ResolveError) (w : World) :
    let r := queryServers name qtype servers lastErr w
    (w.received r.2 = [] ∧ r.2.cache = w.cache) ∨
      ∃ (x : Exchange) (w₁ : World), w.received r.2 = [x] ∧ r.1 = .ok (sectionsOf x.reply) ∧
        w₁.cache = w.cache ∧ r.2 = w₁.putAll x.reply.records := by
  intro r
  rcases queryServers_cases name qtype servers lastErr w with
    ⟨-, hlog, hcache⟩ | ⟨x, w₁, -, hok, hlog, hcache, hput⟩
  · refine .inl ⟨World.received_of_log ?_, hcache⟩
    rw [List.append_nil]
    exact hlog
  · refine .inr ⟨x, w₁, World.received_of_log ?_, hok, hcache, hput⟩
    show (queryServers name qtype servers lastErr w).2.log = _
    rw [hput, World.log_putAll, hlog]

/-! ## What is learned -/

/-- The record was in the cache of `w₀`, or is in one of the replies `new`. -/
def World.Origin (w₀ : World) (new : List Exchange) (rr : DnsRR) : Prop :=
  w₀.cache.Stores rr ∨ ∃ x ∈ new, ∃ rr' ∈ x.reply.records, rr'.Same rr

/-- From `w₀` to `w` the log has only grown, and every record in the cache of `w` and
among `rrs` comes from the cache of `w₀` or from the replies logged since. -/
def World.Learned (w₀ : World) (rrs : List DnsRR) (w : World) : Prop :=
  ∃ new, w.log = w₀.log ++ new ∧ ∀ rr, w.cache.Stores rr ∨ rr ∈ rrs → w₀.Origin new rr

namespace World

variable {w₀ w w' : World} {rrs rrs' : List DnsRR}

theorem Learned.mono (h : w₀.Learned rrs w) (hsub : rrs' ⊆ rrs) : w₀.Learned rrs' w := by
  obtain ⟨new, hlog, horigin⟩ := h
  refine ⟨new, hlog, ?_⟩
  rintro rr (hstores | hmem)
  · exact horigin rr (.inl hstores)
  · exact horigin rr (.inr (hsub hmem))

/-- A step that receives nothing. -/
theorem learned_of_stores (hlog : w.log = w₀.log)
    (hcache : ∀ rr, w.cache.Stores rr → w₀.cache.Stores rr)
    (hrrs : ∀ rr ∈ rrs, w₀.cache.Stores rr) : w₀.Learned rrs w := by
  refine ⟨[], by rw [hlog, List.append_nil], ?_⟩
  rintro rr (hstores | hmem)
  · exact .inl (hcache rr hstores)
  · exact .inl (hrrs rr hmem)

theorem Learned.refl (w : World) : w.Learned [] w :=
  learned_of_stores rfl (fun _ h => h) (fun _ hmem => absurd hmem (by simp))

theorem Learned.trans (h : w₀.Learned rrs w) (h' : w.Learned rrs' w') :
    w₀.Learned (rrs ++ rrs') w' := by
  obtain ⟨new, hlog, horigin⟩ := h
  obtain ⟨new', hlog', horigin'⟩ := h'
  have hlater : ∀ rr, w.Origin new' rr → w₀.Origin (new ++ new') rr := by
    rintro rr (hstores | ⟨x, hx, hrr⟩)
    · rcases horigin rr (.inl hstores) with hstores | ⟨x, hx, hrr⟩
      · exact .inl hstores
      · exact .inr ⟨x, List.mem_append_left _ hx, hrr⟩
    · exact .inr ⟨x, List.mem_append_right _ hx, hrr⟩
  refine ⟨new ++ new', by rw [hlog', hlog, List.append_assoc], ?_⟩
  rintro rr (hstores | hmem)
  · exact hlater rr (horigin' rr (.inl hstores))
  · rcases List.mem_append.mp hmem with hmem | hmem
    · rcases horigin rr (.inr hmem) with hstores | ⟨x, hx, hrr⟩
      · exact .inl hstores
      · exact .inr ⟨x, List.mem_append_left _ hx, hrr⟩
    · exact hlater rr (horigin' rr (.inr hmem))

/-- Two steps one after the other, of which only the records at the end matter. -/
theorem Learned.next (h : w₀.Learned rrs w) (h' : w.Learned rrs' w') : w₀.Learned rrs' w' :=
  (h.trans h').mono (List.subset_append_right _ _)

/-- A lookup in the cache. -/
theorem learned_get (w : World) (name : Text) (qtype : UInt16) :
    w.Learned ((w.get name qtype).1.getD []) (w.get name qtype).2 := by
  apply learned_of_stores (w.log_get name qtype)
  · intro rr hstores
    rw [← w.cache_tick]
    exact DnsCache.stores_of_get hstores
  · intro rr hmem
    cases hget : (w.get name qtype).1 with
    | none => simp [hget] at hmem
    | some rrs =>
      rw [hget, Option.getD_some] at hmem
      rw [← w.cache_tick]
      exact DnsCache.stores_of_mem_get hget hmem

theorem learned_get_snd (w : World) (name : Text) (qtype : UInt16) :
    w.Learned [] (w.get name qtype).2 :=
  (w.learned_get name qtype).mono (List.nil_subset _)

theorem learned_putNxdomain (w : World) (name : Text) (qtype : UInt16) (ttl : UInt32) :
    w.Learned [] (w.putNxdomain name qtype ttl) := by
  apply learned_of_stores w.log_tick
  · intro rr hstores
    rw [← w.cache_tick]
    exact hstores
  · exact fun rr hmem => absurd hmem (by simp)

end World

/-! ## One resolution -/

theorem learned_addNsIps (acc : List Server × World) (ns : DnsRR) :
    acc.2.Learned [] (addNsIps acc ns).2 := by
  unfold addNsIps
  split
  · exact acc.2.learned_get_snd _ _
  · exact World.Learned.refl _

theorem learned_getNsIps (zone : Text) (w : World) : w.Learned [] (getNsIps zone w).2 :=
  (w.learned_get_snd _ _).next
    (Loop.foldl_rule World.Learned.refl World.Learned.next learned_addNsIps _ ([], _))

theorem learned_firstNameservers (name : Text) (zones : List Text) (w : World) :
    w.Learned [] (firstNameservers name zones w).2 := by
  induction zones generalizing w with
  | nil => exact World.Learned.refl w
  | cons zone zones ih =>
    have hzone := learned_getNsIps zone w
    simp only [firstNameservers]
    split
    · exact hzone.next (ih _)
    · exact hzone

/-- A query: all records of the reply are learned, and its answers may be held. -/
theorem learned_queryServers (name : Text) (qtype : UInt16) (servers : List Server)
    (lastErr : ResolveError) (w : World) :
    let r := queryServers name qtype servers lastErr w
    w.Learned [] r.2 ∧ ∀ sections, r.1 = .ok sections → w.Learned sections.answers r.2 := by
  intro r
  rcases queryServers_cases name qtype servers lastErr w with
    ⟨⟨e, he⟩, hlog, hcache⟩ | ⟨x, w₁, -, hok, hlog, hcache, hput⟩
  · have hlearned : w.Learned [] r.2 :=
      World.learned_of_stores hlog (fun rr hstores => hcache ▸ hstores)
        (fun rr hmem => absurd hmem (by simp))
    exact ⟨hlearned, fun sections hsections => absurd (he.symm.trans hsections) (by simp)⟩
  · have hlearned : w.Learned x.reply.records r.2 := by
      refine ⟨[x], ?_, ?_⟩
      · show (queryServers name qtype servers lastErr w).2.log = _
        rw [hput, World.log_putAll, hlog]
      · rintro rr (hstores | hmem)
        · rw [show r.2 = _ from hput, World.stores_putAll_iff, hcache] at hstores
          rcases hstores with hstores | hsame
          · exact .inl hstores
          · exact .inr ⟨x, by simp, hsame⟩
        · exact .inr ⟨x, by simp, rr, hmem, .refl rr⟩
    refine ⟨hlearned.mono (List.nil_subset _), ?_⟩
    intro sections hsections
    obtain rfl := Except.ok.inj (hok.symm.trans hsections)
    apply hlearned.mono
    intro rr hrr
    have hanswer := answers_sectionsOf_subset x.reply hrr
    exact List.mem_append_left _ (List.mem_append_left _ hanswer)

/-- A way of looking up name servers that learns. -/
def ResolveNs.Learns (resolveNs : ResolveNs) : Prop :=
  ∀ resolve ∈ resolveNs, ∀ ns w, World.Learned w [] (resolve ns w).2

/-- The records of an answer. -/
def recordsOf : Except ResolveError (List DnsRR) → List DnsRR
  | .ok rrs => rrs
  | .error _ => []

section Resolution

variable {resolveNs : ResolveNs} {name : Text} {qtype : UInt16}

theorem learned_addReferral (hns : resolveNs.Learns) (glue : List Server)
    (acc : List Server × World) (ns : Text) :
    acc.2.Learned [] (addReferral glue resolveNs acc ns).2 := by
  have hget := acc.2.learned_get_snd ns typeA
  rcases addReferral_world glue resolveNs acc ns with heq | heq | ⟨resolve, hresolve, heq⟩
  · rw [heq]
    exact World.Learned.refl _
  · rw [heq]
    exact hget
  · rw [heq]
    exact hget.next (hns resolve hresolve ns _)

theorem learned_extractReferral (hns : resolveNs.Learns) {authorities additionals : List DnsRR}
    {w w' : World} {r : Option (List Server)}
    (heq : extractReferral authorities additionals resolveNs w = (r, w')) : w.Learned [] w' := by
  have hworld : w' = ((nsNamesOf authorities).foldl
      (addReferral (glueOf additionals) resolveNs) ([], w)).2 := by
    rw [← extractReferral_world, heq]
  rw [hworld]
  exact Loop.foldl_rule World.Learned.refl World.Learned.next (learned_addReferral hns _) _
    ([], w)

namespace Lookup

variable {s s' : Lookup} {o : Outcome} {w₀ : World}

/-- A round that has received a reply holds its answers. -/
theorem Replied.learned {sections : Sections} {w : World} (h : s.Replied qtype sections w) :
    s.world.Learned sections.answers w := by
  obtain ⟨w₁, hget, hquery⟩ := h
  have hfirst := s.world.learned_get_snd s.currentName qtype
  obtain ⟨-, hreply⟩ := learned_queryServers s.currentName qtype s.servers .noServer w₁
  rw [hget] at hfirst
  have hlearned := hreply sections (congrArg Prod.fst hquery)
  rw [show queryServers _ _ _ _ _ = _ from hquery] at hlearned
  exact hfirst.next hlearned

theorem learned_next (hns : resolveNs.Learns) (h : w₀.Learned s.cnameChain s.world)
    (hstep : s.round resolveNs name qtype = .next s') : w₀.Learned s'.cnameChain s'.world := by
  have hs := round_step resolveNs name qtype s
  rw [hstep] at hs
  cases hs with
  | @followed sections w w' rr target servers hreplied hne hcname hservers =>
    have hfollowed := h.trans hreplied.learned
    have hgrown := learned_firstNameservers target (zonesOf target) w
    rw [show firstNameservers _ _ _ = _ from hservers] at hgrown
    apply (hfollowed.trans hgrown).mono
    intro x hx
    rcases List.mem_append.mp hx with hx | hx
    · exact List.mem_append_left _ (List.mem_append_left _ hx)
    · obtain rfl := List.mem_singleton.mp hx
      have hanswer := (mem_of_findCname hcname).1
      exact List.mem_append_left _ (List.mem_append_right _ hanswer)
  | referred hreplied hreferral hvisited =>
    apply ((h.trans hreplied.learned).trans (learned_extractReferral hns hreferral)).mono
    intro x hx
    exact List.mem_append_left _ (List.mem_append_left _ hx)

theorem learned_done (hns : resolveNs.Learns) (h : w₀.Learned s.cnameChain s.world)
    (hstep : s.round resolveNs name qtype = .done o) :
    w₀.Learned (recordsOf o.result) o.world := by
  have hs := round_step resolveNs name qtype s
  rw [hstep] at hs
  have hnone : ∀ {w : World}, w₀.Learned s.cnameChain w → w₀.Learned [] w :=
    fun hlearned => hlearned.mono (List.nil_subset _)
  cases hs with
  | @cached rrs w hget =>
    have hcached := s.world.learned_get s.currentName qtype
    rw [hget] at hcached
    exact h.trans hcached
  | @unanswered w₁ w e hget hquery =>
    have hfirst := s.world.learned_get_snd s.currentName qtype
    obtain ⟨hservers, -⟩ := learned_queryServers s.currentName qtype s.servers .noServer w₁
    rw [hget] at hfirst
    rw [show queryServers _ _ _ _ _ = _ from hquery] at hservers
    exact (hnone h).next (hfirst.next hservers)
  | answered hreplied =>
    apply (h.trans hreplied.learned).mono
    intro x hx
    rcases List.mem_append.mp hx with hx | hx
    · exact List.mem_append_left _ hx
    · exact List.mem_append_right _ (List.mem_of_mem_filter hx)
  | useless hreplied => exact (h.trans hreplied.learned).mono (List.subset_append_left _ _)
  | tooDeep hreplied => exact (hnone h).next (hreplied.learned.mono (List.nil_subset _))
  | @lost sections w w' rr target e hreplied hne hcname hservers =>
    have hgrown := learned_firstNameservers target (zonesOf target) w
    rw [show firstNameservers _ _ _ = _ from hservers] at hgrown
    exact ((hnone h).next hreplied.learned).next hgrown
  | emptyReferral hreplied hreferral =>
    exact ((hnone h).next hreplied.learned).next (learned_extractReferral hns hreferral)
  | cycle hreplied hreferral hvisited =>
    exact ((hnone h).next hreplied.learned).next (learned_extractReferral hns hreferral)
  | noUse hreplied hreferral =>
    exact ((hnone h).next hreplied.learned).next (learned_extractReferral hns hreferral)
  | denied hreplied hanswers hreferral hsoa =>
    exact (((hnone h).next hreplied.learned).next (learned_extractReferral hns hreferral)).next
      (World.learned_putNxdomain ..)

end Lookup

theorem learned_lookupWith (hns : resolveNs.Learns) (name : Text) (qtype : UInt16) (w : World) :
    w.Learned (recordsOf (lookupWith resolveNs name qtype w).result)
      (lookupWith resolveNs name qtype w).world := by
  have hstart := learned_firstNameservers rootName (zonesOf rootName) w
  unfold lookupWith
  split
  · rename_i e w' heq
    rwa [show firstNameservers _ _ _ = _ from heq] at hstart
  · rename_i servers w' heq
    rw [show firstNameservers _ _ _ = _ from heq] at hstart
    refine Loop.bounded_rule (fun s : Lookup => w.Learned s.cnameChain s.world)
      (fun o => w.Learned (recordsOf o.result) o.world) (fun _ _ => Lookup.learned_done hns)
      (fun _ _ => Lookup.learned_next hns) ?_ maxIterations (s := .start name servers w') hstart
    intro s hs
    exact hs.mono (List.nil_subset _)

end Resolution

/-- A resolution answers with records from its cache and from the replies it has
received, and caches no others. -/
theorem learned_lookup (glueLeft : Nat) (name : Text) (qtype : UInt16) (w : World) :
    w.Learned (recordsOf (lookup glueLeft name qtype w).result)
      (lookup glueLeft name qtype w).world := by
  induction glueLeft generalizing name qtype w with
  | zero =>
    apply learned_lookupWith
    intro resolve hresolve
    exact absurd hresolve (by simp)
  | succ glueLeft ih =>
    apply learned_lookupWith
    intro resolve hresolve ns w'
    obtain rfl := Option.some.inj hresolve
    exact (ih ns typeA w').mono (List.nil_subset _)

theorem learned_resolve (name : Text) (qtype : UInt16) (w : World) :
    w.Learned (resolve name qtype w).1 (resolve name qtype w).2 := by
  have hget := w.learned_get (toAsciiLowercase name) qtype
  have htry : w.Learned (recordsOf (tryResolve name qtype w).1) (tryResolve name qtype w).2 := by
    unfold tryResolve
    simp only
    split
    · rename_i rrs w' heq
      rwa [heq] at hget
    · rename_i w' heq
      rw [heq] at hget
      have hdenial : w'.Learned [] (w'.isNxdomain (toAsciiLowercase name) qtype).2 :=
        World.learned_of_stores w'.log_tick
          (fun rr hstores => by rw [← w'.cache_tick]; exact hstores)
          (fun rr hmem => absurd hmem (by simp))
      split
      · rename_i w'' heq'
        rw [heq'] at hdenial
        exact hget.next hdenial
      · rename_i w'' heq'
        rw [heq'] at hdenial
        exact (hget.next hdenial).next (learned_lookup _ _ _ w'')
  unfold resolve
  split
  · rename_i rrs w' heq
    rwa [heq] at htry
  · rename_i e w' heq
    rwa [heq] at htry

/-! ## Runs -/

/-- A resolver and all records it has answered with. -/
structure Session where
  world : World
  answered : List DnsRR

/-- One call of `resolve`. -/
def Session.resolve (s : Session) (question : Text × UInt16) : Session :=
  let (rrs, w) := Dns.resolve question.1 question.2 s.world
  ⟨w, s.answered ++ rrs⟩

/-- **Every run.** -/
theorem Session.learned (w : World) (questions : List (Text × UInt16)) :
    let s := run Session.resolve ⟨w, []⟩ questions
    w.Learned s.answered s.world := by
  refine Run.invariant (fun s : Session => w.Learned s.answered s.world) ?_ (World.Learned.refl w)
    questions
  intro s question h
  exact h.trans (learned_resolve question.1 question.2 s.world)

end PpcaNetwork.Dns
