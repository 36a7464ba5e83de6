import PpcaNetwork.Lib.Lockstep
import PpcaNetwork.DnsResolver.Resolve

/-!
# What a round of the resolution can do

One lemma for each operation of the resolver, saying what it may change, and one
inversion lemma for a round of the loop, so that no invariant has to unfold the
source again.

* `World.Grows` — the log only grows and the negative cache stays as it is;
  everything up to the end of a query does no more than that.
* `lockstep_firstNameservers` — name servers are found by looking into the cache only.
* `queryServers_cases` — a query takes over all records of the reply, or none;
  `queryServers_ok` — its answer is what one server said about the name asked for.
* `Lookup.Step` and `Lookup.round_step` — the twelve ways a round can go.
-/

namespace PpcaNetwork.Dns

/-! ## The log and the negative cache -/

/-- From `w` to `w'` the log has only grown and the negative cache has not changed. -/
structure World.Grows (w w' : World) : Prop where
  log : w.log <+: w'.log
  negatives : w'.cache.negatives = w.cache.negatives

namespace World

theorem Grows.refl (w : World) : w.Grows w := ⟨List.prefix_refl _, rfl⟩

theorem Grows.trans {w w' w'' : World} (h : w.Grows w') (h' : w'.Grows w'') : w.Grows w'' :=
  ⟨h.log.trans h'.log, h'.negatives.trans h.negatives⟩

@[simp] theorem cache_tick (w : World) : w.tick.cache = w.cache := by
  unfold tick
  split <;> rfl

@[simp] theorem log_tick (w : World) : w.tick.log = w.log := by
  unfold tick
  split <;> rfl

theorem grows_tick (w : World) : w.Grows w.tick where
  log := by rw [log_tick]
  negatives := by rw [cache_tick]

theorem grows_get (w : World) (name : Text) (qtype : UInt16) : w.Grows (w.get name qtype).2 where
  log := (grows_tick w).log
  negatives := (DnsCache.negatives_get ..).trans (grows_tick w).negatives

theorem grows_put (w : World) (rr : DnsRR) : w.Grows (w.put rr) where
  log := (grows_tick w).log
  negatives := (DnsCache.negatives_put ..).trans (grows_tick w).negatives

theorem grows_putAll (w : World) (rrs : List DnsRR) : w.Grows (w.putAll rrs) := by
  induction rrs generalizing w with
  | nil => exact Grows.refl w
  | cons rr rrs ih => exact (grows_put w rr).trans (ih _)

/-- What a lookup in the cache returns belongs to the question. -/
theorem get_sound {w w' : World} {name : Text} {qtype : UInt16} {rrs : List DnsRR}
    (h : w.get name qtype = (some rrs, w')) :
    ∀ rr ∈ rrs, SameText rr.name name ∧ rr.rtype = qtype ∧ rr.cls = classIn :=
  DnsCache.get_sound (congrArg Prod.fst h)

end World

theorem grows_addNsIps (acc : List Server × World) (ns : DnsRR) :
    acc.2.Grows (addNsIps acc ns).2 := by
  unfold addNsIps
  split
  · exact World.grows_get ..
  · exact World.Grows.refl _

theorem grows_getNsIps (zone : Text) (w : World) : w.Grows (getNsIps zone w).2 :=
  (World.grows_get ..).trans
    (Loop.foldl_rule World.Grows.refl World.Grows.trans grows_addNsIps _ ([], _))

theorem grows_firstNameservers (name : Text) (zones : List Text) (w : World) :
    w.Grows (firstNameservers name zones w).2 := by
  induction zones generalizing w with
  | nil => exact World.Grows.refl w
  | cons zone zones ih =>
    have hzone := grows_getNsIps zone w
    simp only [firstNameservers]
    split
    · exact hzone.trans (ih _)
    · exact hzone

theorem grows_getNameservers (name : Text) (w : World) : w.Grows (getNameservers name w).2 :=
  grows_firstNameservers ..

/-! ## Name servers from the cache -/

section

variable {R : World → World → Prop}

/-- Worlds that no lookup in the cache tells apart have the same name servers. -/
theorem lockstep_addNsIps (hget : ∀ name qtype, Lockstep R fun w => w.get name qtype) (ns : DnsRR)
    (servers : List Server) : Lockstep R fun w => addNsIps (servers, w) ns := by
  unfold addNsIps
  cases ns.rdata with
  | ns nsName =>
    exact (hget nsName typeA).map fun aRecords => servers ++ serversOf nsName (aRecords.getD [])
  | _ => exact Lockstep.pure servers

theorem lockstep_getNsIps (hget : ∀ name qtype, Lockstep R fun w => w.get name qtype)
    (zone : Text) : Lockstep R (getNsIps zone) :=
  (hget (toAsciiLowercase zone) typeNs).bind fun nsRecords =>
    Lockstep.foldl (fun servers ns => lockstep_addNsIps hget ns servers) (nsRecords.getD []) []

theorem lockstep_firstNameservers (hget : ∀ name qtype, Lockstep R fun w => w.get name qtype)
    (name : Text) (zones : List Text) : Lockstep R (firstNameservers name zones) := by
  induction zones with
  | nil => exact Lockstep.pure _
  | cons zone zones ih =>
    intro w w' h
    cases hzone : getNsIps zone w with
    | mk nsIps w₁ =>
      obtain ⟨w₁', hzone', h₁⟩ := (lockstep_getNsIps hget zone).exists_eq h hzone
      simp only [firstNameservers, hzone, hzone']
      split
      · exact ih w₁ w₁' h₁
      · exact ⟨rfl, h₁⟩

end

/-! ## Worlds behind a referral and a question -/

/-- The addresses of a name server come from the glue, from the cache or from a resolution. -/
theorem addReferral_world (glue : List Server) (resolveNs : ResolveNs)
    (acc : List Server × World) (ns : Text) :
    (addReferral glue resolveNs acc ns).2 = acc.2 ∨
      (addReferral glue resolveNs acc ns).2 = (acc.2.get ns typeA).2 ∨
      ∃ resolve ∈ resolveNs,
        (addReferral glue resolveNs acc ns).2 = (resolve ns (acc.2.get ns typeA).2).2 := by
  unfold addReferral
  cases glue.find? (·.1 = ns) with
  | some server => exact .inl rfl
  | none =>
    rcases acc.2.get ns typeA with ⟨_ | aRecords, w⟩
    · cases resolveNs with
      | none => exact .inr (.inl rfl)
      | some resolve =>
        refine .inr (.inr ⟨resolve, rfl, ?_⟩)
        dsimp only
        rcases resolve ns w with ⟨_ | rrs, w'⟩
        · rfl
        · rfl
    · exact .inr (.inl rfl)

/-- A referral goes through its name servers one after another. -/
theorem extractReferral_world (authorities additionals : List DnsRR) (resolveNs : ResolveNs)
    (w : World) : (extractReferral authorities additionals resolveNs w).2 =
      ((nsNamesOf authorities).foldl (addReferral (glueOf additionals) resolveNs) ([], w)).2 := by
  unfold extractReferral
  dsimp only
  split
  next hempty => rw [List.isEmpty_iff.mp hempty, List.foldl_nil]
  next => rfl

/-- A question takes a look at the records, then one at the denials, and then a resolution. -/
theorem tryResolve_world (name : Text) (qtype : UInt16) (w : World) :
    (tryResolve name qtype w).2 = (w.get (toAsciiLowercase name) qtype).2 ∨
      (tryResolve name qtype w).2 = (w.get (toAsciiLowercase name) qtype).2.tick ∨
      (tryResolve name qtype w).2 = (resolveIterative maxGlueDepth (toAsciiLowercase name) qtype
        (w.get (toAsciiLowercase name) qtype).2.tick).2 := by
  unfold tryResolve
  dsimp only
  rcases w.get (toAsciiLowercase name) qtype with ⟨_ | rrs, w'⟩
  · simp only [World.isNxdomain]
    cases w'.tick.cache.isNxdomain (toAsciiLowercase name) qtype classIn w'.tick.now with
    | true => exact .inr (.inl rfl)
    | false => exact .inr (.inr rfl)
  · exact .inl rfl

theorem resolve_world (name : Text) (qtype : UInt16) (w : World) :
    (resolve name qtype w).2 = (tryResolve name qtype w).2 := by
  unfold resolve
  rcases tryResolve name qtype w with ⟨_ | rrs, w'⟩
  · rfl
  · rfl

/-! ## Queries -/

/-- The records of all three sections, in the order they are cached in. -/
def DnsMessage.records (reply : DnsMessage) : List DnsRR :=
  reply.answers ++ reply.authorities ++ reply.additionals

/-- The exchange is about the name and type, and its reply has been decoded. -/
structure Exchange.About (name : Text) (qtype : UInt16) (x : Exchange) : Prop where
  asked : x.asked = name
  qtype : x.qtype = qtype
  typed : ∀ rr ∈ x.reply.answers, rr.Typed

theorem World.putAll_append (w : World) (rrs rrs' : List DnsRR) :
    w.putAll (rrs ++ rrs') = (w.putAll rrs).putAll rrs' :=
  List.foldl_append

/-- A query that is answered is logged; the cache stays as it is. -/
theorem sendQuery_cases (server : SocketAddr) (name : Text) (qtype : UInt16) (w : World) :
    let r := sendQuery server name qtype w
    r.2.cache = w.cache ∧
      ((∃ e, r.1 = .error e ∧ r.2.log = w.log) ∨
        ∃ x : Exchange, x.About name qtype ∧ r.1 = .ok x.reply ∧ r.2.log = w.log ++ [x]) := by
  unfold sendQuery
  split
  · exact ⟨rfl, .inl ⟨_, rfl, rfl⟩⟩
  · exact ⟨rfl, .inl ⟨_, rfl, rfl⟩⟩
  · simp only
    split
    · exact ⟨rfl, .inl ⟨_, rfl, rfl⟩⟩
    · rename_i hdecode
      exact ⟨rfl, .inr ⟨_, ⟨rfl, rfl, decodeMessage_answers_typed hdecode⟩, rfl, rfl⟩⟩

/-- **Inversion.**  Either no server has answered, or the first answer has been
logged and all its records have been put into the cache. -/
theorem queryServers_cases (name : Text) (qtype : UInt16) (servers : List Server)
    (lastErr : ResolveError) (w : World) :
    let r := queryServers name qtype servers lastErr w
    ((∃ e, r.1 = .error e) ∧ r.2.log = w.log ∧ r.2.cache = w.cache) ∨
      ∃ (x : Exchange) (w₁ : World), x.About name qtype ∧ r.1 = .ok (sectionsOf x.reply) ∧
        w₁.log = w.log ++ [x] ∧ w₁.cache = w.cache ∧ r.2 = w₁.putAll x.reply.records := by
  induction servers generalizing lastErr w with
  | nil => exact .inl ⟨⟨_, rfl⟩, rfl, rfl⟩
  | cons server servers ih =>
    obtain ⟨nsName, ip⟩ := server
    obtain ⟨hcache, hsend⟩ := sendQuery_cases ⟨ip, dnsPort⟩ name qtype w
    cases hquery : sendQuery ⟨ip, dnsPort⟩ name qtype w with
    | mk r w₁ =>
      rw [hquery] at hcache hsend
      simp only [queryServers, hquery]
      rcases hsend with ⟨e, rfl, hlog⟩ | ⟨x, habout, rfl, hlog⟩
      · rw [← show w₁.log = w.log from hlog, ← show w₁.cache = w.cache from hcache]
        exact ih (.server nsName e) w₁
      · refine .inr ⟨x, w₁, habout, rfl, hlog, hcache, ?_⟩
        rw [DnsMessage.records, World.putAll_append, World.putAll_append]

theorem grows_queryServers (name : Text) (qtype : UInt16) (servers : List Server)
    (lastErr : ResolveError) (w : World) :
    w.Grows (queryServers name qtype servers lastErr w).2 := by
  rcases queryServers_cases name qtype servers lastErr w with
    ⟨-, hlog, hcache⟩ | ⟨x, w₁, -, -, hlog, hcache, hput⟩
  · exact ⟨hlog ▸ List.prefix_refl _, congrArg DnsCache.negatives hcache⟩
  · have hreceived : w.Grows w₁ :=
      ⟨hlog ▸ List.prefix_append _ _, congrArg DnsCache.negatives hcache⟩
    rw [hput]
    exact hreceived.trans (World.grows_putAll ..)

/-- What `query_best_server` returns is what some server replied about the name. -/
theorem queryServers_ok {name : Text} {qtype : UInt16} {servers : List Server}
    {lastErr : ResolveError} {w w' : World} {sections : Sections}
    (h : queryServers name qtype servers lastErr w = (.ok sections, w')) :
    ∃ x ∈ w'.log, x.asked = name ∧ x.qtype = qtype ∧ sectionsOf x.reply = sections ∧
      ∀ rr ∈ x.reply.answers, rr.Typed := by
  have hcases := queryServers_cases name qtype servers lastErr w
  rw [h] at hcases
  rcases hcases with ⟨⟨e, he⟩, -⟩ | ⟨x, w₁, habout, hok, hlog, -, hput⟩
  · exact absurd he (by simp)
  · have hlater : w₁.Grows w' := by
      rw [show w' = _ from hput]
      exact World.grows_putAll ..
    have hx : x ∈ w'.log := hlater.log.subset (hlog ▸ by simp)
    exact ⟨x, hx, habout.asked, habout.qtype, (Except.ok.inj hok).symm, habout.typed⟩

theorem answers_sectionsOf_subset (reply : DnsMessage) :
    (sectionsOf reply).answers ⊆ reply.answers := by
  unfold sectionsOf
  simp only
  split
  · exact List.nil_subset _
  · exact List.Subset.refl _

theorem mem_of_findCname {rrs : List DnsRR} {rr : DnsRR} {target : Text}
    (h : findCname rrs = some (rr, target)) : rr ∈ rrs ∧ rr.rdata = .cname target := by
  obtain ⟨x, hx, heq⟩ := List.exists_of_findSome?_eq_some h
  cases hr : x.rdata with
  | cname name =>
    simp only [hr, Option.some.injEq, Prod.mk.injEq] at heq
    obtain ⟨rfl, rfl⟩ := heq
    exact ⟨hx, hr⟩
  | _ => simp [hr] at heq

/-! ## One round -/

namespace Lookup

/-- The cache has nothing on the current name, and one of the servers has
answered with `sections`, which leaves the world `w`. -/
def Replied (qtype : UInt16) (s : Lookup) (sections : Sections) (w : World) : Prop :=
  ∃ w₀, s.world.get s.currentName qtype = (none, w₀) ∧
    queryBestServer s.currentName qtype s.servers w₀ = (.ok sections, w)

/-- The ways a round can go. -/
inductive Step (resolveNs : ResolveNs) (name : Text) (qtype : UInt16) (s : Lookup) :
    Round Lookup Outcome → Prop where
  /-- The cache has the answer. -/
  | cached {rrs : List DnsRR} {w : World} (h : s.world.get s.currentName qtype = (some rrs, w)) :
    Step resolveNs name qtype s (s.finish (.ok (s.cnameChain ++ rrs)) w)
  /-- No server answers. -/
  | unanswered {w₀ w : World} {e : ResolveError}
    (hget : s.world.get s.currentName qtype = (none, w₀))
    (hquery : queryBestServer s.currentName qtype s.servers w₀ = (.error e, w)) :
    Step resolveNs name qtype s (s.finish (.error e) w)
  /-- The reply has records of the type asked for. -/
  | answered {sections : Sections} {w : World} (h : s.Replied qtype sections w) :
    Step resolveNs name qtype s
      (.done { result := .ok (s.cnameChain ++ extractMatching sections.answers qtype)
               trace := s.trace ++
                 [.answered s.currentName (extractMatching sections.answers qtype)]
               world := w })
  /-- The reply has answers, but none of use. -/
  | useless {sections : Sections} {w : World} (h : s.Replied qtype sections w) :
    Step resolveNs name qtype s (s.finish (.ok s.cnameChain) w)
  /-- The reply has one `CNAME` record too many. -/
  | tooDeep {sections : Sections} {w : World} (h : s.Replied qtype sections w) :
    Step resolveNs name qtype s (s.finish (.error .cnameDepthExceeded) w)
  /-- A `CNAME` record is followed, but there are no servers to go on with. -/
  | lost {sections : Sections} {w w' : World} {rr : DnsRR} {target : Text} {e : ResolveError}
    (h : s.Replied qtype sections w) (hne : qtype ≠ typeCname)
    (hcname : findCname sections.answers = some (rr, target))
    (hservers : getNameservers target w = (.error e, w')) :
    Step resolveNs name qtype s
      (.done { result := .error e, trace := s.trace ++ [.followed s.currentName rr], world := w' })
  /-- A `CNAME` record is followed. -/
  | followed {sections : Sections} {w w' : World} {rr : DnsRR} {target : Text}
    {servers : List Server} (h : s.Replied qtype sections w) (hne : qtype ≠ typeCname)
    (hcname : findCname sections.answers = some (rr, target))
    (hservers : getNameservers target w = (.ok servers, w')) :
    Step resolveNs name qtype s
      (.next { s with
        servers := servers
        currentName := target
        cnameDepth := s.cnameDepth + 1
        cnameChain := s.cnameChain ++ [rr]
        trace := s.trace ++ [.followed s.currentName rr]
        world := w' })
  /-- The reply refers to servers none of which has an address. -/
  | emptyReferral {sections : Sections} {w w' : World} (h : s.Replied qtype sections w)
    (hreferral : extractReferral sections.authorities sections.additionals resolveNs w =
      (some [], w')) :
    Step resolveNs name qtype s (s.finish (.error .emptyReferral) w')
  /-- The reply refers to servers under a key that has been visited. -/
  | cycle {sections : Sections} {w w' : World} {servers : List Server}
    (h : s.Replied qtype sections w)
    (hreferral : extractReferral sections.authorities sections.additionals resolveNs w =
      (some servers, w'))
    (hvisited : nsKey servers ∈ s.visitedNs) :
    Step resolveNs name qtype s
      (.done { result := .error .referralCycle, trace := s.trace ++ [.referred servers]
               world := w' })
  /-- The reply refers to other servers. -/
  | referred {sections : Sections} {w w' : World} {servers : List Server}
    (h : s.Replied qtype sections w)
    (hreferral : extractReferral sections.authorities sections.additionals resolveNs w =
      (some servers, w'))
    (hvisited : nsKey servers ∉ s.visitedNs) :
    Step resolveNs name qtype s
      (.next { s with
        servers := servers
        visitedNs := nsKey servers :: s.visitedNs
        trace := s.trace ++ [.referred servers]
        world := w' })
  /-- The reply has no answer and no referral, but an `SOA` record. -/
  | denied {sections : Sections} {w w' : World} (h : s.Replied qtype sections w)
    (hanswers : sections.answers = [])
    (hreferral : extractReferral sections.authorities sections.additionals resolveNs w =
      (none, w'))
    (hsoa : isNxdomainReply sections.authorities = true) :
    Step resolveNs name qtype s
      (s.finish (.ok [])
        (w'.putNxdomain name qtype (extractSoaMinimum sections.authorities)))
  /-- The reply has nothing of use. -/
  | noUse {sections : Sections} {w w' : World} (h : s.Replied qtype sections w)
    (hreferral : extractReferral sections.authorities sections.additionals resolveNs w =
      (none, w')) :
    Step resolveNs name qtype s (s.finish (.error .noUsefulResponse) w')

variable {resolveNs : ResolveNs} {name : Text} {qtype : UInt16} {s : Lookup}

theorem onAnswers_step {sections : Sections} {w : World} (h : s.Replied qtype sections w) :
    Step resolveNs name qtype s (s.onAnswers qtype sections.answers w) := by
  unfold onAnswers
  simp only
  split
  · exact .answered h
  · split
    · exact .useless h
    · rename_i hne
      split
      · exact .useless h
      · rename_i rr target hcname
        split
        · exact .tooDeep h
        · split
          · rename_i e w' hservers
            exact .lost h hne hcname hservers
          · rename_i servers w' hservers
            exact .followed h hne hcname hservers

theorem onReferral_step {sections : Sections} {w w' : World} {servers : List Server}
    (h : s.Replied qtype sections w)
    (hreferral : extractReferral sections.authorities sections.additionals resolveNs w =
      (some servers, w')) :
    Step resolveNs name qtype s (s.onReferral servers w') := by
  unfold onReferral
  split
  · rename_i hempty
    obtain rfl := List.isEmpty_iff.mp hempty
    exact .emptyReferral h hreferral
  · simp only
    split
    · rename_i hvisited
      exact .cycle h hreferral hvisited
    · rename_i hvisited
      exact .referred h hreferral hvisited

theorem onNoAnswers_step {sections : Sections} {w : World} (h : s.Replied qtype sections w)
    (hanswers : sections.answers = []) :
    Step resolveNs name qtype s
      (s.onNoAnswers resolveNs name qtype sections.authorities sections.additionals w) := by
  unfold onNoAnswers
  split
  · rename_i servers w' hreferral
    exact onReferral_step h hreferral
  · rename_i w' hreferral
    split
    · rename_i hsoa
      exact .denied h hanswers hreferral hsoa
    · exact .noUse h hreferral

/-- **Inversion.**  Every round goes one of the twelve ways. -/
theorem round_step (resolveNs : ResolveNs) (name : Text) (qtype : UInt16) (s : Lookup) :
    Step resolveNs name qtype s (s.round resolveNs name qtype) := by
  unfold Lookup.round
  split
  · rename_i rrs w hget
    exact .cached hget
  · rename_i w₀ hget
    split
    · rename_i e w hquery
      exact .unanswered hget hquery
    · rename_i sections w hquery
      have hreplied : s.Replied qtype sections w := ⟨w₀, hget, hquery⟩
      split
      · rename_i hempty
        exact onNoAnswers_step hreplied (List.isEmpty_iff.mp hempty)
      · exact onAnswers_step hreplied

/-- What a reply that the round has received says, and where it is recorded. -/
theorem Replied.exists_exchange {sections : Sections} {w : World}
    (h : s.Replied qtype sections w) :
    s.world.Grows w ∧ ∃ x ∈ w.log, x.asked = s.currentName ∧ x.qtype = qtype ∧
      sectionsOf x.reply = sections ∧ ∀ rr ∈ x.reply.answers, rr.Typed := by
  obtain ⟨w₀, hget, hquery⟩ := h
  have hgrows := s.world.grows_get s.currentName qtype
  have hservers := grows_queryServers s.currentName qtype s.servers .noServer w₀
  rw [hget] at hgrows
  have hw : (queryServers s.currentName qtype s.servers .noServer w₀).2 = w :=
    congrArg Prod.snd hquery
  exact ⟨hgrows.trans (hw ▸ hservers), queryServers_ok hquery⟩

end Lookup
end PpcaNetwork.Dns
