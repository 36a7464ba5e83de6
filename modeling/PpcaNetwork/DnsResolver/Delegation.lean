import PpcaNetwork.DnsResolver.BestServer
import PpcaNetwork.DnsResolver.Budget
import PpcaNetwork.DnsResolver.Provenance
import PpcaNetwork.DnsResolver.Referral

/-!
# Down the delegations

What the resolution of a name is for: the servers of the root, and those they refer to, lead to
an answer, and `resolve_iterative` finds it.  What the servers may say is any relation; each
query may meet any of it, or fail.

* `DnsMessage.Settles`, `DnsMessage.Refers` — what a reply may be good for.
* `Leads` — servers whose every reply settles the question, or refers to servers that lead to
  its answer in fewer steps.
* `queryServers_met` — what becomes of the queries to a list of servers.
* `Steady` — how much may fail.
* `delegations_resolve` — the resolution gives an answer that the delegations lead to.
-/

namespace PpcaNetwork.Dns

/-! ## Where servers lead -/

section

variable (name : Text) (qtype : UInt16)

/-- The reply settles a question: it has records of the type asked for, or denies that there
are any. -/
def DnsMessage.Settles (reply : DnsMessage) (rrs : List DnsRR) : Prop :=
  (extractMatching (sectionsOf reply).answers qtype = rrs ∧ rrs ≠ []) ∨
    ((sectionsOf reply).answers = [] ∧ nsNamesOf reply.authorities = [] ∧
      isNxdomainReply reply.authorities = true ∧ rrs = [])

/-- The reply refers to servers, each with its address, and has nothing on the question
itself. -/
structure DnsMessage.Refers (reply : DnsMessage) (next : List Server) : Prop where
  answers : (sectionsOf reply).answers = []
  glued : (nsNamesOf reply.authorities).map
    (fun ns => (glueOf reply.additionals).find? (·.1 = ns)) = next.map some
  ne_nil : next ≠ []
  silent : ∀ rr ∈ reply.records, rr.cacheKey ≠ cacheKey name qtype classIn

/-- Lists of at least `k` servers that lead to answers in `P` within `n` lists: whatever one of
them says settles the question with such an answer, or refers to servers that have not been
visited and lead there in fewer. -/
def Leads (mayReply : Ipv4Addr → DnsMessage → Prop) (P : List DnsRR → Prop) (k : Nat) :
    (n : Nat) → (visited : List Text) → List Server → Prop
  | 0, _, _ => False
  | n + 1, visited, servers =>
    k ≤ servers.length ∧ ∀ server ∈ servers, ∀ reply, mayReply server.2 reply →
      (∃ rrs, reply.Settles qtype rrs ∧ P rrs) ∨
        ∃ next, reply.Refers name qtype next ∧ nsKey next ∉ visited ∧
          Leads mayReply P k n (nsKey next :: visited) next

end

/-! ## What queries meet -/

/-- One query: what it meets is used up, and an answer is logged. -/
theorem sendQuery_met (server : SocketAddr) (name : Text) (qtype : UInt16) (w : World) :
    let r := sendQuery server name qtype w
    r.2.cache = w.cache ∧ r.2.now = w.now ∧
      ((∃ e failed, r.1 = .error e ∧ r.2.log = w.log ∧ w.upstream = failed ++ r.2.upstream ∧
          (∀ u ∈ failed, u.2.reply = none) ∧ (failed.length = 1 ∨ r.2.upstream = [])) ∨
        ∃ (x : Exchange) (answered : UInt16 × Upstream), x.server = server ∧ x.asked = name ∧
          r.1 = .ok x.reply ∧ r.2.log = w.log ++ [x] ∧ w.upstream = answered :: r.2.upstream) := by
  unfold sendQuery
  split
  · rename_i hnil
    exact ⟨rfl, rfl, .inl ⟨_, [], rfl, rfl, rfl, by simp, .inr hnil⟩⟩
  · rename_i id call e upstream hfailed
    exact ⟨rfl, rfl, .inl ⟨_, [(id, .failed call e)], rfl, rfl, hfailed,
      by simp [Upstream.reply], .inl rfl⟩⟩
  · rename_i id sender datagram upstream hreceived
    simp only
    split
    · rename_i hdecode
      exact ⟨rfl, rfl, .inl ⟨_, [(id, .received sender datagram)], rfl, rfl, hreceived,
        by simpa [Upstream.reply] using hdecode, .inl rfl⟩⟩
    · exact ⟨rfl, rfl, .inr ⟨_, _, rfl, rfl, rfl, rfl, hreceived⟩⟩

/-- The queries to a list of servers: all of them fail, or one of the servers answers after some
have failed. -/
theorem queryServers_met (name : Text) (qtype : UInt16) (servers : List Server)
    (lastErr : ResolveError) (w : World) :
    let r := queryServers name qtype servers lastErr w
    (∃ e failed, r.1 = .error e ∧ (e = lastErr ∧ servers = [] ∨ ∃ ns qe, e = .server ns qe) ∧
        r.2.log = w.log ∧ w.upstream = failed ++ r.2.upstream ∧
        (∀ u ∈ failed, u.2.reply = none) ∧
        (failed.length = servers.length ∨ r.2.upstream = [])) ∨
      ∃ server ∈ servers, ∃ (x : Exchange) (w₁ : World) (failed : List (UInt16 × Upstream))
        (answered : UInt16 × Upstream), x.server = ⟨server.2, dnsPort⟩ ∧ x.asked = name ∧
          r.1 = .ok (sectionsOf x.reply) ∧ r.2 = w₁.putAll x.reply.records ∧
          w₁.cache = w.cache ∧ w₁.now = w.now ∧ w₁.log = w.log ++ [x] ∧
          w.upstream = failed ++ answered :: w₁.upstream ∧ ∀ u ∈ failed, u.2.reply = none := by
  induction servers generalizing lastErr w with
  | nil => exact .inl ⟨lastErr, [], rfl, .inl ⟨rfl, rfl⟩, rfl, rfl, by simp, .inl rfl⟩
  | cons server servers ih =>
    obtain ⟨nsName, ip⟩ := server
    obtain ⟨hcache, hnow, hsend⟩ := sendQuery_met ⟨ip, dnsPort⟩ name qtype w
    cases hquery : sendQuery ⟨ip, dnsPort⟩ name qtype w with
    | mk r w₁ =>
      rw [hquery] at hcache hnow hsend
      simp only [queryServers, hquery]
      rcases hsend with ⟨e, failed, rfl, hlog, hupstream, hfailed, hlength⟩ |
        ⟨x, answered, hserver, hasked, rfl, hlog, hupstream⟩
      · have hall : ∀ failed', (∀ u ∈ failed', u.2.reply = none) →
            ∀ u ∈ failed ++ failed', u.2.reply = none := by
          intro failed' hfailed' u hu
          exact (List.mem_append.mp hu).elim (hfailed u) (hfailed' u)
        rcases ih (.server nsName e) w₁ with
          ⟨e', failed', hresult, herror, hlog', hupstream', hfailed', hlength'⟩ |
          ⟨server, hmem, x, w₂, failed', answered, hserver, hasked, hresult, hput, hcache', hnow',
            hlog', hupstream', hfailed'⟩
        · refine .inl ⟨e', failed ++ failed', hresult, .inr ?_, hlog'.trans hlog, ?_,
            hall failed' hfailed', ?_⟩
          · rcases herror with ⟨rfl, -⟩ | herror
            · exact ⟨nsName, e, rfl⟩
            · exact herror
          · rw [hupstream, hupstream', List.append_assoc]
          · rcases hlength with hone | hnil
            · rcases hlength' with hlength' | hnil'
              · exact .inl (by rw [List.length_append, List.length_cons]; omega)
              · exact .inr hnil'
            · rw [hnil] at hupstream'
              exact .inr (List.append_eq_nil_iff.mp hupstream'.symm).2
        · refine .inr ⟨server, List.mem_cons_of_mem _ hmem, x, w₂, failed ++ failed', answered,
            hserver, hasked, hresult, hput, hcache'.trans hcache, hnow'.trans hnow, ?_, ?_,
            hall failed' hfailed'⟩
          · rw [hlog', hlog]
          · rw [hupstream, hupstream', List.append_assoc]
      · refine .inr ⟨(nsName, ip), List.mem_cons_self, x, w₁, [], answered, hserver, hasked, rfl,
          ?_, hcache, hnow, hlog, hupstream, by simp⟩
        rw [DnsMessage.records, World.putAll_append, World.putAll_append]

/-- Of any `k` queries in a row one is answered, for `n * k` queries. -/
structure Steady (k n : Nat) (upstream : List (UInt16 × Upstream)) : Prop where
  length : n * k ≤ upstream.length
  answered : ∀ block, block <:+: upstream → block.length = k → ∃ u ∈ block, u.2.reply ≠ none

namespace Steady

variable {k n : Nat} {failed later : List (UInt16 × Upstream)} {answered : UInt16 × Upstream}

/-- Fewer than `k` queries fail. -/
theorem length_lt (h : Steady k n (failed ++ later)) (hfailed : ∀ u ∈ failed, u.2.reply = none) :
    failed.length < k := by
  by_contra hlt
  have hinfix : failed.take k <:+: failed ++ later :=
    ((List.take_prefix k failed).isInfix).trans (List.prefix_append _ _).isInfix
  obtain ⟨u, hu, hreply⟩ := h.answered (failed.take k) hinfix
    (List.length_take_of_le (Nat.le_of_not_lt hlt))
  exact hreply (hfailed u (List.mem_of_mem_take hu))

/-- Behind an answer, the rest is as steady. -/
theorem rest (h : Steady k (n + 1) (failed ++ answered :: later))
    (hfailed : ∀ u ∈ failed, u.2.reply = none) : Steady k n later where
  length := by
    have hlt := h.length_lt hfailed
    have hle := h.length
    rw [List.length_append, List.length_cons, Nat.succ_mul] at hle
    omega
  answered := by
    intro block hblock
    refine h.answered block (hblock.trans ?_)
    exact ((List.suffix_cons answered later).trans (List.suffix_append failed _)).isInfix

/-- Not all servers of a list fail. -/
theorem not_all (h : Steady k (n + 1) (failed ++ later)) (hfailed : ∀ u ∈ failed, u.2.reply = none)
    {servers : List Server} (hk : k ≤ servers.length) :
    ¬ (failed.length = servers.length ∨ later = []) := by
  have hlt := h.length_lt hfailed
  rintro (hlength | rfl)
  · omega
  · have hle := h.length
    rw [List.append_nil, Nat.succ_mul] at hle
    omega

end Steady

/-! ## A cold cache -/

/-- The cache has nothing on the question that has not expired. -/
def World.Cold (name : Text) (qtype : UInt16) (w : World) : Prop :=
  ∀ e ∈ w.cache.entriesAt (cacheKey name qtype classIn), e.expires ≤ w.now

namespace World

variable {name : Text} {qtype : UInt16} {w : World}

theorem now_le_tick (w : World) : w.now ≤ w.tick.now := by
  unfold tick
  split
  · exact Nat.le_refl _
  · exact Nat.le_add_right _ _

theorem Cold.tick (h : w.Cold name qtype) : w.tick.Cold name qtype := by
  intro e he
  rw [cache_tick] at he
  exact Nat.le_trans (h e he) w.now_le_tick

/-- Lookups put nothing in. -/
theorem Cold.get (h : w.Cold name qtype) (other : Text) (otype : UInt16) :
    (w.get other otype).2.Cold name qtype := by
  intro e he
  refine h.tick e ?_
  have hentries := DnsCache.entriesAt_get w.tick.cache other otype classIn w.tick.now
    (cacheKey name qtype classIn)
  split at hentries
  · exact List.mem_of_mem_filter (hentries ▸ he)
  · exact hentries ▸ he

/-- A lookup of the question finds nothing. -/
theorem Cold.get_eq_none (h : w.Cold name qtype) : (w.get name qtype).1 = none := by
  have hnone : (w.tick.cache.entriesAt (cacheKey name qtype classIn)).filter
      (fun e => w.tick.now < e.expires) = [] := by
    rw [List.filter_eq_nil_iff]
    intro e he
    simpa using h.tick e he
  have hget := DnsCache.get_fst w.tick.cache name qtype classIn w.tick.now
  simp only [hnone, List.isEmpty_nil, if_true] at hget
  exact hget

/-- Records on something else leave it cold. -/
theorem Cold.putAll (h : w.Cold name qtype) {rrs : List DnsRR}
    (hrrs : ∀ rr ∈ rrs, rr.cacheKey ≠ cacheKey name qtype classIn) :
    (w.putAll rrs).Cold name qtype := by
  induction rrs generalizing w with
  | nil => exact h
  | cons rr rrs ih =>
    obtain ⟨hrr, hrest⟩ := List.forall_mem_cons.mp hrrs
    refine ih (w := w.put rr) ?_ hrest
    intro e he
    have hentries := DnsCache.entriesAt_put w.tick.cache rr w.tick.now (cacheKey name qtype classIn)
    rw [if_neg hrr.symm] at hentries
    exact h.tick e (hentries ▸ he)

end World

/-- What lookups in the cache keep, the search for name servers keeps. -/
theorem rel_getNameservers {R : World → World → Prop} (hrefl : ∀ w, R w w)
    (htrans : ∀ {w w' w''}, R w w' → R w' w'' → R w w'')
    (hget : ∀ (w : World) name qtype, R w (w.get name qtype).2) (name : Text) (w : World) :
    R w (getNameservers name w).2 := by
  have haddNsIps : ∀ acc ns, R acc.2 (addNsIps acc ns).2 := by
    intro acc ns
    unfold addNsIps
    split
    · exact hget ..
    · exact hrefl _
  have hgetNsIps : ∀ zone w, R w (getNsIps zone w).2 := fun zone w =>
    htrans (hget ..) (Loop.foldl_rule hrefl htrans haddNsIps _ ([], _))
  unfold getNameservers
  induction zonesOf name generalizing w with
  | nil => exact hrefl w
  | cons zone zones ih =>
    simp only [firstNameservers]
    split
    · exact htrans (hgetNsIps zone w) (ih _)
    · exact hgetNsIps zone w

theorem World.Cold.getNameservers {name : Text} {qtype : UInt16} {w : World}
    (h : w.Cold name qtype) (other : Text) : (getNameservers other w).2.Cold name qtype :=
  rel_getNameservers (R := fun w w' => w.Cold name qtype → w'.Cold name qtype) (fun _ => id)
    (fun h h' => h' ∘ h) (fun _ other otype h => h.get other otype) other w h

/-! ## A round -/

/-- With glue for every name server, the servers of a referral are those of the glue. -/
theorem extractReferral_of_glued {authorities additionals : List DnsRR} {next : List Server}
    (hglued : (nsNamesOf authorities).map
      (fun ns => (glueOf additionals).find? (·.1 = ns)) = next.map some)
    (hne : next ≠ []) (resolveNs : ResolveNs) (w : World) :
    extractReferral authorities additionals resolveNs w = (some next, w) := by
  have hfoldl : ∀ (names : List Text) (next acc : List Server),
      names.map (fun ns => (glueOf additionals).find? (·.1 = ns)) = next.map some →
      names.foldl (addReferral (glueOf additionals) resolveNs) (acc, w) = (acc ++ next, w) := by
    intro names
    induction names with
    | nil =>
      intro next acc h
      obtain rfl : next = [] := List.map_eq_nil_iff.mp h.symm
      rw [List.append_nil, List.foldl_nil]
    | cons ns names ih =>
      intro next acc h
      cases next with
      | nil => exact absurd h (by simp)
      | cons server next =>
        obtain ⟨hfind, hrest⟩ := List.cons.inj h
        replace hfind : (glueOf additionals).find? (·.1 = ns) = some server := hfind
        have hname : server.1 = ns := by simpa using List.find?_some hfind
        have hadd : addReferral (glueOf additionals) resolveNs (acc, w) ns =
            (acc ++ [server], w) := by
          unfold addReferral
          rw [hfind, ← hname]
        rw [List.foldl_cons, hadd, ih next _ hrest, List.append_assoc, List.singleton_append]
  unfold extractReferral
  have hnames : nsNamesOf authorities ≠ [] := by
    intro hnil
    rw [hnil] at hglued
    exact hne (List.map_eq_nil_iff.mp hglued.symm)
  rw [if_neg (by simpa using hnames), hfoldl _ next [] hglued]
  rfl

/-- What a resolution that ends in `o` owes to servers that lead to `P`, when its queries meet
`upstream`. -/
structure Outcome.Delivers (P : List DnsRR → Prop) (k n : Nat)
    (upstream : List (UInt16 × Upstream)) (o : Outcome) : Prop where
  answer : ∀ rrs, o.result = .ok rrs → P rrs
  error : ∀ e, o.result = .error e → ∃ ns qe, e = .server ns qe
  steady : Steady k n upstream → ∃ rrs, o.result = .ok rrs

namespace Lookup

variable {resolveNs : ResolveNs} {name : Text} {qtype : UInt16} {s : Lookup} {w₀ w : World}
  {reply : DnsMessage}

/-- A reply that settles the question ends the resolution. -/
theorem round_of_settles (hget : s.world.get s.currentName qtype = (none, w₀))
    (hquery : queryBestServer s.currentName qtype s.servers w₀ = (.ok (sectionsOf reply), w))
    {rrs : List DnsRR} (h : reply.Settles qtype rrs) (hchain : s.cnameChain = []) :
    ∃ o, s.round resolveNs name qtype = .done o ∧ o.result = .ok rrs ∧ o.world.log = w.log := by
  simp only [round, hget, hquery]
  rcases h with ⟨hmatching, hne⟩ | ⟨hanswers, hnames, hsoa, rfl⟩
  · have hanswers : (sectionsOf reply).answers ≠ [] := by
      rintro hnil
      rw [hnil] at hmatching
      exact hne hmatching.symm
    rw [if_neg (by simpa using hanswers), onAnswers, hmatching, hchain]
    simp only [List.isEmpty_eq_false_iff.mpr hne, Bool.not_false, if_true]
    exact ⟨_, rfl, rfl, rfl⟩
  · have hreferral : extractReferral reply.authorities reply.additionals resolveNs w =
        (none, w) := by
      unfold extractReferral
      rw [hnames]
      rfl
    rw [if_pos (by simpa using hanswers), onNoAnswers]
    simp only [sectionsOf, hreferral, hsoa, if_true]
    exact ⟨_, rfl, rfl, w.log_tick⟩

/-- A referral to servers that have not been visited is followed. -/
theorem round_of_refers (hget : s.world.get s.currentName qtype = (none, w₀))
    (hquery : queryBestServer s.currentName qtype s.servers w₀ = (.ok (sectionsOf reply), w))
    {next : List Server} (h : reply.Refers s.currentName qtype next)
    (hvisited : nsKey next ∉ s.visitedNs) :
    s.round resolveNs name qtype = .next { s with
      servers := next
      visitedNs := nsKey next :: s.visitedNs
      trace := s.trace ++ [.referred next]
      world := w } := by
  simp only [round, hget, hquery]
  rw [if_pos (by simpa using h.answers), onNoAnswers]
  have hreferral := extractReferral_of_glued h.glued h.ne_nil resolveNs w
  simp only [sectionsOf, hreferral, onReferral]
  rw [if_neg (by simpa using h.ne_nil), if_neg hvisited]

/-- What comes after a reply in a round is logged behind it. -/
theorem log_endOf_round (hns : resolveNs.Learns) {sections : Sections}
    (h : s.Replied qtype sections w) :
    w.log <+: (endOf (s.round resolveNs name qtype)).log := by
  have hlearned : ∀ {w' w'' rrs}, World.Learned w' rrs w'' → w'.log <+: w''.log := by
    rintro w' w'' rrs ⟨new, hlog, -⟩
    exact ⟨new, hlog.symm⟩
  obtain ⟨w₀, hget, hquery⟩ := h
  have hsame : ∀ {sections' w'}, s.Replied qtype sections' w' → w' = w := by
    rintro sections' w' ⟨w₁, hget', hquery'⟩
    obtain rfl : w₁ = w₀ := congrArg Prod.snd (hget'.symm.trans hget)
    exact congrArg Prod.snd (hquery'.symm.trans hquery)
  have hstep := round_step resolveNs name qtype s
  cases hround : s.round resolveNs name qtype with
  | done o =>
    rw [hround] at hstep
    cases hstep with
    | cached hget' => exact absurd (congrArg Prod.fst (hget'.symm.trans hget)) (by simp)
    | unanswered hget' hquery' =>
      obtain rfl := congrArg Prod.snd (hget'.symm.trans hget)
      exact absurd (congrArg Prod.fst (hquery'.symm.trans hquery)) (by simp)
    | answered h => exact hsame h ▸ List.prefix_refl _
    | useless h => exact hsame h ▸ List.prefix_refl _
    | tooDeep h => exact hsame h ▸ List.prefix_refl _
    | @lost _ _ _ _ target _ h hne hcname hservers =>
      have hgrown := learned_firstNameservers target (zonesOf target) w
      rw [← hsame h, show firstNameservers _ _ _ = _ from hservers] at hgrown
      exact hsame h ▸ hlearned hgrown
    | emptyReferral h hreferral =>
      exact hsame h ▸ hlearned (learned_extractReferral hns hreferral)
    | cycle h hreferral => exact hsame h ▸ hlearned (learned_extractReferral hns hreferral)
    | denied h hanswers hreferral =>
      exact hsame h ▸ hlearned ((learned_extractReferral hns hreferral).next
        (World.learned_putNxdomain ..))
    | noUse h hreferral => exact hsame h ▸ hlearned (learned_extractReferral hns hreferral)
  | next s' =>
    rw [hround] at hstep
    cases hstep with
    | @followed _ _ _ _ target _ h hne hcname hservers =>
      have hgrown := learned_firstNameservers target (zonesOf target) w
      rw [← hsame h, show firstNameservers _ _ _ = _ from hservers] at hgrown
      exact hsame h ▸ hlearned hgrown
    | referred h hreferral => exact hsame h ▸ hlearned (learned_extractReferral hns hreferral)

/-- Replies are logged one after another. -/
theorem log_bounded (hns : resolveNs.Learns) (m : Nat) (s : Lookup) :
    s.world.log <+: (Loop.bounded (round resolveNs name qtype) exhausted m s).world.log := by
  have hround : ∀ t : Lookup, t.world.log <+: (endOf (t.round resolveNs name qtype)).log := by
    intro t
    have hfirst := World.grows_get t.world t.currentName qtype
    cases hget : t.world.get t.currentName qtype with
    | mk found w₀ =>
      rw [hget] at hfirst
      cases found with
      | some rrs => simpa only [round, hget, finish, endOf] using hfirst.log
      | none =>
        have hasked := hfirst.trans (grows_queryServers t.currentName qtype t.servers .noServer w₀)
        cases hquery : queryBestServer t.currentName qtype t.servers w₀ with
        | mk result w =>
          rw [show queryServers _ _ _ _ _ = _ from hquery] at hasked
          cases result with
          | error e => simpa only [round, hget, hquery, finish, endOf] using hasked.log
          | ok sections => exact hasked.log.trans (log_endOf_round hns ⟨w₀, hget, hquery⟩)
  refine Loop.bounded_rule (fun t : Lookup => s.world.log <+: t.world.log)
    (fun o : Outcome => s.world.log <+: o.world.log) ?_ ?_ (fun _ h => h) m (List.prefix_refl _)
  · intro t o h hdone
    have hgrown := hround t
    rw [hdone] at hgrown
    exact h.trans hgrown
  · intro t t' h hnext
    have hgrown := hround t
    rw [hnext] at hgrown
    exact h.trans hgrown

/-- A resolution on its way to an answer in `P`: it is still about the first name, its cache is
cold, and its servers lead there in `n` lists. -/
structure Led (mayReply : Ipv4Addr → DnsMessage → Prop) (P : List DnsRR → Prop) (k n : Nat)
    (name : Text) (qtype : UInt16) (s : Lookup) : Prop where
  currentName : s.currentName = name
  cnameChain : s.cnameChain = []
  cold : s.world.Cold name qtype
  leads : Leads name qtype mayReply P k n s.visitedNs s.servers

/-- **A round.**  All servers have failed, which is not steady; or one has replied, and if the
reply is one that it may give, it settles the question or leads on. -/
theorem Led.asks {mayReply : Ipv4Addr → DnsMessage → Prop} {P : List DnsRR → Prop} {k n : Nat}
    (hk₀ : 0 < k) (h : s.Led mayReply P k (n + 1) name qtype) (hns : resolveNs.Learns) :
    (∃ o ns e, s.round resolveNs name qtype = .done o ∧ o.result = .error (.server ns e) ∧
        ¬ Steady k (n + 1) s.world.upstream) ∨
      ∃ x, s.world.log ++ [x] <+: (endOf (s.round resolveNs name qtype)).log ∧
        (mayReply x.server.ip x.reply →
          (∃ o rrs, s.round resolveNs name qtype = .done o ∧ o.result = .ok rrs ∧ P rrs) ∨
            ∃ s', s.round resolveNs name qtype = .next s' ∧ s'.Led mayReply P k n name qtype ∧
              s'.world.log = s.world.log ++ [x] ∧
              (Steady k (n + 1) s.world.upstream → Steady k n s'.world.upstream)) := by
  obtain ⟨rfl, hchain, hcold, hk, hreplies⟩ := h
  obtain ⟨w₀, hget⟩ : ∃ w₀, s.world.get s.currentName qtype = (none, w₀) :=
    ⟨_, Prod.ext hcold.get_eq_none rfl⟩
  have hcold₀ : w₀.Cold s.currentName qtype := by
    have hkept := hcold.get s.currentName qtype
    rwa [hget] at hkept
  have hupstream₀ : w₀.upstream = s.world.upstream := by
    have hkept := s.world.upstream_get s.currentName qtype
    rwa [hget] at hkept
  have hlog₀ : w₀.log = s.world.log := by
    have hkept : (s.world.get s.currentName qtype).2.log = _ := s.world.log_tick
    rwa [hget] at hkept
  have hmet := queryServers_met s.currentName qtype s.servers .noServer w₀
  cases hquery : queryServers s.currentName qtype s.servers .noServer w₀ with
  | mk r w =>
    rw [hquery, hupstream₀, hlog₀] at hmet
    rcases hmet with
      ⟨e, failed, rfl, herror, -, hupstream, hfailed, hlength⟩ |
      ⟨server, hserver, x, w₁, failed, answered, hip, -, rfl, rfl, hcache, hnow, hlog, hupstream,
        hfailed⟩
    · have hsteady : ¬ Steady k (n + 1) s.world.upstream := by
        intro h
        rw [hupstream] at h
        exact h.not_all hfailed hk hlength
      obtain ⟨ns, qe, rfl⟩ : ∃ ns qe, e = .server ns qe := by
        rcases herror with ⟨-, hnil⟩ | herror
        · rw [hnil] at hk
          exact absurd (Nat.lt_of_lt_of_le hk₀ hk) (Nat.lt_irrefl 0)
        · exact herror
      have hround : s.round resolveNs s.currentName qtype =
          s.finish (.error (.server ns qe)) w := by
        simp only [round, hget, queryBestServer, hquery]
      exact .inl ⟨_, ns, qe, hround, rfl, hsteady⟩
    · have hasked : queryBestServer s.currentName qtype s.servers w₀ =
          (.ok (sectionsOf x.reply), w₁.putAll x.reply.records) := hquery
      have hlogged : (w₁.putAll x.reply.records).log = s.world.log ++ [x] := by
        rw [World.log_putAll, hlog]
      refine .inr ⟨x, hlogged ▸ log_endOf_round hns ⟨w₀, hget, hasked⟩, ?_⟩
      intro hgenuine
      rw [hip] at hgenuine
      rcases hreplies server hserver x.reply hgenuine with
        ⟨rrs, hsettles, hP⟩ | ⟨next, hrefers, hvisited, hleads⟩
      · obtain ⟨o, hround, hresult, -⟩ : ∃ o, s.round resolveNs s.currentName qtype = .done o ∧
            o.result = .ok rrs ∧ o.world.log = (w₁.putAll x.reply.records).log :=
          round_of_settles hget hasked hsettles hchain
        exact .inl ⟨o, rrs, hround, hresult, hP⟩
      · refine .inr ⟨_, round_of_refers hget hasked hrefers hvisited, ⟨rfl, hchain, ?_, hleads⟩,
          hlogged, ?_⟩
        · have hcold₁ : w₁.Cold s.currentName qtype := by
            intro e he
            rw [hcache] at he
            exact hnow ▸ hcold₀ e he
          exact hcold₁.putAll hrefers.silent
        · intro h
          rw [hupstream] at h
          rw [World.upstream_putAll]
          exact h.rest hfailed

/-- **The loop.**  With servers that lead to `P` in `n` lists, `n` rounds are enough. -/
theorem Led.bounded {mayReply : Ipv4Addr → DnsMessage → Prop} {P : List DnsRR → Prop} {k n m : Nat}
    (hk : 0 < k) (hnm : n ≤ m) (hns : resolveNs.Learns) (h : s.Led mayReply P k n name qtype)
    (hgenuine : ∀ x ∈ s.world.received
      (Loop.bounded (round resolveNs name qtype) exhausted m s).world,
      mayReply x.server.ip x.reply) :
    (Loop.bounded (round resolveNs name qtype) exhausted m s).Delivers P k n s.world.upstream := by
  induction n generalizing m s with
  | zero => exact h.leads.elim
  | succ n ih =>
    obtain ⟨m, rfl⟩ := Nat.exists_eq_succ_of_ne_zero (Nat.ne_zero_of_lt hnm)
    rcases h.asks hk hns with
      ⟨o, ns, e, hround, hresult, hsteady⟩ | ⟨x, hlog, hstep⟩
    · simp only [Loop.bounded, hround]
      refine ⟨?_, ?_, fun h => absurd h hsteady⟩
      · intro rrs hok
        exact absurd (hresult.symm.trans hok) (by simp)
      · intro e' herror
        exact ⟨ns, e, (Except.error.inj (hresult.symm.trans herror)).symm⟩
    · have hfinal : s.world.log ++ [x] <+:
          (Loop.bounded (round resolveNs name qtype) exhausted (m + 1) s).world.log := by
        refine hlog.trans ?_
        simp only [Loop.bounded]
        cases round resolveNs name qtype s with
        | done o => exact List.prefix_refl _
        | next s' => exact log_bounded hns m s'
      obtain ⟨new, hnew⟩ := hfinal
      have hreceived := World.received_of_log (hnew.symm.trans (List.append_assoc _ _ _))
      rw [hreceived] at hgenuine
      rcases hstep (hgenuine x (List.mem_append_left _ List.mem_cons_self)) with
        ⟨o, rrs, hround, hresult, hP⟩ | ⟨s', hround, hled, hlog', hsteady⟩
      · simp only [Loop.bounded, hround]
        refine ⟨?_, ?_, fun _ => ⟨rrs, hresult⟩⟩
        · intro rrs' hok
          exact Except.ok.inj (hresult.symm.trans hok) ▸ hP
        · intro e herror
          exact absurd (hresult.symm.trans herror) (by simp)
      · simp only [Loop.bounded, hround] at hnew ⊢
        have hdelivers := ih (Nat.le_of_succ_le_succ hnm) hled (by
          rw [World.received_of_log (hlog' ▸ hnew.symm)]
          exact fun y hy => hgenuine y (List.mem_append_right _ hy))
        exact ⟨hdelivers.answer, hdelivers.error, fun h => hdelivers.steady (hsteady h)⟩

end Lookup

/-- **Down the delegations.**  Let the servers of the root lead to answers in `P`, within as many
lists as the loop has rounds, and let the cache have nothing on the question.  Whatever replies
its queries get, of those that the servers may give, and whatever fails on the way: a resolution
that finds an answer finds one in `P`, one that does not has asked a whole list of servers in
vain, and if of any `k` queries in a row one is answered, it finds one. -/
theorem delegations_resolve (mayReply : Ipv4Addr → DnsMessage → Prop) (P : List DnsRR → Prop)
    {k n : Nat} (hk : 0 < k) (hn : n ≤ maxIterations) (glueLeft : Nat) {name : Text}
    {qtype : UInt16} {w w' : World} {roots : List Server} (hcold : w.Cold name qtype)
    (hroots : getNameservers rootName w = (.ok roots, w'))
    (hleads : Leads name qtype mayReply P k n [] roots)
    (hgenuine : ∀ x ∈ w.received (lookup glueLeft name qtype w).world,
      mayReply x.server.ip x.reply) :
    (lookup glueLeft name qtype w).Delivers P k n w.upstream := by
  have hcold' := hcold.getNameservers rootName
  have hlog := rel_getNameservers (R := fun w w' => w'.log = w.log) (fun _ => rfl)
    (fun h h' => h'.trans h) (fun w _ _ => w.log_tick) rootName w
  have hupstream := upstream_getNameservers rootName w
  rw [hroots] at hcold' hlog hupstream
  have hloop : ∀ resolveNs : ResolveNs, resolveNs.Learns →
      (∀ x ∈ w.received (lookupWith resolveNs name qtype w).world, mayReply x.server.ip x.reply) →
      (lookupWith resolveNs name qtype w).Delivers P k n w.upstream := by
    intro resolveNs hns hgenuine
    simp only [lookupWith, hroots] at hgenuine ⊢
    rw [← show w'.upstream = w.upstream from hupstream]
    refine Lookup.Led.bounded (s := .start name roots w') hk hn hns ⟨rfl, rfl, hcold', hleads⟩ ?_
    rw [World.received, show (Lookup.start name roots w').world.log = w.log from hlog]
    exact hgenuine
  cases glueLeft with
  | zero => exact hloop none (by simp [ResolveNs.Learns]) hgenuine
  | succ glueLeft =>
    refine hloop _ ?_ hgenuine
    intro resolve hresolve ns w
    obtain rfl := Option.some.inj hresolve
    exact (learned_lookup glueLeft ns typeA w).mono (List.nil_subset _)

/-- The demo's root refers to the server of `example.com.`, which knows the address. -/
def demoMayReply (ip : Ipv4Addr) (reply : DnsMessage) : Prop :=
  (ip = demoRootAddr ∧ reply = demoReferral) ∨ (ip = ⟨192, 0, 2, 1⟩ ∧ reply = demoKnown)

instance (ip : Ipv4Addr) (reply : DnsMessage) : Decidable (demoMayReply ip reply) :=
  inferInstanceAs (Decidable (_ ∨ _))

theorem demo_leads : Leads (utf8 "www.example.com.") typeA demoMayReply (· = demoKnown.answers) 1 2
    [] [(utf8 "a.root-servers.net.", demoRootAddr)] := by
  refine ⟨by decide, ?_⟩
  rintro server hserver reply (⟨-, rfl⟩ | ⟨hip, -⟩)
  · refine .inr ⟨[(utf8 "ns.host.", ⟨192, 0, 2, 1⟩)], ⟨by decide, by decide, by decide, by decide⟩,
      by decide, by decide, ?_⟩
    rintro server hserver reply (⟨hip, -⟩ | ⟨-, rfl⟩)
    · obtain rfl := List.mem_singleton.mp hserver
      exact absurd hip (by decide)
    · exact .inl ⟨demoKnown.answers, .inl ⟨by decide, by decide⟩, rfl⟩
  · obtain rfl := List.mem_singleton.mp hserver
    exact absurd hip (by decide)

theorem demo_delegations_resolve :
    (lookup maxGlueDepth (utf8 "www.example.com.") typeA
      (demoWorld [demoReferral, demoKnown])).Delivers
      (· = demoKnown.answers) 1 2 (demoWorld [demoReferral, demoKnown]).upstream := by
  have hroots : (getNameservers rootName (demoWorld [demoReferral, demoKnown])).1 =
      .ok [(utf8 "a.root-servers.net.", demoRootAddr)] := by
    decide +kernel
  refine delegations_resolve demoMayReply (· = demoKnown.answers) (by decide) (by decide)
    maxGlueDepth ?_ (Prod.ext hroots rfl) demo_leads ?_
  · unfold World.Cold
    decide +kernel
  · decide +kernel

end PpcaNetwork.Dns
