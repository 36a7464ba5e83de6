import PpcaNetwork.Lib.Run
import PpcaNetwork.DnsResolver.Rounds

/-!
# The DNS server and its negative answers

`handle_query` of `dnsresolver/src/main.rs` answers every question of a query
from `resolve`, and reports `NXDOMAIN` when the negative cache denies one of the
questions it has no records for.  A failed resolution shows as an empty answer.
Queries are handled one after the other; the source handles each in a thread of
its own, on the same cache.

* `handleQuery` — the datagram sent in reply to one query.
* `DeniedIn` — some server has denied a name, or the end of its `CNAME` chain.
* `NegInv` — everything in the negative cache has been denied by a server;
  `keeps_lookup` is the invariant of a resolution.
* `nxdomain_justified` — what the RCODE and the answers of a response rest on.
-/

namespace PpcaNetwork.Dns

/-! ## `handle_query` -/

/-- `build_response`: the id and the questions of the query, as a response. -/
def buildResponse (query : DnsMessage) (answers : List DnsRR) (rcode : UInt8) : DnsMessage where
  header := {
    id := query.header.id
    flags := 0x8000 ||| 0x0080 ||| (query.header.flags &&& 0x0100) ||| rcode.toUInt16
    qdcount := query.header.qdcount
    ancount := UInt16.ofNat answers.length
    nscount := 0
    arcount := 0 }
  questions := query.questions
  answers := answers
  authorities := []
  additionals := []

/-- The loop of `handle_query` over the questions. -/
def answerQuestions : List DnsQuestion → List DnsRR → UInt8 → World →
    List DnsRR × UInt8 × World
  | [], answers, rcode, w => (answers, rcode, w)
  | q :: questions, answers, rcode, w =>
    let (results, w) := resolve q.qname q.qtype w
    if results.isEmpty then
      match w.isNxdomain q.qname q.qtype with
      | (true, w) => answerQuestions questions (answers ++ results) rcodeNxdomain w
      | (false, w) => answerQuestions questions (answers ++ results) rcode w
    else answerQuestions questions (answers ++ results) rcode w

/-- The response to a query. -/
def respond (query : DnsMessage) (w : World) : DnsMessage × World :=
  let (answers, rcode, w) := answerQuestions query.questions [] rcodeNoerror w
  (buildResponse query answers rcode, w)

/-- `handle_query`: the datagram sent to the client, if the query can be read. -/
def handleQuery (data : List UInt8) (w : World) : Option (List UInt8) × World :=
  match decodeMessage data with
  | none => (none, w)
  | some query =>
    let (response, w) := respond query w
    (some (encodeMessage response), w)

/-- The world after a query has been handled. -/
def serve (w : World) (data : List UInt8) : World := (handleQuery data w).2

/-- The response carries the RCODE it is built with, if that has four bits. -/
theorem rcode_buildResponse (query : DnsMessage) (answers : List DnsRR) (rcode : UInt8) :
    (buildResponse query answers rcode).header.rcode = rcode ↔ rcode < 16 := by
  have hmask : (0x8000 ||| 0x0080 ||| (query.header.flags &&& 0x0100) ||| rcode.toUInt16) &&& 0x000F
      = rcode.toUInt16 &&& 0x000F := by
    apply UInt16.eq_of_toBitVec_eq
    simp only [UInt16.toBitVec_and, UInt16.toBitVec_or, BitVec.and_or_distrib_right,
      BitVec.and_assoc]
    simp
  have hlow : ((rcode.toUInt16 &&& 0x000F).toUInt8).toNat = rcode.toNat % 16 := by
    have hand : rcode.toNat &&& (2 ^ 4 - 1) = rcode.toNat % 2 ^ 4 :=
      Nat.and_two_pow_sub_one_eq_mod _ _
    simp only [UInt16.toNat_toUInt8, UInt16.toNat_and, UInt8.toNat_toUInt16]
    exact (congrArg (· % 2 ^ 8) hand).trans (by omega)
  show ((0x8000 ||| 0x0080 ||| (query.header.flags &&& 0x0100) ||| rcode.toUInt16) &&&
    0x000F).toUInt8 = rcode ↔ rcode < 16
  rw [hmask, ← UInt8.toNat_inj, hlow, UInt8.lt_iff_toNat_lt]
  simp only [UInt8.reduceToNat]
  omega

/-! ## Names denied by a server -/

/-- A negative reply: RCODE 3 or no answers, with an `SOA` record in its authority section. -/
def DnsMessage.Denies (reply : DnsMessage) : Prop :=
  (reply.header.rcode = rcodeNxdomain ∨ reply.answers = []) ∧
    ∃ rr ∈ reply.authorities, rr.rtype = typeSoa

/-- A server asked for `n` has replied with a `CNAME` record that leads to `m`. -/
def LeadsTo (log : List Exchange) (n m : Text) : Prop :=
  ∃ x ∈ log, x.asked = n ∧ ∃ rr ∈ x.reply.answers, rr.rdata = .cname m

/-- A server asked for the name and type of `key`, or for a name that `CNAME`
records lead to from there, has denied it. -/
def DeniedIn (log : List Exchange) (key : CacheKey) : Prop :=
  ∃ n, ∃ x ∈ log, key = cacheKey n x.qtype classIn ∧
    Relation.ReflTransGen (LeadsTo log) n x.asked ∧ x.reply.Denies

theorem LeadsTo.mono {log log' : List Exchange} (hlog : log <+: log') {n m : Text}
    (h : LeadsTo log n m) : LeadsTo log' n m := by
  obtain ⟨x, hx, hasked, hrr⟩ := h
  exact ⟨x, hlog.subset hx, hasked, hrr⟩

theorem reaches_mono {log log' : List Exchange} (hlog : log <+: log') {n m : Text}
    (h : Relation.ReflTransGen (LeadsTo log) n m) : Relation.ReflTransGen (LeadsTo log') n m :=
  Relation.ReflTransGen.mono (fun _ _ hstep => hstep.mono hlog) _ _ h

theorem DeniedIn.mono {log log' : List Exchange} (hlog : log <+: log') {key : CacheKey}
    (h : DeniedIn log key) : DeniedIn log' key := by
  obtain ⟨n, x, hx, hkey, hreaches, hdenies⟩ := h
  exact ⟨n, x, hlog.subset hx, hkey, reaches_mono hlog hreaches, hdenies⟩

/-! ## The negative cache -/

/-- Everything in the negative cache has been denied by a server. -/
def NegInv (w : World) : Prop := ∀ key ∈ w.cache.negatives, DeniedIn w.log key

/-- From `w` to `w'` the log has only grown and the negative cache is still justified. -/
structure Keeps (w w' : World) : Prop where
  log : w.log <+: w'.log
  negInv : NegInv w'

theorem NegInv.keeps {w w' : World} (h : NegInv w) (hgrows : w.Grows w') : Keeps w w' where
  log := hgrows.log
  negInv := by
    intro key hkey
    rw [hgrows.negatives] at hkey
    exact (h key hkey).mono hgrows.log

theorem NegInv.refl {w : World} (h : NegInv w) : Keeps w w := ⟨List.prefix_refl _, h⟩

theorem Keeps.trans {w w' w'' : World} (h : Keeps w w') (h' : Keeps w' w'') : Keeps w w'' :=
  ⟨h.log.trans h'.log, h'.negInv⟩

/-- Recording the denial of a name that a server has denied. -/
theorem NegInv.putNxdomain {w : World} (h : NegInv w) {name : Text} {qtype : UInt16}
    (hdenied : DeniedIn w.log (cacheKey name qtype classIn)) (ttl : UInt32) :
    Keeps w (w.putNxdomain name qtype ttl) where
  log := (World.grows_tick w).log
  negInv := by
    have htick := World.grows_tick w
    intro key hkey
    rcases AList.mem_insert _ |>.mp hkey with rfl | hkey
    · exact hdenied.mono htick.log
    · rw [htick.negatives] at hkey
      exact (h key hkey).mono htick.log

/-- A way of looking up name servers that keeps the negative cache justified. -/
def ResolveNs.Keeps (resolveNs : ResolveNs) : Prop :=
  ∀ resolve ∈ resolveNs, ∀ ns w, NegInv w → Dns.Keeps w (resolve ns w).2

/-! ## One resolution -/

section Resolution

variable {resolveNs : ResolveNs} {name : Text} {qtype : UInt16}

theorem keeps_addReferral (hns : resolveNs.Keeps) (glue : List Server)
    {acc : List Server × World} (h : NegInv acc.2) (ns : Text) :
    Keeps acc.2 (addReferral glue resolveNs acc ns).2 := by
  have hget := h.keeps (World.grows_get acc.2 ns typeA)
  rcases addReferral_world glue resolveNs acc ns with heq | heq | ⟨resolve, hresolve, heq⟩
  · rw [heq]
    exact h.refl
  · rw [heq]
    exact hget
  · rw [heq]
    exact hget.trans (hns resolve hresolve ns _ hget.negInv)

theorem keeps_extractReferral (hns : resolveNs.Keeps) {authorities additionals : List DnsRR}
    {w w' : World} {r : Option (List Server)} (h : NegInv w)
    (heq : extractReferral authorities additionals resolveNs w = (r, w')) : Keeps w w' := by
  have hworld : w' = ((nsNamesOf authorities).foldl
      (addReferral (glueOf additionals) resolveNs) ([], w)).2 := by
    rw [← extractReferral_world, heq]
  rw [hworld]
  refine Loop.foldl_rule (R := fun w w' => NegInv w → Keeps w w') (fun _ hw => hw.refl) ?_
    (fun _ ns hw => keeps_addReferral hns _ hw ns) _ ([], w) h
  intro w₁ w₂ w₃ hfirst hrest hw
  exact (hfirst hw).trans (hrest (hfirst hw).negInv)

/-- What a resolution for `name` that started in `w₀` knows at each round: the
current name is where the `CNAME` records of the replies have led. -/
structure Lookup.DenialInv (name : Text) (w₀ : World) (s : Lookup) : Prop where
  keeps : Keeps w₀ s.world
  reaches : Relation.ReflTransGen (LeadsTo s.world.log) name s.currentName

namespace Lookup

variable {s s' : Lookup} {o : Outcome} {w₀ : World}

/-- Up to the reply of a server, a round only adds to the log. -/
theorem DenialInv.replied (h : s.DenialInv name w₀) {sections : Sections} {w : World}
    (hreplied : s.Replied qtype sections w) :
    Keeps w₀ w ∧ Relation.ReflTransGen (LeadsTo w.log) name s.currentName := by
  obtain ⟨hgrows, -⟩ := hreplied.exists_exchange
  exact ⟨h.keeps.trans (h.keeps.negInv.keeps hgrows), reaches_mono hgrows.log h.reaches⟩

/-- The record that is followed leads on from the current name. -/
theorem Replied.leadsTo {sections : Sections} {w : World} (h : s.Replied qtype sections w)
    {rr : DnsRR} {target : Text} (hcname : findCname sections.answers = some (rr, target)) :
    LeadsTo w.log s.currentName target := by
  obtain ⟨-, x, hx, hasked, -, rfl, -⟩ := h.exists_exchange
  obtain ⟨hmem, hr⟩ := mem_of_findCname hcname
  exact ⟨x, hx, hasked, rr, answers_sectionsOf_subset x.reply hmem, hr⟩

/-- A reply without answers but with an `SOA` record denies the name the
resolution is for. -/
theorem DenialInv.denied (h : s.DenialInv name w₀) {sections : Sections} {w : World}
    (hreplied : s.Replied qtype sections w) (hanswers : sections.answers = [])
    (hsoa : isNxdomainReply sections.authorities = true) :
    DeniedIn w.log (cacheKey name qtype classIn) := by
  obtain ⟨-, hreaches⟩ := h.replied hreplied
  obtain ⟨-, x, hx, hasked, rfl, rfl, -⟩ := hreplied.exists_exchange
  refine ⟨name, x, hx, rfl, hasked ▸ hreaches, ?_, ?_⟩
  · by_cases hrcode : x.reply.header.rcode = rcodeNxdomain
    · exact .inl hrcode
    · exact .inr (by simpa [sectionsOf, hrcode] using hanswers)
  · simpa [isNxdomainReply, sectionsOf] using hsoa

theorem denialInv_next (hns : resolveNs.Keeps) (h : s.DenialInv name w₀)
    (hstep : s.round resolveNs name qtype = .next s') : s'.DenialInv name w₀ := by
  have hs := round_step resolveNs name qtype s
  rw [hstep] at hs
  cases hs with
  | @followed sections w w' rr target servers hreplied hne hcname hservers =>
    obtain ⟨hkeeps, hreaches⟩ := h.replied hreplied
    have hgrows : w.Grows w' := by
      have hg := grows_getNameservers target w
      rwa [hservers] at hg
    have hsteps := hreaches.tail (hreplied.leadsTo hcname)
    exact ⟨hkeeps.trans (hkeeps.negInv.keeps hgrows), reaches_mono hgrows.log hsteps⟩
  | referred hreplied hreferral hvisited =>
    obtain ⟨hkeeps, hreaches⟩ := h.replied hreplied
    have hreferralKeeps := keeps_extractReferral hns hkeeps.negInv hreferral
    exact ⟨hkeeps.trans hreferralKeeps, reaches_mono hreferralKeeps.log hreaches⟩

theorem denialPost_done (hns : resolveNs.Keeps) (h : s.DenialInv name w₀)
    (hstep : s.round resolveNs name qtype = .done o) : Keeps w₀ o.world := by
  have hs := round_step resolveNs name qtype s
  rw [hstep] at hs
  cases hs with
  | @cached rrs w hget =>
    have hgrows := s.world.grows_get s.currentName qtype
    rw [hget] at hgrows
    exact h.keeps.trans (h.keeps.negInv.keeps hgrows)
  | @unanswered w₁ w e hget hquery =>
    have hgrows := s.world.grows_get s.currentName qtype
    have hservers := grows_queryServers s.currentName qtype s.servers .noServer w₁
    rw [hget] at hgrows
    rw [show queryServers _ _ _ _ _ = _ from hquery] at hservers
    exact h.keeps.trans (h.keeps.negInv.keeps (hgrows.trans hservers))
  | answered hreplied => exact (h.replied hreplied).1
  | useless hreplied => exact (h.replied hreplied).1
  | tooDeep hreplied => exact (h.replied hreplied).1
  | @lost sections w w' rr target e hreplied hne hcname hservers =>
    obtain ⟨hkeeps, -⟩ := h.replied hreplied
    have hgrows := grows_getNameservers target w
    rw [hservers] at hgrows
    exact hkeeps.trans (hkeeps.negInv.keeps hgrows)
  | emptyReferral hreplied hreferral =>
    obtain ⟨hkeeps, -⟩ := h.replied hreplied
    exact hkeeps.trans (keeps_extractReferral hns hkeeps.negInv hreferral)
  | cycle hreplied hreferral hvisited =>
    obtain ⟨hkeeps, -⟩ := h.replied hreplied
    exact hkeeps.trans (keeps_extractReferral hns hkeeps.negInv hreferral)
  | noUse hreplied hreferral =>
    obtain ⟨hkeeps, -⟩ := h.replied hreplied
    exact hkeeps.trans (keeps_extractReferral hns hkeeps.negInv hreferral)
  | denied hreplied hanswers hreferral hsoa =>
    obtain ⟨hkeeps, -⟩ := h.replied hreplied
    have hreferralKeeps := keeps_extractReferral hns hkeeps.negInv hreferral
    have hdenied := (h.denied hreplied hanswers hsoa).mono hreferralKeeps.log
    exact (hkeeps.trans hreferralKeeps).trans (hreferralKeeps.negInv.putNxdomain hdenied _)

end Lookup

theorem keeps_lookupWith (hns : resolveNs.Keeps) (name : Text) (qtype : UInt16) {w : World}
    (h : NegInv w) : Keeps w (lookupWith resolveNs name qtype w).world := by
  have hstart := h.keeps (grows_getNameservers rootName w)
  unfold lookupWith
  split
  · rename_i e w' heq
    rwa [heq] at hstart
  · rename_i servers w' heq
    rw [heq] at hstart
    refine Loop.bounded_rule (Lookup.DenialInv name w) (fun o => Keeps w o.world)
      (fun _ _ => Lookup.denialPost_done hns) (fun _ _ => Lookup.denialInv_next hns) ?_
      maxIterations (s := .start name servers w') ⟨hstart, .refl⟩
    intro s hs
    exact hs.keeps

end Resolution

/-- A resolution keeps the negative cache justified. -/
theorem keeps_lookup (glueLeft : Nat) (name : Text) (qtype : UInt16) {w : World} (h : NegInv w) :
    Keeps w (lookup glueLeft name qtype w).world := by
  induction glueLeft generalizing name qtype w with
  | zero =>
    refine keeps_lookupWith ?_ name qtype h
    intro resolve hresolve
    exact absurd hresolve (by simp)
  | succ glueLeft ih =>
    refine keeps_lookupWith ?_ name qtype h
    intro resolve hresolve ns w hw
    obtain rfl := Option.some.inj hresolve
    exact ih ns typeA hw

/-! ## The whole server -/

theorem keeps_tryResolve (name : Text) (qtype : UInt16) {w : World} (h : NegInv w) :
    Keeps w (tryResolve name qtype w).2 := by
  have hget := h.keeps (World.grows_get w (toAsciiLowercase name) qtype)
  have htick := hget.trans (hget.negInv.keeps (World.grows_tick _))
  rcases tryResolve_world name qtype w with heq | heq | heq
  · rw [heq]
    exact hget
  · rw [heq]
    exact htick
  · rw [heq]
    exact htick.trans (keeps_lookup _ _ _ htick.negInv)

theorem keeps_resolve (name : Text) (qtype : UInt16) {w : World} (h : NegInv w) :
    Keeps w (resolve name qtype w).2 := by
  rw [resolve_world]
  exact keeps_tryResolve name qtype h

/-- What the loop over the questions makes of the RCODE: it stays, unless one of
the questions has been denied. -/
theorem answerQuestions_spec (questions : List DnsQuestion) (answers : List DnsRR)
    (rcode : UInt8) {w : World} (h : NegInv w) :
    Keeps w (answerQuestions questions answers rcode w).2.2 ∧
      ((answerQuestions questions answers rcode w).2.1 = rcode ∨
        ((answerQuestions questions answers rcode w).2.1 = rcodeNxdomain ∧
          ∃ q ∈ questions, DeniedIn (answerQuestions questions answers rcode w).2.2.log
            (cacheKey q.qname q.qtype classIn))) := by
  induction questions generalizing answers rcode w with
  | nil => exact ⟨h.refl, .inl rfl⟩
  | cons q questions ih =>
    have hresolve := keeps_resolve q.qname q.qtype h
    have hlater : ∀ (answers' : List DnsRR) (rcode' : UInt8) {w' : World}, Keeps w w' →
        Keeps w (answerQuestions questions answers' rcode' w').2.2 ∧
          ((answerQuestions questions answers' rcode' w').2.1 = rcode' ∨
            ((answerQuestions questions answers' rcode' w').2.1 = rcodeNxdomain ∧
              ∃ q' ∈ q :: questions, DeniedIn (answerQuestions questions answers' rcode' w').2.2.log
                (cacheKey q'.qname q'.qtype classIn))) := by
      intro answers' rcode' w' hkeeps
      obtain ⟨hlast, hcase⟩ := ih answers' rcode' hkeeps.negInv
      refine ⟨hkeeps.trans hlast, hcase.imp_right ?_⟩
      rintro ⟨heq, q', hq', hdenied⟩
      exact ⟨heq, q', List.mem_cons_of_mem _ hq', hdenied⟩
    unfold answerQuestions
    simp only
    split
    · have htick := hresolve.trans (hresolve.negInv.keeps (World.grows_tick _))
      split
      · rename_i w' hdenied
        obtain ⟨hnx, rfl⟩ := Prod.mk.inj hdenied
        -- the entry found in the negative cache is justified, and stays so
        have hkey := htick.negInv _ (DnsCache.mem_negatives_of_isNxdomain hnx)
        obtain ⟨hkeeps, hcase⟩ :=
          hlater (answers ++ (resolve q.qname q.qtype w).1) rcodeNxdomain htick
        refine ⟨hkeeps, .inr ?_⟩
        rcases hcase with heq | hcase
        · have hlog := (ih (answers ++ (resolve q.qname q.qtype w).1) rcodeNxdomain
            htick.negInv).1.log
          exact ⟨heq, q, by simp, hkey.mono hlog⟩
        · exact hcase
      · rename_i w' hdenied
        obtain ⟨-, rfl⟩ := Prod.mk.inj hdenied
        exact hlater _ _ htick
    · exact hlater _ _ hresolve

theorem keeps_serve (w : World) (data : List UInt8) (h : NegInv w) : NegInv (serve w data) := by
  unfold serve handleQuery
  split
  · exact h
  · exact (answerQuestions_spec _ _ _ h).1.negInv

/-- A single question whose resolution fails is answered without records. -/
theorem answers_of_failed {q : DnsQuestion} {w : World} {e : ResolveError}
    (h : (tryResolve q.qname q.qtype w).1 = .error e) (rcode : UInt8) :
    (answerQuestions [q] [] rcode w).1 = [] := by
  have hempty : (resolve q.qname q.qtype w).1 = [] := by
    unfold resolve
    split
    · rename_i heq
      rw [heq] at h
      exact absurd h (by simp)
    · rfl
  unfold answerQuestions
  simp only [hempty, List.isEmpty_nil, if_true, List.append_nil]
  split <;> rfl

/-- **What a response rests on.**  Take any run of the server from an empty
negative cache, whatever the upstream servers do, and the datagram sent in reply
to the next query.  The RCODE in its header is `NOERROR` or `NXDOMAIN`; it is `NXDOMAIN` only
if a server asked for the name of one of the questions, or for the end of its
`CNAME` chain, gave a negative reply; and when the resolution of a single
question fails, it has no answers. -/
theorem nxdomain_justified (w₀ : World) (hneg : w₀.cache.negatives = ∅)
    (queries : List (List UInt8)) (data wire : List UInt8)
    (hsent : (handleQuery data (run serve w₀ queries)).1 = some wire) :
    let w := run serve w₀ queries
    ∃ query response, decodeMessage data = some query ∧ wire = encodeMessage response ∧
      decodeHeader wire = some response.header ∧
      (response.header.rcode = rcodeNoerror ∨ response.header.rcode = rcodeNxdomain) ∧
      (response.header.rcode = rcodeNxdomain →
        ∃ q ∈ query.questions, ∃ n, SameText n q.qname ∧
          ∃ x ∈ (handleQuery data w).2.log, x.qtype = q.qtype ∧
            Relation.ReflTransGen (LeadsTo (handleQuery data w).2.log) n x.asked ∧
            x.reply.Denies) ∧
      ∀ q e, query.questions = [q] → (tryResolve q.qname q.qtype w).1 = .error e →
        response.answers = [] := by
  intro w
  have hinv : NegInv w :=
    Run.invariant NegInv keeps_serve (by intro key hkey; simp [hneg] at hkey) queries
  cases hdecode : decodeMessage data with
  | none => simp [handleQuery, hdecode] at hsent
  | some query =>
    have hhandle : handleQuery data w =
        (some (encodeMessage (respond query w).1), (respond query w).2) := by
      simp [handleQuery, hdecode]
    rw [show run serve w₀ queries = w from rfl, hhandle] at hsent
    obtain rfl := Option.some.inj hsent
    rw [hhandle]
    obtain ⟨-, hcase⟩ := answerQuestions_spec query.questions [] rcodeNoerror hinv
    have hrcode : (respond query w).1.header.rcode =
        (answerQuestions query.questions [] rcodeNoerror w).2.1 := by
      refine (rcode_buildResponse _ _ _).mpr ?_
      rcases hcase with hno | ⟨hnx, -⟩
      · rw [hno]
        decide
      · rw [hnx]
        decide
    refine ⟨query, (respond query w).1, rfl, rfl, decodeHeader_encodeMessage _, ?_, ?_, ?_⟩
    · rw [hrcode]
      exact hcase.imp_right And.left
    · rw [hrcode]
      intro hnx
      rcases hcase with hno | ⟨-, q, hq, n, x, hx, hkey, hreaches, hdenies⟩
      · exact absurd (hno.symm.trans hnx) (by decide)
      · simp only [cacheKey, CacheKey.mk.injEq, and_true] at hkey
        exact ⟨q, hq, n, hkey.1.symm, x, hx, hkey.2.symm, hreaches, hdenies⟩
    · intro q e hquestions hfailed
      show (answerQuestions query.questions [] rcodeNoerror w).1 = []
      rw [hquestions]
      exact answers_of_failed hfailed rcodeNoerror

/-! ## The demo -/

/-- A client asks for the address of `www.example.com.`. -/
def demoQuery : List UInt8 := encodeMessage (queryMessage 9 (utf8 "www.example.com.") typeA)

/-- A reply without answers and with an `SOA` record. -/
def demoNegative (rcode : UInt8) : DnsMessage :=
  demoReply rcode []
    [demoRr "example.com." typeSoa (.soa (utf8 "ns.host.") (utf8 "admin.host.") 1 2 3 4 60)] []

/-- The response to `demoQuery` with that RCODE and no answers. -/
def demoResponse (rcode : UInt8) : List UInt8 :=
  encodeMessage (buildResponse (queryMessage 9 (utf8 "www.example.com.") typeA) [] rcode)

/-- A server denies the name, and the client is told so. -/
theorem demo_denial_justified :
    let w := run serve (demoWorld [demoNegative rcodeNxdomain]) []
    ∃ query response, decodeMessage demoQuery = some query ∧
      demoResponse rcodeNxdomain = encodeMessage response ∧
      decodeHeader (demoResponse rcodeNxdomain) = some response.header ∧
      (response.header.rcode = rcodeNoerror ∨ response.header.rcode = rcodeNxdomain) ∧
      (response.header.rcode = rcodeNxdomain →
        ∃ q ∈ query.questions, ∃ n, SameText n q.qname ∧
          ∃ x ∈ (handleQuery demoQuery w).2.log, x.qtype = q.qtype ∧
            Relation.ReflTransGen (LeadsTo (handleQuery demoQuery w).2.log) n x.asked ∧
            x.reply.Denies) ∧
      ∀ q e, query.questions = [q] → (tryResolve q.qname q.qtype w).1 = .error e →
        response.answers = [] :=
  nxdomain_justified (demoWorld [demoNegative rcodeNxdomain]) rfl [] demoQuery
    (demoResponse rcodeNxdomain) (by decide +kernel)

/-- The name exists but has no address, so the server's reply has RCODE 0: the
client is told that the name does not exist.  And when no server answers at all,
the resolution fails and the client is told that there is no error. -/
theorem demo_nodata_denied :
    (handleQuery demoQuery (demoWorld [demoNegative rcodeNoerror])).1 =
        some (demoResponse rcodeNxdomain) ∧
      (∀ x ∈ (handleQuery demoQuery (demoWorld [demoNegative rcodeNoerror])).2.log,
        x.reply.header.rcode = rcodeNoerror) ∧
      (tryResolve (utf8 "www.example.com.") typeA (demoWorld [])).1 =
        .error (.server (utf8 "a.root-servers.net.") (.socket .recv (utf8 "timed out"))) ∧
      (handleQuery demoQuery (demoWorld [])).1 = some (demoResponse rcodeNoerror) := by
  decide +kernel

end PpcaNetwork.Dns
