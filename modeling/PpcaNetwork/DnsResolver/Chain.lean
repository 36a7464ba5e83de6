import PpcaNetwork.DnsResolver.Rounds

/-!
# The chain of records in an answer

A good answer to a question is a chain of `CNAME` records that starts at the name
asked for, followed by records of the type asked for that belong to the end of
the chain.  `resolve_iterative` selects records by their type alone, and drops
the `CNAME` when a reply carries it together with the address it leads to.

* `IsChain` — the chain.
* `Received.Sound` — what was taken from a single reply is a chain on its own.
* `answer_chain_iff` — the answer is a chain exactly if that holds of everything
  the resolution received.
-/

namespace PpcaNetwork.Dns

/-! ## Chains -/

/-- The record answers a question for `name` directly. -/
def DnsRR.Answers (qtype : UInt16) (name : Text) (rr : DnsRR) : Prop :=
  rr.rtype = qtype ∧ rr.cls = classIn ∧ SameText rr.name name

instance (qtype : UInt16) (name : Text) (rr : DnsRR) : Decidable (rr.Answers qtype name) :=
  inferInstanceAs (Decidable (_ ∧ _ ∧ _))

/-- A chain of `CNAME` records from `name`, followed by records of type `qtype`
and class `IN` that belong to its last target. -/
def IsChain (qtype : UInt16) : Text → List DnsRR → Prop
  | _, [] => True
  | name, rr :: rrs =>
    (∀ x ∈ rr :: rrs, x.Answers qtype name) ∨
      match rr.rdata with
      | .cname target => SameText rr.name name ∧ IsChain qtype target rrs
      | _ => False

/-- Whether a list of records is a chain can be computed. -/
def decidableIsChain (qtype : UInt16) :
    (name : Text) → (rrs : List DnsRR) → Decidable (IsChain qtype name rrs)
  | _, [] => inferInstanceAs (Decidable True)
  | name, rr :: rrs =>
    have : Decidable (match rr.rdata with
        | .cname target => SameText rr.name name ∧ IsChain qtype target rrs
        | _ => False) :=
      match rr.rdata with
      | .cname target =>
        have := decidableIsChain qtype target rrs
        inferInstanceAs (Decidable (_ ∧ _))
      | .a _ | .aaaa _ | .ns _ | .mx .. | .soa .. | .unknown _ => inferInstanceAs (Decidable False)
    inferInstanceAs (Decidable (_ ∨ _))

instance (qtype : UInt16) (name : Text) (rrs : List DnsRR) :
    Decidable (IsChain qtype name rrs) := decidableIsChain qtype name rrs

theorem isChain_of_forall {qtype : UInt16} {name : Text} {rrs : List DnsRR}
    (h : ∀ rr ∈ rrs, rr.Answers qtype name) : IsChain qtype name rrs := by
  cases rrs with
  | nil => trivial
  | cons rr rrs => exact .inl h

/-- When the question is not for `CNAME` records, a chain that starts with one
goes on at its target. -/
theorem isChain_cname {qtype : UInt16} {name target : Text} {rr : DnsRR} {rrs : List DnsRR}
    (hne : qtype ≠ typeCname) (htyped : rr.Typed) (hr : rr.rdata = .cname target) :
    IsChain qtype name (rr :: rrs) ↔ SameText rr.name name ∧ IsChain qtype target rrs := by
  rw [IsChain, hr]
  constructor
  · rintro (hall | hchain)
    · have hqtype := (hall rr (by simp)).1
      exact absurd (hqtype.symm.trans (htyped.rtype_eq_cname hr)) hne
    · exact hchain
  · exact .inr

/-! ## What was received -/

/-- What was taken from one reply is a chain on its own: matching records are a
chain from the name asked for, and a `CNAME` that was followed belongs to it. -/
def Received.Sound (qtype : UInt16) : Received → Prop
  | .answered asked rrs => IsChain qtype asked rrs
  | .followed asked rr => SameText rr.name asked
  | .referred _ => True

instance (qtype : UInt16) (x : Received) : Decidable (x.Sound qtype) :=
  match x with
  | .answered _ _ => inferInstanceAs (Decidable (IsChain _ _ _))
  | .followed _ _ => inferInstanceAs (Decidable (SameText _ _))
  | .referred _ => inferInstanceAs (Decidable True)

/-- The chain built so far, continued by any further records, is a chain exactly
if everything received is sound and the further records are a chain from the
current name. -/
def Lookup.ChainInv (name : Text) (qtype : UInt16) (s : Lookup) : Prop :=
  ∀ rest, IsChain qtype name (s.cnameChain ++ rest) ↔
    (∀ x ∈ s.trace, x.Sound qtype) ∧ IsChain qtype s.currentName rest

/-- The answer is a chain exactly if everything received is sound. -/
def Outcome.ChainPost (name : Text) (qtype : UInt16) (o : Outcome) : Prop :=
  ∀ rrs, o.result = .ok rrs → rrs ≠ [] →
    (IsChain qtype name rrs ↔ ∀ x ∈ o.trace, x.Sound qtype)

namespace Lookup

variable {resolveNs : ResolveNs} {name : Text} {qtype : UInt16} {s s' : Lookup} {o : Outcome}

theorem chainInv_start (name : Text) (qtype : UInt16) (servers : List Server) (w : World) :
    (start name servers w).ChainInv name qtype := by
  intro rest
  simp [start]

/-- Following a `CNAME` record extends the chain by it. -/
theorem ChainInv.follow (h : s.ChainInv name qtype) (hne : qtype ≠ typeCname) {rr : DnsRR}
    {target : Text} (htyped : rr.Typed) (hr : rr.rdata = .cname target) (rest : List DnsRR) :
    IsChain qtype name ((s.cnameChain ++ [rr]) ++ rest) ↔
      (∀ x ∈ s.trace ++ [.followed s.currentName rr], x.Sound qtype) ∧
        IsChain qtype target rest := by
  have hsplit : (∀ x ∈ s.trace ++ [.followed s.currentName rr], x.Sound qtype) ↔
      (∀ x ∈ s.trace, x.Sound qtype) ∧ SameText rr.name s.currentName := by
    simp [or_imp, forall_and, Received.Sound]
  rw [List.append_assoc, List.singleton_append, h, isChain_cname hne htyped hr, hsplit, and_assoc]

/-- The `CNAME` record that is followed has been decoded from the reply. -/
theorem Replied.typed_cname {sections : Sections} {w : World} (h : s.Replied qtype sections w)
    {rr : DnsRR} {target : Text} (hcname : findCname sections.answers = some (rr, target)) :
    rr.Typed ∧ rr.rdata = .cname target := by
  obtain ⟨-, x, -, -, -, rfl, htyped⟩ := h.exists_exchange
  obtain ⟨hmem, hr⟩ := mem_of_findCname hcname
  exact ⟨htyped rr (answers_sectionsOf_subset x.reply hmem), hr⟩

theorem chainInv_next (h : s.ChainInv name qtype)
    (hstep : s.round resolveNs name qtype = .next s') : s'.ChainInv name qtype := by
  have hs := round_step resolveNs name qtype s
  rw [hstep] at hs
  cases hs with
  | followed hreplied hne hcname hservers =>
    obtain ⟨htyped, hr⟩ := hreplied.typed_cname hcname
    intro rest
    exact h.follow hne htyped hr rest
  | referred hreplied hreferral hvisited =>
    intro rest
    rw [h rest]
    simp [or_imp, forall_and, Received.Sound]

theorem chainPost_done (h : s.ChainInv name qtype)
    (hstep : s.round resolveNs name qtype = .done o) : o.ChainPost name qtype := by
  have hs := round_step resolveNs name qtype s
  rw [hstep] at hs
  intro rrs hresult hne
  cases hs with
  | @cached cachedRrs w hget =>
    obtain rfl := Except.ok.inj hresult
    have hrest : IsChain qtype s.currentName cachedRrs := by
      apply isChain_of_forall
      intro rr hrr
      obtain ⟨hname, hrtype, hcls⟩ := World.get_sound hget rr hrr
      exact ⟨hrtype, hcls, hname⟩
    rw [h cachedRrs]
    exact and_iff_left hrest
  | answered hreplied =>
    obtain rfl := Except.ok.inj hresult
    rw [h]
    simp [or_imp, forall_and, Received.Sound]
  | useless hreplied =>
    obtain rfl := Except.ok.inj hresult
    have hrest := h []
    rw [List.append_nil] at hrest
    rw [hrest]
    exact and_iff_left trivial
  | denied hreplied hanswers hreferral hsoa =>
    obtain rfl := Except.ok.inj hresult
    exact absurd rfl hne
  | unanswered hget hquery => exact absurd hresult (by simp)
  | tooDeep hreplied => exact absurd hresult (by simp)
  | lost hreplied hcnameType hcname hservers => exact absurd hresult (by simp)
  | emptyReferral hreplied hreferral => exact absurd hresult (by simp)
  | cycle hreplied hreferral hvisited => exact absurd hresult (by simp)
  | noUse hreplied hreferral => exact absurd hresult (by simp)

end Lookup

theorem lookupWith_chainPost (resolveNs : ResolveNs) (name : Text) (qtype : UInt16) (w : World) :
    (lookupWith resolveNs name qtype w).ChainPost name qtype := by
  unfold lookupWith
  split
  · intro rrs hresult
    exact absurd hresult (by simp)
  · exact Loop.bounded_rule (Lookup.ChainInv name qtype) (Outcome.ChainPost name qtype)
      (fun _ _ => Lookup.chainPost_done) (fun _ _ => Lookup.chainInv_next)
      (fun _ _ _ hresult => absurd hresult (by simp [Lookup.exhausted])) maxIterations
      (Lookup.chainInv_start name qtype _ _)

/-- **When an answer is a chain.**  For every name, type, cache and behaviour of
the servers, a non-empty answer of `resolve_iterative` is a chain of `CNAME`
records from the name followed by records of the end of the chain exactly if,
for every reply that records were taken from, those records are such a chain
from the name the server was asked for. -/
theorem answer_chain_iff (glueLeft : Nat) (name : Text) (qtype : UInt16) (w : World)
    (rrs : List DnsRR) (hresult : (resolveIterative glueLeft name qtype w).1 = .ok rrs)
    (hne : rrs ≠ []) :
    IsChain qtype name rrs ↔
      ∀ x ∈ (lookup glueLeft name qtype w).trace, x.Sound qtype := by
  cases glueLeft with
  | zero => exact lookupWith_chainPost _ name qtype w rrs hresult hne
  | succ glueLeft => exact lookupWith_chainPost _ name qtype w rrs hresult hne

/-! ## The demo -/

/-- The name is an alias. -/
def demoAlias : DnsRR := demoRr "www.example.com." typeCname (.cname (utf8 "host.example.com."))

/-- The address record of a host of the demo. -/
def demoAddress (name : String) : DnsRR := demoRr name typeA (.a ⟨93, 184, 216, 34⟩)

/-- A reply with the address of the name itself leads to a chain. -/
theorem demo_direct_answer :
    IsChain typeA (utf8 "www.example.com.") [demoAddress "www.example.com."] :=
  (answer_chain_iff maxGlueDepth (utf8 "www.example.com.") typeA
    (demoWorld [demoReply rcodeNoerror [demoAddress "www.example.com."] [] []])
    [demoAddress "www.example.com."] (by decide +kernel) (by decide)).mpr (by decide +kernel)

/-- A reply with a `CNAME` and the address it leads to makes the resolver answer
with the address alone, which belongs to another name. -/
theorem demo_alias_dropped :
    (resolveIterative maxGlueDepth (utf8 "www.example.com.") typeA
        (demoWorld [demoReply rcodeNoerror [demoAlias, demoAddress "host.example.com."] [] []])).1 =
      .ok [demoAddress "host.example.com."] ∧
    ¬ IsChain typeA (utf8 "www.example.com.") [demoAddress "host.example.com."] := by
  decide +kernel

end PpcaNetwork.Dns
