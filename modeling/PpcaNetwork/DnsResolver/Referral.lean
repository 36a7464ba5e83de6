import PpcaNetwork.DnsResolver.Rounds

/-!
# Referral cycles

`resolve_iterative` gives up with "referral cycle detected" when the names of the
servers of a referral, joined in the order of the reply, have been seen before in
the same call.  Following a `CNAME` does not clear what has been seen, and the
addresses play no part.

* `RepeatsKey` — two referrals with the same joined names.
* `RepeatsServers` — two referrals to the same set of servers.
* `cycle_iff_repeatsKey` — the error is reported exactly if a key repeats in the
  whole call.
* `cycle_exact_iff` — it is reported exactly for a repeated set of servers since
  the name last changed if and only if the two kinds of repetition coincide.
-/

namespace PpcaNetwork.Dns

/-! ## Repetitions -/

/-- The referrals among what was received. -/
def referralsOf (trace : List Received) : List (List Server) :=
  trace.filterMap fun x =>
    match x with
    | .referred servers => some servers
    | _ => none

/-- A `CNAME` record was followed here, which changed the name. -/
def Received.isFollowed : Received → Bool
  | .followed _ _ => true
  | _ => false

/-- What was received since the name last changed. -/
def sinceFollowed (trace : List Received) : List Received :=
  trace.rtakeWhile fun x => !x.isFollowed

/-- Two of the referrals are remembered under the same key. -/
def RepeatsKey (referrals : List (List Server)) : Prop := ¬ (referrals.map nsKey).Nodup

/-- Two of the referrals name the same set of servers, whatever their order. -/
def RepeatsServers (referrals : List (List Server)) : Prop :=
  ¬ (referrals.map List.toFinset).Nodup

instance (referrals : List (List Server)) : Decidable (RepeatsServers referrals) :=
  inferInstanceAs (Decidable (¬ _))

@[simp] theorem referralsOf_append (xs ys : List Received) :
    referralsOf (xs ++ ys) = referralsOf xs ++ referralsOf ys := by
  simp [referralsOf]

@[simp] theorem referralsOf_referred (servers : List Server) :
    referralsOf [.referred servers] = [servers] := rfl

@[simp] theorem referralsOf_answered (asked : Text) (rrs : List DnsRR) :
    referralsOf [.answered asked rrs] = [] := rfl

@[simp] theorem referralsOf_followed (asked : Text) (rr : DnsRR) :
    referralsOf [.followed asked rr] = [] := rfl

/-! ## The other errors -/

theorem firstNameservers_error {name : Text} {zones : List Text} {w w' : World}
    {e : ResolveError} (h : firstNameservers name zones w = (.error e, w')) :
    e = .noNsRecords name := by
  induction zones generalizing w with
  | nil => exact (Except.error.inj (congrArg Prod.fst h)).symm
  | cons zone zones ih =>
    simp only [firstNameservers] at h
    split at h
    · exact ih h
    · exact absurd (congrArg Prod.fst h) (by simp)

theorem getNameservers_error {name : Text} {w w' : World} {e : ResolveError}
    (h : getNameservers name w = (.error e, w')) : e ≠ .referralCycle := by
  rw [firstNameservers_error h]
  exact ResolveError.noConfusion

theorem queryServers_error {name : Text} {qtype : UInt16} {servers : List Server}
    {lastErr e : ResolveError} {w w' : World} (hlast : lastErr ≠ .referralCycle)
    (h : queryServers name qtype servers lastErr w = (.error e, w')) : e ≠ .referralCycle := by
  induction servers generalizing lastErr w with
  | nil =>
    obtain rfl := Except.error.inj (congrArg Prod.fst h)
    exact hlast
  | cons server servers ih =>
    obtain ⟨nsName, ip⟩ := server
    unfold queryServers at h
    split at h
    · exact absurd (congrArg Prod.fst h) (by simp)
    · exact ih ResolveError.noConfusion h

/-! ## The visited set -/

/-- The visited set holds the keys of the referrals so far, all different. -/
structure Lookup.VisitedInv (s : Lookup) : Prop where
  visitedNs_eq : s.visitedNs = ((referralsOf s.trace).map nsKey).reverse
  nodup : ((referralsOf s.trace).map nsKey).Nodup

/-- A cycle is reported exactly if a key repeats. -/
def Outcome.CyclePost (o : Outcome) : Prop :=
  o.result = .error .referralCycle ↔ RepeatsKey (referralsOf o.trace)

namespace Lookup

variable {resolveNs : ResolveNs} {name : Text} {qtype : UInt16} {s s' : Lookup} {o : Outcome}

theorem VisitedInv.mem_visitedNs (h : s.VisitedInv) (key : Text) :
    key ∈ s.visitedNs ↔ key ∈ (referralsOf s.trace).map nsKey := by
  rw [h.visitedNs_eq, List.mem_reverse]

theorem visitedInv_next (h : s.VisitedInv)
    (hstep : s.round resolveNs name qtype = .next s') : s'.VisitedInv := by
  have hs := round_step resolveNs name qtype s
  rw [hstep] at hs
  cases hs with
  | followed hreplied hne hcname hservers =>
    exact ⟨by simpa using h.visitedNs_eq, by simpa using h.nodup⟩
  | referred hreplied hreferral hvisited =>
    rw [h.mem_visitedNs] at hvisited
    refine ⟨by simpa using h.visitedNs_eq, ?_⟩
    simp only [referralsOf_append, referralsOf_referred, List.map_append, List.map_cons,
      List.map_nil]
    rw [List.nodup_append_comm, List.singleton_append, List.nodup_cons]
    exact ⟨hvisited, h.nodup⟩

/-- A way out with another result, which adds no referral. -/
theorem cyclePost_of_ne (h : s.VisitedInv) (hresult : o.result ≠ .error .referralCycle)
    (htrace : referralsOf o.trace = referralsOf s.trace) : o.CyclePost := by
  unfold Outcome.CyclePost RepeatsKey
  rw [htrace]
  exact iff_of_false hresult (not_not.mpr h.nodup)

theorem cyclePost_done (h : s.VisitedInv)
    (hstep : s.round resolveNs name qtype = .done o) : o.CyclePost := by
  have hs := round_step resolveNs name qtype s
  rw [hstep] at hs
  cases hs with
  | cycle hreplied hreferral hvisited =>
    rw [h.mem_visitedNs] at hvisited
    refine iff_of_true rfl ?_
    unfold RepeatsKey
    simp only [referralsOf_append, referralsOf_referred, List.map_append, List.map_cons,
      List.map_nil]
    rw [List.nodup_append_comm, List.singleton_append, List.nodup_cons]
    rintro ⟨hnot, -⟩
    exact hnot hvisited
  | unanswered hget hquery =>
    have hne := queryServers_error ResolveError.noConfusion hquery
    exact cyclePost_of_ne h (by simpa using hne) rfl
  | lost hreplied hne hcname hservers =>
    have hother := getNameservers_error hservers
    exact cyclePost_of_ne h (by simpa using hother) (by simp)
  | cached hget => exact cyclePost_of_ne h (by simp) rfl
  | answered hreplied => exact cyclePost_of_ne h (by simp) (by simp)
  | useless hreplied => exact cyclePost_of_ne h (by simp) rfl
  | denied hreplied hanswers hreferral hsoa => exact cyclePost_of_ne h (by simp) rfl
  | tooDeep hreplied => exact cyclePost_of_ne h (by simp) rfl
  | emptyReferral hreplied hreferral => exact cyclePost_of_ne h (by simp) rfl
  | noUse hreplied hreferral => exact cyclePost_of_ne h (by simp) rfl

end Lookup

theorem lookupWith_cyclePost (resolveNs : ResolveNs) (name : Text) (qtype : UInt16) (w : World) :
    (lookupWith resolveNs name qtype w).CyclePost := by
  unfold lookupWith
  split
  · rename_i e w' hservers
    have hne := getNameservers_error hservers
    exact iff_of_false (by simpa using hne) (by simp [RepeatsKey, referralsOf])
  · refine Loop.bounded_rule Lookup.VisitedInv Outcome.CyclePost (fun _ _ => Lookup.cyclePost_done)
      (fun _ _ => Lookup.visitedInv_next) ?_ maxIterations
      ⟨rfl, by simp [Lookup.start, referralsOf]⟩
    intro s h
    exact Lookup.cyclePost_of_ne h (by simp [Lookup.exhausted]) rfl

/-- What `resolve_iterative` reports as a cycle: two referrals of the call have
the same names in the same order. -/
theorem cycle_iff_repeatsKey (glueLeft : Nat) (name : Text) (qtype : UInt16) (w : World) :
    (∃ e, (resolveIterative glueLeft name qtype w).1 = .error e ∧
        e.text = utf8 "referral cycle detected") ↔
      RepeatsKey (referralsOf (lookup glueLeft name qtype w).trace) := by
  have hpost : (lookup glueLeft name qtype w).CyclePost := by
    cases glueLeft with
    | zero => exact lookupWith_cyclePost ..
    | succ glueLeft => exact lookupWith_cyclePost ..
  rw [← show _ ↔ _ from hpost]
  simp [ResolveError.text_eq_referralCycle_iff, resolveIterative]

/-- **When cycle detection is exact.**  For every behaviour of the servers,
`resolve_iterative` reports a cycle exactly when two referrals since the name
last changed name the same set of servers if and only if, among the referrals it
received, the same joined names occur twice in the whole call exactly when the
same set of servers occurs twice since the name last changed. -/
theorem cycle_exact_iff (glueLeft : Nat) (name : Text) (qtype : UInt16) (w : World) :
    let trace := (lookup glueLeft name qtype w).trace
    ((∃ e, (resolveIterative glueLeft name qtype w).1 = .error e ∧
          e.text = utf8 "referral cycle detected") ↔
        RepeatsServers (referralsOf (sinceFollowed trace))) ↔
      (RepeatsKey (referralsOf trace) → RepeatsServers (referralsOf (sinceFollowed trace))) ∧
        (RepeatsServers (referralsOf (sinceFollowed trace)) → RepeatsKey (referralsOf trace)) := by
  intro trace
  rw [cycle_iff_repeatsKey]
  exact iff_iff_implies_and_implies

/-! ## The demo -/

/-- The demo's root refers to the server of `example.com.`. -/
def demoReferral : DnsMessage :=
  demoReply rcodeNoerror [] [demoRr "example.com." typeNs (.ns (utf8 "ns.host."))]
    [demoRr "ns.host." typeA (.a ⟨192, 0, 2, 1⟩)]

/-- A `CNAME` that stays within `example.com.` brings the resolution back to the
root, whose referral is then taken for a cycle, although it is the only one since
the name changed. -/
theorem demo_alias_within_zone :
    let w := demoWorld [demoReferral,
      demoReply rcodeNoerror
        [demoRr "www.example.com." typeCname (.cname (utf8 "host.example.com."))] [] [],
      demoReferral]
    (resolveIterative maxGlueDepth (utf8 "www.example.com.") typeA w).1 = .error .referralCycle ∧
      referralsOf (sinceFollowed (lookup maxGlueDepth (utf8 "www.example.com.") typeA w).trace) =
        [[(utf8 "ns.host.", ⟨192, 0, 2, 1⟩)]] ∧
      ¬ RepeatsServers [[(utf8 "ns.host.", ⟨192, 0, 2, 1⟩)]] := by
  decide +kernel

end PpcaNetwork.Dns
