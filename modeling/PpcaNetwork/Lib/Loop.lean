import Mathlib

/-!
# Loops with a bounded number of rounds

`for _ in 0..n { … }` whose body either returns from the function or goes on to
the next round, and what the function does when the rounds are used up.

* `Loop.bounded` — such a loop.
* `Loop.bounded_rule` — the rule for its result: an invariant of the rounds, from
  which every way out establishes the postcondition.
* `Loop.rounds` — the states that its rounds start from, and `Loop.bounded_observe` the rule
  for what is observed in them.
* `Loop.foldl_rule` — the rule for a loop over a list, whose rounds all move along a
  preorder.
* `Loop.foldl_single` — a loop over distinct keys, seen from one of them.
-/

namespace PpcaNetwork

/-- What one round of a loop does: return a result, or go on. -/
inductive Round (σ ρ : Type*) where
  /-- `return result`. -/
  | done (result : ρ)
  /-- The end of the body, or `continue`. -/
  | next (state : σ)

namespace Loop

variable {σ ρ α β : Type*}

/-- At most `n` rounds of `body`, and `exhausted` after the last of them. -/
def bounded (body : σ → Round σ ρ) (exhausted : σ → ρ) : Nat → σ → ρ
  | 0, s => exhausted s
  | n + 1, s =>
    match body s with
    | .done result => result
    | .next s' => bounded body exhausted n s'

variable {body : σ → Round σ ρ} {exhausted : σ → ρ}

/-- What every round preserves and every way out turns into `Post` gives `Post`. -/
theorem bounded_rule (Inv : σ → Prop) (Post : ρ → Prop)
    (hdone : ∀ s result, Inv s → body s = .done result → Post result)
    (hnext : ∀ s s', Inv s → body s = .next s' → Inv s')
    (hend : ∀ s, Inv s → Post (exhausted s)) (n : Nat) {s : σ} (hs : Inv s) :
    Post (bounded body exhausted n s) := by
  induction n generalizing s with
  | zero => exact hend s hs
  | succ n ih =>
    unfold bounded
    cases h : body s with
    | done result => exact hdone s result hs h
    | next s' => exact ih (hnext s s' hs h)

/-- The states that the rounds of the loop start from. -/
def rounds (body : σ → Round σ ρ) : Nat → σ → List σ
  | 0, _ => []
  | n + 1, s =>
    s :: match body s with
      | .done _ => []
      | .next s' => rounds body n s'

theorem length_rounds_le (body : σ → Round σ ρ) (n : Nat) (s : σ) :
    (rounds body n s).length ≤ n := by
  induction n generalizing s with
  | zero => exact le_refl _
  | succ n ih =>
    rw [rounds, List.length_cons]
    refine Nat.succ_le_succ ?_
    cases body s with
    | done result => exact Nat.zero_le n
    | next s' => exact ih s'

/-- What is observed from one end of a round to the other adds up to what is observed from
one end of the loop to the other. -/
theorem bounded_observe {ω ε : Type*} {P : ω → List ε → ω → Prop} (hnil : ∀ w, P w [] w)
    (happend : ∀ {w w' w'' es es'}, P w es w' → P w' es' w'' → P w (es ++ es') w'')
    {before : σ → ω} {after : ρ → ω} {observe : σ → List ε}
    (hdone : ∀ s result, body s = .done result → P (before s) (observe s) (after result))
    (hnext : ∀ s s', body s = .next s' → P (before s) (observe s) (before s'))
    (hend : ∀ s, after (exhausted s) = before s) (n : Nat) (s : σ) :
    P (before s) ((rounds body n s).flatMap observe) (after (bounded body exhausted n s)) := by
  induction n generalizing s with
  | zero =>
    rw [bounded, hend]
    exact hnil _
  | succ n ih =>
    rw [rounds, bounded, List.flatMap_cons]
    cases h : body s with
    | done result =>
      rw [List.flatMap_nil, List.append_nil]
      exact hdone s result h
    | next s' => exact happend (hnext s s' h) (ih s')

/-- What relates the states before and after each round relates those before and
after the loop, which hands a value from round to round. -/
theorem foldl_rule {R : σ → σ → Prop} (hrefl : ∀ s, R s s)
    (htrans : ∀ {s t u}, R s t → R t u → R s u) {f : β × σ → α → β × σ}
    (hf : ∀ acc a, R acc.2 (f acc a).2) (xs : List α) (acc : β × σ) :
    R acc.2 (xs.foldl f acc).2 := by
  induction xs generalizing acc with
  | nil => exact hrefl acc.2
  | cons x xs ih => exact htrans (hf acc x) (ih (f acc x))

/-- A loop over distinct keys, seen from one key: only its own round is noticed. -/
theorem foldl_single [DecidableEq α] (f : σ → β) {g : σ → α → σ} {a : α}
    (hother : ∀ s b, b ≠ a → f (g s b) = f s)
    (hown : ∀ s t, f s = f t → f (g s a) = f (g t a)) {xs : List α} (hnodup : xs.Nodup) (s : σ) :
    f (xs.foldl g s) = if a ∈ xs then f (g s a) else f s := by
  induction xs generalizing s with
  | nil => rfl
  | cons x xs ih =>
    obtain ⟨hnew, hrest⟩ := List.nodup_cons.mp hnodup
    rw [List.foldl_cons, ih hrest]
    by_cases hx : x = a
    · subst hx
      rw [if_neg hnew, if_pos List.mem_cons_self]
    · have hmem : a ∈ x :: xs ↔ a ∈ xs := by simp [Ne.symm hx]
      rw [hown _ s (hother s x hx), hother s x hx]
      simp only [hmem]

end Loop
end PpcaNetwork
