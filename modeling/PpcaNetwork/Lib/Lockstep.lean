import PpcaNetwork.Lib.Loop
import PpcaNetwork.Lib.Run

/-!
# Two runs in lockstep

The same computation, from two states that a relation `R` takes for one another.

* `Lockstep R f` — `f` returns the same from both, and ends in related states.
* `Lockstep.bind`, `Lockstep.foldl` — the rules for one computation after another.
* `Loop.bounded_related`, `Run.related` — the rules for loops and runs.
* `Run.replay` — the rule for a run and the replay of some of its events.
-/

namespace PpcaNetwork

variable {σ ρ ε α β : Type*}

/-- From related states, `f` returns the same and ends in related states. -/
def Lockstep (R : σ → σ → Prop) (f : σ → α × σ) : Prop :=
  ∀ s t, R s t → (f s).1 = (f t).1 ∧ R (f s).2 (f t).2

namespace Lockstep

variable {R : σ → σ → Prop}

theorem pure (a : α) : Lockstep R fun s => (a, s) := fun _ _ h => ⟨rfl, h⟩

/-- One computation, and another that depends on what the first returns. -/
theorem bind {f : σ → α × σ} {g : α → σ → β × σ} (hf : Lockstep R f)
    (hg : ∀ a, Lockstep R (g a)) : Lockstep R fun s => g (f s).1 (f s).2 := by
  intro s t h
  obtain ⟨hfst, hsnd⟩ := hf s t h
  beta_reduce
  rw [hfst]
  exact hg (f t).1 (f s).2 (f t).2 hsnd

/-- A computation whose result is transformed. -/
theorem map {f : σ → α × σ} (hf : Lockstep R f) (g : α → β) :
    Lockstep R fun s => (g (f s).1, (f s).2) :=
  hf.bind fun a => pure (g a)

/-- A loop that hands a value from round to round. -/
theorem foldl {f : β × σ → α → β × σ} (hf : ∀ b a, Lockstep R fun s => f (b, s) a)
    (xs : List α) (b : β) : Lockstep R fun s => xs.foldl f (b, s) := by
  induction xs generalizing b with
  | nil => exact pure b
  | cons x xs ih => exact (hf b x).bind ih

/-- What is known of the second run when the first is. -/
theorem exists_eq {f : σ → α × σ} (hf : Lockstep R f) {s t : σ} (h : R s t) {a : α} {s' : σ}
    (hs : f s = (a, s')) : ∃ t', f t = (a, t') ∧ R s' t' := by
  obtain ⟨hfst, hsnd⟩ := hf s t h
  rw [hs] at hfst hsnd
  exact ⟨(f t).2, Prod.ext hfst.symm rfl, hsnd⟩

end Lockstep

/-- Two rounds that go the same way. -/
inductive Round.Related (R : σ → σ → Prop) (P : ρ → ρ → Prop) : Round σ ρ → Round σ ρ → Prop where
  | done {r r' : ρ} (h : P r r') : Related R P (.done r) (.done r')
  | next {s s' : σ} (h : R s s') : Related R P (.next s) (.next s')

/-- Loops whose rounds go the same way have related results. -/
theorem Loop.bounded_related {R : σ → σ → Prop} {P : ρ → ρ → Prop} {body : σ → Round σ ρ}
    {exhausted : σ → ρ} (hbody : ∀ s s', R s s' → (body s).Related R P (body s'))
    (hend : ∀ s s', R s s' → P (exhausted s) (exhausted s')) (n : Nat) {s s' : σ} (h : R s s') :
    P (bounded body exhausted n s) (bounded body exhausted n s') := by
  induction n generalizing s s' with
  | zero => exact hend s s' h
  | succ n ih =>
    have hround := hbody s s' h
    unfold bounded
    generalize body s = b, body s' = b' at hround
    cases hround with
    | done hresult => exact hresult
    | next hstate => exact ih hstate

/-- Runs from related states end in related states. -/
theorem Run.related {R : σ → σ → Prop} {step : σ → ε → σ}
    (hstep : ∀ s t e, R s t → R (step s e) (step t e)) {s t : σ} (h : R s t) (es : List ε) :
    R (run step s es) (run step t es) := by
  induction es generalizing s t with
  | nil => exact h
  | cons e es ih => exact ih (hstep s t e h)

/-- **Replaying what concerns one party.**  When the events of others neither disturb the
relation nor show anything, and the party's own go the same way in the replay, then a
run and the replay of the party's events end in related states and show the same. -/
theorem Run.replay {σ' ε' : Type*} {R : σ → σ' → Prop} {step : σ → ε → σ} {step' : σ' → ε → σ'}
    {own : σ → ε → Prop} [∀ s e, Decidable (own s e)] {obs : σ → ε → List ε'}
    {obs' : σ' → ε → List ε'}
    (hforeign : ∀ s t e, R s t → ¬ own s e → R (step s e) t ∧ obs s e = [])
    (hown : ∀ s t e, R s t → own s e → R (step s e) (step' t e) ∧ obs s e = obs' t e)
    {s : σ} {t : σ'} (h : R s t) (es : List ε) :
    R (run step s es) (run step' t (restrict step own s es)) ∧
      observe step obs s es = observe step' obs' t (restrict step own s es) := by
  induction es generalizing s t with
  | nil => exact ⟨h, rfl⟩
  | cons e es ih =>
    by_cases hmine : own s e
    · obtain ⟨hnext, hshown⟩ := hown s t e h hmine
      obtain ⟨hend, hrest⟩ := ih hnext
      have hcons : restrict step own s (e :: es) = e :: restrict step own (step s e) es := by
        simp [restrict, observe, hmine]
      rw [hcons]
      exact ⟨hend, by rw [observe, observe, hshown, hrest]⟩
    · obtain ⟨hnext, hshown⟩ := hforeign s t e h hmine
      obtain ⟨hend, hrest⟩ := ih hnext
      have hcons : restrict step own s (e :: es) = restrict step own (step s e) es := by
        simp [restrict, observe, hmine]
      rw [hcons]
      exact ⟨hend, by rw [observe, hshown, List.nil_append, hrest]⟩

end PpcaNetwork
