import Mathlib

/-!
# Runs of a state machine

A state machine is a step function `σ → ε → σ`; a run is the fold of the step
over a list of events.  The rules below are the inductions that every result
about runs uses, stated once:

* `Run.invariant` — what every step preserves holds at the end of every run.
* `Run.invariant_of_guarded` — the same when each event is known to satisfy a
  guard in the state it is taken in.
* `Run.invariant_iff_guarded` — the same, when the guard is the exact condition.
* `Run.guarded_congr`, `Run.guarded_congr_of_guarded` — guards that agree on every step
  agree on every run.
* `Run.monotone`, `Run.guarded_le` — what no step decreases, no run decreases.
* `Run.guarded_trans` — every state of a run is related to the last, when the steps are.
* `Run.forall_observe` — what every step shows, the run shows.
* `Run.BecomesAt` — the event of a run that makes something true.
* `Run.restrict` — the events of a run that are of interest.
* `Run.project` — a run of one machine, watched through a projection, is a run
  of another; `Run.project_of_guarded` when that takes an invariant.
-/

namespace PpcaNetwork

variable {σ ε σ' ε' : Type*}

/-- The state after the events `es`, taken one after the other from `s`. -/
def run (step : σ → ε → σ) (s : σ) (es : List ε) : σ := es.foldl step s

namespace Run

variable {step : σ → ε → σ}

@[simp] theorem run_nil (s : σ) : run step s [] = s := rfl

@[simp] theorem run_cons (s : σ) (e : ε) (es : List ε) :
    run step s (e :: es) = run step (step s e) es := rfl

@[simp] theorem run_append (s : σ) (es fs : List ε) :
    run step s (es ++ fs) = run step (run step s es) fs :=
  List.foldl_append

/-- Every event of the run satisfies the guard `G` in the state it is taken in. -/
def Guarded (step : σ → ε → σ) (G : σ → ε → Prop) : σ → List ε → Prop
  | _, [] => True
  | s, e :: es => G s e ∧ Guarded step G (step s e) es

instance decidableGuarded {G : σ → ε → Prop} [∀ s e, Decidable (G s e)] :
    (s : σ) → (es : List ε) → Decidable (Guarded step G s es)
  | _, [] => inferInstanceAs (Decidable True)
  | s, e :: es =>
    have : Decidable (Guarded step G (step s e) es) := decidableGuarded (step s e) es
    inferInstanceAs (Decidable (G s e ∧ Guarded step G (step s e) es))

/-- A guard that does not look at the state only has to hold of the events. -/
theorem guarded_of_forall {G : σ → ε → Prop} {es : List ε} (h : ∀ s, ∀ e ∈ es, G s e) (s : σ) :
    Guarded step G s es := by
  induction es generalizing s with
  | nil => trivial
  | cons e es ih =>
    exact ⟨h s e (by simp), ih (fun s e he => h s e (List.mem_cons_of_mem _ he)) _⟩

theorem guarded_iff_forall {P : ε → Prop} {s : σ} {es : List ε} :
    Guarded step (fun _ e => P e) s es ↔ ∀ e ∈ es, P e := by
  induction es generalizing s with
  | nil => simp [Guarded]
  | cons e es ih => rw [Guarded, ih, List.forall_mem_cons]

/-- The events of a run that is cut in two. -/
theorem guarded_append {G : σ → ε → Prop} {s : σ} {es fs : List ε} :
    Guarded step G s (es ++ fs) ↔ Guarded step G s es ∧ Guarded step G (run step s es) fs := by
  induction es generalizing s with
  | nil => simp [Guarded]
  | cons e es ih => exact (and_congr_right fun _ => ih).trans and_assoc.symm

/-- Two guards on the same run. -/
theorem guarded_and {G H : σ → ε → Prop} {s : σ} {es : List ε} :
    Guarded step (fun s e => G s e ∧ H s e) s es ↔ Guarded step G s es ∧ Guarded step H s es := by
  induction es generalizing s with
  | nil => simp [Guarded]
  | cons e es ih =>
    simp only [Guarded, ih]
    exact and_and_and_comm

/-- Guards that say the same of every event, as long as an invariant holds that the guarded
steps keep, say the same of every run. -/
theorem guarded_congr_of_guarded (Inv : σ → Prop) {G H : σ → ε → Prop}
    (hstep : ∀ s e, Inv s → G s e → Inv (step s e)) (h : ∀ s e, Inv s → (G s e ↔ H s e)) {s : σ}
    {es : List ε} (hs : Inv s) : Guarded step G s es ↔ Guarded step H s es := by
  induction es generalizing s with
  | nil => exact Iff.rfl
  | cons e es ih =>
    constructor
    · rintro ⟨hg, hrest⟩
      exact ⟨(h s e hs).mp hg, (ih (hstep s e hs hg)).mp hrest⟩
    · rintro ⟨hh, hrest⟩
      have hg : G s e := (h s e hs).mpr hh
      exact ⟨hg, (ih (hstep s e hs hg)).mpr hrest⟩

/-- The same when every step keeps the invariant. -/
theorem guarded_congr (Inv : σ → Prop) {G H : σ → ε → Prop}
    (hstep : ∀ s e, Inv s → Inv (step s e)) (h : ∀ s e, Inv s → (G s e ↔ H s e)) {s : σ}
    {es : List ε} (hs : Inv s) : Guarded step G s es ↔ Guarded step H s es :=
  guarded_congr_of_guarded Inv (fun s e hinv _ => hstep s e hinv) h hs

/-- Guards that say the same of the events that are known to satisfy another. -/
theorem guarded_congr_on {D G H : σ → ε → Prop} (h : ∀ s e, D s e → (G s e ↔ H s e)) {s : σ}
    {es : List ε} (hd : Guarded step D s es) : Guarded step G s es ↔ Guarded step H s es := by
  induction es generalizing s with
  | nil => exact Iff.rfl
  | cons e es ih => exact and_congr (h s e hd.1) (ih hd.2)

/-- What every guarded step preserves holds at the end of every guarded run. -/
theorem invariant_of_guarded (Inv : σ → Prop) {G : σ → ε → Prop}
    (hstep : ∀ s e, Inv s → G s e → Inv (step s e)) {s : σ} {es : List ε}
    (hs : Inv s) (hg : Guarded step G s es) : Inv (run step s es) := by
  induction es generalizing s with
  | nil => exact hs
  | cons e es ih => exact ih (hstep s e hs hg.1) hg.2

/-- When a step preserves an invariant exactly if it satisfies `G`, the invariant
holds in every state of a run exactly if every event satisfies `G`; `D` is what is
known of the events. -/
theorem invariant_iff_guarded (Inv : σ → Prop) {D G : σ → ε → Prop}
    (hstep : ∀ s e, Inv s → D s e → (Inv (step s e) ↔ G s e)) {s : σ} {es : List ε}
    (hs : Inv s) (hd : Guarded step D s es) :
    (∀ fs, fs <+: es → Inv (run step s fs)) ↔ Guarded step G s es := by
  induction es generalizing s with
  | nil =>
    refine ⟨fun _ => trivial, ?_⟩
    intro _ fs hfs
    rw [List.prefix_nil.mp hfs]
    exact hs
  | cons e es ih =>
    constructor
    · intro h
      have hnext : Inv (step s e) := h [e] (List.cons_prefix_cons.mpr ⟨rfl, List.nil_prefix⟩)
      refine ⟨(hstep s e hs hd.1).mp hnext, (ih hnext hd.2).mp ?_⟩
      intro fs hfs
      exact h (e :: fs) (List.cons_prefix_cons.mpr ⟨rfl, hfs⟩)
    · rintro ⟨hg, hrest⟩ fs hfs
      have hnext : Inv (step s e) := (hstep s e hs hd.1).mpr hg
      cases fs with
      | nil => exact hs
      | cons f fs =>
        obtain ⟨rfl, htail⟩ := List.cons_prefix_cons.mp hfs
        exact (ih hnext hd.2).mpr hrest fs htail

/-- What every step preserves holds at the end of every run. -/
theorem invariant (Inv : σ → Prop) (hstep : ∀ s e, Inv s → Inv (step s e)) {s : σ}
    (hs : Inv s) (es : List ε) : Inv (run step s es) :=
  invariant_of_guarded Inv (G := fun _ _ => True) (fun s e h _ => hstep s e h) hs
    (guarded_of_forall (fun _ _ _ => trivial) s)

/-- What no step decreases, no run decreases. -/
theorem monotone {α : Type*} [Preorder α] {f : σ → α} (hstep : ∀ s e, f s ≤ f (step s e))
    (s : σ) (es : List ε) : f s ≤ f (run step s es) := by
  induction es generalizing s with
  | nil => exact le_refl _
  | cons e es ih => exact le_trans (hstep s e) (ih _)

/-- What no step decreases is in no state of a run greater than at its end. -/
theorem guarded_le {α : Type*} [Preorder α] {f : σ → α} (hstep : ∀ s e, f s ≤ f (step s e)) (s : σ)
    (es : List ε) : Guarded step (fun t e => f (step t e) ≤ f (run step s es)) s es := by
  induction es generalizing s with
  | nil => trivial
  | cons e es ih => exact ⟨monotone hstep (step s e) es, ih (step s e)⟩

/-- What every step goes on to, every step of a run goes on to by its end. -/
theorem guarded_trans {R : σ → σ → Prop} (hrefl : ∀ s, R s s)
    (htrans : ∀ s t u, R s t → R t u → R s u) (hstep : ∀ s e, R s (step s e)) (s : σ)
    (es : List ε) : Guarded step (fun t e => R (step t e) (run step s es)) s es := by
  have hrun : ∀ s es, R s (run step s es) := by
    intro s es
    induction es generalizing s with
    | nil => exact hrefl s
    | cons e es ih => exact htrans _ _ _ (hstep s e) (ih (step s e))
  induction es generalizing s with
  | nil => trivial
  | cons e es ih => exact ⟨hrun (step s e) es, ih (step s e)⟩

/-- The event at the position `k` of a run makes `P` true. -/
structure BecomesAt (step : σ → ε → σ) (P : σ → Prop) (s : σ) (es : List ε) (k : Nat) : Prop where
  lt : k < es.length
  before : ¬ P (run step s (es.take k))
  after : P (run step s (es.take (k + 1)))

theorem becomesAt_append_singleton {P : σ → Prop} {s : σ} {es : List ε} {e : ε} {k : Nat} :
    BecomesAt step P s (es ++ [e]) k ↔ BecomesAt step P s es k ∨
      k = es.length ∧ ¬ P (run step s es) ∧ P (step (run step s es) e) := by
  rcases lt_trichotomy k es.length with hlt | rfl | hgt
  · have htake : ∀ n, n ≤ es.length → (es ++ [e]).take n = es.take n :=
      fun n hn => List.take_append_of_le_length hn
    constructor
    · rintro ⟨-, hbefore, hafter⟩
      rw [htake k (Nat.le_of_lt hlt)] at hbefore
      rw [htake (k + 1) hlt] at hafter
      exact .inl ⟨hlt, hbefore, hafter⟩
    · rintro (⟨-, hbefore, hafter⟩ | ⟨heq, -⟩)
      · refine ⟨?_, ?_, ?_⟩
        · rw [List.length_append]
          exact Nat.lt_add_right _ hlt
        · rwa [htake k (Nat.le_of_lt hlt)]
        · rwa [htake (k + 1) hlt]
      · exact absurd heq (Nat.ne_of_lt hlt)
  · have hall : (es ++ [e]).take (es.length + 1) = es ++ [e] :=
      List.take_of_length_le (by simp)
    have hlast : run step s (es ++ [e]) = step (run step s es) e := by
      rw [run_append, run_cons, run_nil]
    constructor
    · rintro ⟨-, hbefore, hafter⟩
      rw [List.take_left] at hbefore
      rw [hall, hlast] at hafter
      exact .inr ⟨rfl, hbefore, hafter⟩
    · rintro (⟨hlt, -, -⟩ | ⟨-, hbefore, hafter⟩)
      · exact absurd hlt (Nat.lt_irrefl _)
      · refine ⟨by simp, ?_, ?_⟩
        · rwa [List.take_left]
        · rwa [hall, hlast]
  · constructor
    · rintro ⟨hlt, -, -⟩
      rw [List.length_append, List.length_singleton] at hlt
      omega
    · rintro (⟨hlt, -, -⟩ | ⟨heq, -⟩) <;> omega

/-- What stays true once it is becomes true at one position at most. -/
theorem BecomesAt.unique (Inv : σ → Prop) (hinv : ∀ s e, Inv s → Inv (step s e)) {P : σ → Prop}
    (hstep : ∀ s e, Inv s → P s → P (step s e)) {s : σ} (hs : Inv s) {es : List ε} {j k : Nat}
    (hj : BecomesAt step P s es j) (hk : BecomesAt step P s es k) : j = k := by
  have hle : ∀ {j k}, BecomesAt step P s es j → BecomesAt step P s es k → k ≤ j := by
    intro j k hj hk
    by_contra hlt
    have hsplit : es.take k = es.take (j + 1) ++ (es.drop (j + 1)).take (k - (j + 1)) := by
      rw [← List.take_add]
      congr 1
      omega
    apply hk.before
    rw [hsplit, run_append]
    exact (invariant (fun s => Inv s ∧ P s) (fun s e h => ⟨hinv s e h.1, hstep s e h.1 h.2⟩)
      ⟨invariant Inv hinv hs _, hj.after⟩ _).2
  exact Nat.le_antisymm (hle hk hj) (hle hj hk)

/-- The events of another machine that a run amounts to, when each event `e`
taken in state `s` amounts to `obs s e`. -/
def observe (step : σ → ε → σ) (obs : σ → ε → List ε') : σ → List ε → List ε'
  | _, [] => []
  | s, e :: es => obs s e ++ observe step obs (step s e) es

/-- What is observed in a run that is cut in two. -/
theorem observe_append {obs : σ → ε → List ε'} {s : σ} {es fs : List ε} :
    observe step obs s (es ++ fs) =
      observe step obs s es ++ observe step obs (run step s es) fs := by
  induction es generalizing s with
  | nil => rfl
  | cons e es ih =>
    rw [List.cons_append, observe, ih, observe, List.append_assoc]
    rfl

/-- What is observed in every step of a run is observed in the run. -/
theorem forall_observe (Inv : σ → Prop) {P : ε' → Prop} {obs : σ → ε → List ε'}
    (hstep : ∀ s e, Inv s → Inv (step s e)) (hobs : ∀ s e, Inv s → ∀ x ∈ obs s e, P x) {s : σ}
    (hs : Inv s) (es : List ε) : ∀ x ∈ observe step obs s es, P x := by
  induction es generalizing s with
  | nil => simp [observe]
  | cons e es ih =>
    intro x hx
    rcases List.mem_append.mp hx with hx | hx
    · exact hobs s e hs x hx
    · exact ih (hstep s e hs) x hx

/-- The events of a run that satisfy `own` in the state they are taken in. -/
def restrict (step : σ → ε → σ) (own : σ → ε → Prop) [∀ s e, Decidable (own s e)] (s : σ)
    (es : List ε) : List ε :=
  observe step (fun s e => if own s e then [e] else []) s es

/-- A run watched through a projection, when every step shows as a run of another machine, as
long as an invariant holds and the events satisfy a guard. -/
theorem project_of_guarded (Inv : σ → Prop) {G : σ → ε → Prop} (proj : σ → σ')
    {step' : σ' → ε' → σ'} {obs : σ → ε → List ε'} (hinv : ∀ s e, Inv s → G s e → Inv (step s e))
    (hstep : ∀ s e, Inv s → G s e → proj (step s e) = run step' (proj s) (obs s e)) {s : σ}
    {es : List ε} (hs : Inv s) (hg : Guarded step G s es) :
    proj (run step s es) = run step' (proj s) (observe step obs s es) := by
  induction es generalizing s with
  | nil => rfl
  | cons e es ih =>
    rw [run_cons, ih (hinv s e hs hg.1) hg.2, hstep s e hs hg.1, observe, run_append]

/-- A run watched through a projection is a run of the projected machine on the
observed events. -/
theorem project (proj : σ → σ') {step' : σ' → ε' → σ'} {obs : σ → ε → List ε'}
    (hstep : ∀ s e, proj (step s e) = run step' (proj s) (obs s e)) (s : σ) (es : List ε) :
    proj (run step s es) = run step' (proj s) (observe step obs s es) :=
  project_of_guarded (fun _ => True) proj (fun _ _ _ _ => trivial) (fun s e _ _ => hstep s e)
    trivial (guarded_of_forall (G := fun _ _ => True) (fun _ _ _ => trivial) s)

end Run
end PpcaNetwork
