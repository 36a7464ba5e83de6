import PpcaNetwork.Lib.Run

/-!
# Two processes and the network between them

Two processes that send each other messages.  The network delivers the messages in
any order and as often as it likes; a message that is delivered may stay in flight.

* `Pair` — the states of both sides and the messages on their way.
* `Pair.step` — a message arrives, or a side acts on its own.
* `Pair.invariant` — **the rule**: what holds of each side and of all messages on
  their way to it, whatever the order.
-/

namespace PpcaNetwork

/-- The two parties. -/
inductive Side where
  | left
  | right
  deriving DecidableEq, Repr

namespace Side

/-- The other party. -/
def other : Side → Side
  | left => right
  | right => left

@[simp] theorem other_other (side : Side) : side.other.other = side := by
  cases side <;> rfl

end Side

/-- Both sides, and for each the messages on their way to it. -/
structure Pair (σ μ : Type*) where
  state : Side → σ
  inFlight : Side → List μ

/-- One thing that happens to a pair. -/
inductive PairEvent (τ α : Type*) where
  /-- The `i`-th message on its way to a side arrives; it may arrive `again`. -/
  | deliver (side : Side) (i : Nat) (again : Bool) (now : τ)
  /-- A side acts on its own. -/
  | act (side : Side) (a : α)
  deriving DecidableEq, Repr

namespace Pair

variable {σ μ τ α : Type*}

/-- A side has gone over to a state and sent messages. -/
def put (p : Pair σ μ) (side : Side) (r : σ × List μ) : Pair σ μ where
  state := Function.update p.state side r.1
  inFlight := Function.update p.inFlight side.other (p.inFlight side.other ++ r.2)

/-- The `i`-th message to a side is no longer on its way. -/
def take (p : Pair σ μ) (side : Side) (i : Nat) : Pair σ μ :=
  { p with inFlight := Function.update p.inFlight side ((p.inFlight side).eraseIdx i) }

section Steps

variable (receive : Side → τ → σ → μ → σ × List μ) (act : Side → σ → α → σ × List μ)

/-- The pair after one event. -/
def step (p : Pair σ μ) : PairEvent τ α → Pair σ μ
  | .deliver side i again now =>
    match (p.inFlight side)[i]? with
    | none => p
    | some m => (if again then p else p.take side i).put side (receive side now (p.state side) m)
  | .act side a => p.put side (act side (p.state side) a)

/-- `I` holds of both sides, and `M` of all messages on their way. -/
def Holds (I : Side → σ → Prop) (M : Side → μ → Prop) (p : Pair σ μ) : Prop :=
  ∀ side, I side (p.state side) ∧ ∀ m ∈ p.inFlight side, M side m

variable {I : Side → σ → Prop} {M : Side → μ → Prop}

theorem Holds.put {p : Pair σ μ} (h : Holds I M p) {side : Side} {r : σ × List μ}
    (hstate : I side r.1) (hsent : ∀ m ∈ r.2, M side.other m) : Holds I M (p.put side r) := by
  intro side'
  constructor
  · by_cases hside : side' = side
    · subst hside
      simpa [Pair.put] using hstate
    · simpa [Pair.put, Function.update_of_ne hside] using (h side').1
  · intro m hm
    by_cases hside : side' = side.other
    · subst hside
      simp only [Pair.put, Function.update_self] at hm
      rcases List.mem_append.mp hm with hm | hm
      · exact (h side.other).2 m hm
      · exact hsent m hm
    · simp only [Pair.put, Function.update_of_ne hside] at hm
      exact (h side').2 m hm

theorem Holds.take {p : Pair σ μ} (h : Holds I M p) (side : Side) (i : Nat) :
    Holds I M (p.take side i) := by
  intro side'
  refine ⟨(h side').1, ?_⟩
  intro m hm
  by_cases hside : side' = side
  · subst hside
    simp only [Pair.take, Function.update_self] at hm
    exact (h side').2 m (List.mem_of_mem_eraseIdx hm)
  · simp only [Pair.take, Function.update_of_ne hside] at hm
    exact (h side').2 m hm

/-- **The rule.**  When no side leaves `I` by a message that satisfies `M` or on its
own, and sends only messages that satisfy `M`, this is so in every run. -/
theorem invariant
    (hreceive : ∀ side now s m, I side s → M side m →
      I side (receive side now s m).1 ∧ ∀ m' ∈ (receive side now s m).2, M side.other m')
    (hact : ∀ side s a, I side s →
      I side (act side s a).1 ∧ ∀ m' ∈ (act side s a).2, M side.other m')
    {p : Pair σ μ} (hp : Holds I M p) (es : List (PairEvent τ α)) :
    Holds I M (run (step receive act) p es) := by
  apply Run.invariant (Holds I M) _ hp
  intro p e h
  cases e with
  | deliver side i again now =>
    simp only [step]
    cases hm : (p.inFlight side)[i]? with
    | none => exact h
    | some m =>
      obtain ⟨hstate, hsent⟩ :=
        hreceive side now (p.state side) m (h side).1 ((h side).2 m (List.mem_of_getElem? hm))
      cases again with
      | true => exact h.put hstate hsent
      | false => exact (h.take side i).put hstate hsent
  | act side a =>
    obtain ⟨hstate, hsent⟩ := hact side (p.state side) a (h side).1
    exact h.put hstate hsent

end Steps

end Pair
end PpcaNetwork
