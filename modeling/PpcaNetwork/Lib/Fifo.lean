import PpcaNetwork.Lib.Pair

/-!
# Queues that keep the order

Two processes whose messages arrive once, in the order in which they were sent.

* `Along` — the messages of a queue follow each other along a stream.
* `PairEvent.IsFifo` — an event that delivers, if anything, the first message, and takes it away.
* `Pair.step_deliver` — what such an event does.
-/

namespace PpcaNetwork

variable {σ μ τ α : Type*}

/-! ## Messages along a stream -/

/-- The messages of `q`, each of which takes up a part of a stream, lead from the position `k` to
the position `k'`; `P` says what a message at a position is. -/
def Along (size : μ → Nat) (P : Nat → μ → Prop) : Nat → List μ → Nat → Prop
  | k, [], k' => k = k'
  | k, m :: q, k' => P k m ∧ Along size P (k + size m) q k'

section Along

variable {size : μ → Nat} {P : Nat → μ → Prop} {k k' : Nat} {q q' : List μ}

theorem along_append :
    Along size P k (q ++ q') k' ↔ ∃ j, Along size P k q j ∧ Along size P j q' k' := by
  induction q generalizing k with
  | nil => simp [Along]
  | cons m q ih => simp [Along, ih, and_assoc]

theorem Along.mono {P' : Nat → μ → Prop} (h : Along size P k q k')
    (himp : ∀ k m, P k m → P' k m) : Along size P' k q k' := by
  induction q generalizing k with
  | nil => exact h
  | cons m q ih => exact ⟨himp k m h.1, ih h.2⟩

/-- One more message at the end. -/
theorem Along.concat (h : Along size P k q k') {m : μ} (hm : P k' m) :
    Along size P k (q ++ [m]) (k' + size m) :=
  along_append.mpr ⟨k', h, hm, rfl⟩

/-- Messages that take up nothing. -/
theorem Along.append_of_zero (h : Along size P k q k') (hq' : ∀ m ∈ q', P k' m ∧ size m = 0) :
    Along size P k (q ++ q') k' := by
  refine along_append.mpr ⟨k', h, ?_⟩
  induction q' with
  | nil => rfl
  | cons m q' ih =>
    obtain ⟨hm, hzero⟩ := hq' m (by simp)
    refine ⟨hm, ?_⟩
    rw [hzero, Nat.add_zero]
    exact ih fun x hx => hq' x (List.mem_cons_of_mem _ hx)

end Along

/-! ## Delivery in order -/

/-- The event delivers the first message, and only once; or a side acts. -/
def PairEvent.IsFifo : PairEvent τ α → Prop
  | .deliver _ i again _ => i = 0 ∧ again = false
  | .act .. => True

namespace Pair

variable {p : Pair σ μ} {side : Side} {r : σ × List μ}

@[simp] theorem put_state_self : (p.put side r).state side = r.1 := by
  simp [put]

@[simp] theorem put_state_other : (p.put side r).state side.other = p.state side.other := by
  cases side <;> simp [put, Side.other]

@[simp] theorem put_inFlight_self : (p.put side r).inFlight side = p.inFlight side := by
  cases side <;> simp [put, Side.other]

@[simp] theorem put_inFlight_other :
    (p.put side r).inFlight side.other = p.inFlight side.other ++ r.2 := by
  simp [put]

/-- The first message arrives. -/
theorem step_deliver (receive : Side → τ → σ → μ → σ × List μ) (act : Side → σ → α → σ × List μ)
    {m : μ} {q : List μ} (hq : p.inFlight side = m :: q) (now : τ) :
    let p' := step receive act p (.deliver side 0 false now)
    let r := receive side now (p.state side) m
    p'.state side = r.1 ∧ p'.state side.other = p.state side.other ∧ p'.inFlight side = q ∧
      p'.inFlight side.other = p.inFlight side.other ++ r.2 := by
  simp only [step, hq, List.getElem?_cons_zero, Bool.false_eq_true, if_false]
  have hother : (p.take side 0).inFlight side.other = p.inFlight side.other := by
    cases side <;> simp [take, Side.other]
  refine ⟨put_state_self, put_state_other, ?_, ?_⟩
  · simp [take, hq]
  · rw [put_inFlight_other, hother]

theorem step_deliver_nil (receive : Side → τ → σ → μ → σ × List μ)
    (act : Side → σ → α → σ × List μ) (hq : p.inFlight side = []) (now : τ) :
    step receive act p (.deliver side 0 false now) = p := by
  simp [step, hq]

end Pair

end PpcaNetwork
