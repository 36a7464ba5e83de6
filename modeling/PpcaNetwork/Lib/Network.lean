import PpcaNetwork.Lib.Run

/-!
# Parties on a medium

Any number of parties, each a state machine of its own, that put messages on a medium.  A message
may arrive at any party, whenever it likes, as often as it likes, or never: all that is known of
it is that some party has sent it.

* `Network.step` — one party takes one event.
* `Network.Possible` — what the event brings has been sent.
* `Network.run_apply` — **locality**: a party's state is that of a run of its own events.
* `Network.invariant` — **the rule**: what each party keeps as long as all messages are good.
* `Traffic` — the copies that are under way when each message reaches each party at most once.
* `Traffic.length_le` — **settling**: a potential that every arrival lowers bounds their number.
-/

namespace PpcaNetwork.Network

variable {ι σ ε μ : Type*} [DecidableEq ι]

/-- The party `e.1` takes the event `e.2`. -/
def step (party : σ → ε → σ) (w : ι → σ) (e : ι × ε) : ι → σ :=
  Function.update w e.1 (party (w e.1) e.2)

@[simp] theorem step_self (party : σ → ε → σ) (w : ι → σ) (i : ι) (e : ε) :
    step party w (i, e) i = party (w i) e :=
  Function.update_self ..

theorem step_ne (party : σ → ε → σ) (w : ι → σ) {i j : ι} (hne : j ≠ i) (e : ε) :
    step party w (i, e) j = w j :=
  Function.update_of_ne hne ..

/-- The events of one party. -/
def own (i : ι) (es : List (ι × ε)) : List ε :=
  es.filterMap fun e => if e.1 = i then some e.2 else none

/-- **Locality.**  A party only changes by its own events. -/
theorem run_apply (party : σ → ε → σ) (w : ι → σ) (es : List (ι × ε)) (i : ι) :
    run (step party) w es i = run party (w i) (own i es) := by
  induction es generalizing w with
  | nil => rfl
  | cons e es ih =>
    obtain ⟨j, e⟩ := e
    rw [Run.run_cons, ih]
    by_cases hj : j = i
    · subst hj
      simp [own]
    · simp [own, hj, step_ne party w (Ne.symm hj)]

section Messages

-- what a party has sent so far, and what an event brings it
variable (sent : σ → List μ) (arrival : ε → Option μ)

/-- Some party has sent the message. -/
def Sent (w : ι → σ) (m : μ) : Prop := ∃ i, m ∈ sent (w i)

/-- A message that arrives has been sent. -/
def Possible (w : ι → σ) (e : ι × ε) : Prop := ∀ m ∈ arrival e.2, Sent sent w m

variable {sent arrival} {party : σ → ε → σ} {I : ι → σ → Prop} {Good : μ → Prop}

/-- One event keeps what holds of each party. -/
theorem invariant_step (hsent : ∀ i s, I i s → ∀ m ∈ sent s, Good m)
    (hstep : ∀ i s e, I i s → (∀ m ∈ arrival e, Good m) → I i (party s e)) {w : ι → σ}
    (h : ∀ i, I i (w i)) {e : ι × ε} (he : Possible sent arrival w e) :
    ∀ i, I i (step party w e i) := by
  obtain ⟨j, e⟩ := e
  intro i
  by_cases hi : i = j
  · subst hi
    rw [step_self]
    refine hstep i (w i) e (h i) fun m hm => ?_
    obtain ⟨k, hk⟩ := he m hm
    exact hsent k (w k) (h k) m hk
  · rw [step_ne party w hi]
    exact h i

/-- **The rule.**  When parties that keep `I` send only good messages, and good messages do not
take a party out of `I`, every party keeps it, whatever the medium does. -/
theorem invariant (hsent : ∀ i s, I i s → ∀ m ∈ sent s, Good m)
    (hstep : ∀ i s e, I i s → (∀ m ∈ arrival e, Good m) → I i (party s e)) {w : ι → σ}
    (h : ∀ i, I i (w i)) {es : List (ι × ε)}
    (hes : Run.Guarded (step party) (Possible sent arrival) w es) (i : ι) :
    I i (run (step party) w es i) :=
  Run.invariant_of_guarded (fun w : ι → σ => ∀ i, I i (w i))
    (fun _ _ hw he => invariant_step hsent hstep hw he) h hes i

end Messages

/-! ## Copies -/

/-- The parties, and the copies under way to them: each can arrive once, or be lost. -/
structure Traffic (ι σ μ : Type*) where
  parties : ι → σ
  inFlight : Multiset (ι × μ)

namespace Traffic

variable [Fintype ι] [DecidableEq μ] (party : σ → μ → σ) (news : σ → μ → List μ)

/-- A copy of each message for everyone. -/
def copies (ι : Type*) [Fintype ι] (ms : List μ) : Multiset (ι × μ) :=
  (Finset.univ : Finset ι).val.bind fun i => (ms : Multiset μ).map (Prod.mk i)

/-- A copy arrives, and its receiver may send messages of its own. -/
def deliver (w : Traffic ι σ μ) (d : ι × μ) : Traffic ι σ μ where
  parties := step party w.parties d
  inFlight := w.inFlight.erase d + copies ι (news (w.parties d.1) d.2)

/-- What arrives has been under way. -/
def Arrives (w : Traffic ι σ μ) (d : ι × μ) : Prop := d ∈ w.inFlight

/-- The potential: what the parties hold, and what is under way. -/
def potential (held : σ → ℕ) (weight : μ → ℕ) (w : Traffic ι σ μ) : ℕ :=
  ∑ i, held (w.parties i) + (w.inFlight.map fun d => weight d.2).sum

variable {party news} {held : σ → ℕ} {weight : μ → ℕ} {I : ι → σ → Prop}

omit [DecidableEq ι] [DecidableEq μ] in
theorem mem_copies {ms : List μ} {i : ι} {m : μ} : (i, m) ∈ copies ι ms ↔ m ∈ ms := by
  simp [copies]

omit [DecidableEq ι] [DecidableEq μ] in
theorem sum_copies (weight : μ → ℕ) (ms : List μ) :
    ((copies ι ms).map fun d => weight d.2).sum = Fintype.card ι * (ms.map weight).sum := by
  have hone : ∀ i : ι, (((ms : Multiset μ).map (Prod.mk i)).map fun d => weight d.2).sum =
      (ms.map weight).sum := by
    intro i
    rw [Multiset.map_map, Multiset.map_coe, Multiset.sum_coe]
    rfl
  simp only [copies, Multiset.map_bind, Multiset.sum_bind, hone, Multiset.map_const',
    Multiset.sum_replicate, smul_eq_mul]
  rfl

/-- One arrival. -/
theorem potential_deliver {w : Traffic ι σ μ} {d : ι × μ} (hd : d ∈ w.inFlight)
    (hless : held (party (w.parties d.1) d.2) +
        Fintype.card ι * ((news (w.parties d.1) d.2).map weight).sum + 1 ≤
      held (w.parties d.1) + weight d.2) :
    (w.deliver party news d).potential held weight + 1 ≤ w.potential held weight := by
  obtain ⟨i, m⟩ := d
  have hheld : ∑ j, held (step party w.parties (i, m) j) + held (w.parties i) =
      ∑ j, held (w.parties j) + held (party (w.parties i) m) := by
    rw [← Finset.add_sum_erase _ _ (Finset.mem_univ i),
      ← Finset.add_sum_erase Finset.univ (fun j => held (w.parties j)) (Finset.mem_univ i),
      step_self]
    have hrest : ∑ j ∈ Finset.univ.erase i, held (step party w.parties (i, m) j) =
        ∑ j ∈ Finset.univ.erase i, held (w.parties j) :=
      Finset.sum_congr rfl fun j hj => by rw [step_ne party w.parties (Finset.ne_of_mem_erase hj)]
    rw [hrest]
    omega
  have hsum : weight m + ((w.inFlight.erase (i, m)).map fun d => weight d.2).sum =
      (w.inFlight.map fun d => weight d.2).sum :=
    Multiset.sum_map_erase (f := fun d : ι × μ => weight d.2) hd
  simp only [potential, deliver, Multiset.map_add, Multiset.sum_add, sum_copies]
  simp only at hless
  omega

/-- **Settling.**  When every arrival at a party that keeps `I` lowers the potential, the number of
arrivals is bounded by it. -/
theorem length_le (hstep : ∀ i s m, I i s → I i (party s m) ∧
      held (party s m) + Fintype.card ι * ((news s m).map weight).sum + 1 ≤ held s + weight m)
    {w : Traffic ι σ μ} (h : ∀ i, I i (w.parties i)) {ds : List (ι × μ)}
    (hds : Run.Guarded (deliver party news) Arrives w ds) :
    ds.length ≤ w.potential held weight := by
  induction ds generalizing w with
  | nil => exact Nat.zero_le _
  | cons d ds ih =>
    obtain ⟨hd, hds⟩ := hds
    obtain ⟨-, hless⟩ := hstep d.1 (w.parties d.1) d.2 (h d.1)
    have hkeeps : ∀ i, I i ((w.deliver party news d).parties i) := by
      intro i
      by_cases hi : i = d.1
      · rw [hi]
        simp only [deliver, step, Function.update_self]
        exact (hstep d.1 (w.parties d.1) d.2 (h d.1)).1
      · simp only [deliver, step, Function.update_of_ne hi]
        exact h i
    calc ds.length + 1 ≤ (w.deliver party news d).potential held weight + 1 :=
          Nat.succ_le_succ (ih hkeeps hds)
      _ ≤ w.potential held weight := potential_deliver hd hless

end Traffic

end PpcaNetwork.Network
