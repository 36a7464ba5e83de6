import PpcaNetwork.Lib.Loop
import PpcaNetwork.Lib.Run

/-!
# Threads on a shared state

Threads that work on one state, each operation of which is done under a lock.  Between two
operations of a thread the others may do any number of theirs.

* `Prog` — a program, as the operations it does one after the other; `Prog.alone` runs it when
  nothing comes between.
* `Prog.Sat` — **the specification of a program among others**: each of its operations keeps the
  invariant and goes on along `le`, if the other threads do nothing else, and in the end it has
  `post`.
* `Prog.Sat.bind`, `Sat.foldlM`, `Sat.bounded` — the rules for the parts of a program.
* `Pool` — the threads and their state; `Pool.reached` — **the rule**: a specification of every
  program holds in every run.
* `Pool.run_alone` — a thread that nothing comes between runs its program alone.
* `Pool.ends` — in an endless run, a thread that has its turn again and again ends.
-/

namespace PpcaNetwork

/-! ## Programs -/

/-- A program that does operations on a shared state and goes on with their answers. -/
inductive Prog {Op : Type} (Ans : Op → Type) (α : Type) where
  | ret (a : α)
  | ask (op : Op) (next : Ans op → Prog Ans α)

namespace Prog

variable {Op : Type} {Ans : Op → Type} {α β γ σ : Type}

/-- One program after the other. -/
protected def bind : Prog Ans α → (α → Prog Ans β) → Prog Ans β
  | ret a, f => f a
  | ask op next, f => ask op fun x => (next x).bind f

instance : Monad (Prog Ans) where
  pure := ret
  bind := Prog.bind

/-- One operation. -/
def perform (op : Op) : Prog Ans (Ans op) := ask op ret

@[simp] theorem ask_bind (op : Op) (next : Ans op → Prog Ans α) (f : α → Prog Ans β) :
    (ask op next >>= f) = ask op fun x => next x >>= f := rfl

/-- What the program has returned, at its end. -/
def returned : Prog Ans α → Option α
  | ret a => some a
  | ask .. => none

/-- At most `n` rounds of `body`, and `exhausted` after the last of them. -/
def bounded {ρ : Type} (body : γ → Prog Ans (Round γ ρ)) (exhausted : γ → ρ) :
    Nat → γ → Prog Ans ρ
  | 0, s => ret (exhausted s)
  | n + 1, s => do
    match ← body s with
    | .done result => ret result
    | .next s' => bounded body exhausted n s'

variable (exec : (op : Op) → σ → Ans op × σ)

/-! ## A program alone -/

/-- What a program returns and leaves when nothing comes between its operations. -/
def alone : Prog Ans α → σ → α × σ
  | ret a, s => (a, s)
  | ask op next, s => (next (exec op s).1).alone (exec op s).2

@[simp] theorem alone_perform (op : Op) (s : σ) :
    (perform op : Prog Ans (Ans op)).alone exec s = exec op s := rfl

@[simp] theorem alone_bind (p : Prog Ans α) (f : α → Prog Ans β) (s : σ) :
    (p >>= f).alone exec s = (f (p.alone exec s).1).alone exec (p.alone exec s).2 := by
  induction p generalizing s with
  | ret a => rfl
  | ask op next ih =>
    rw [ask_bind, alone, ih]
    rfl

/-- A loop over a list. -/
theorem alone_foldlM (f : β → α → Prog Ans β) (xs : List α) (b : β) (s : σ) :
    (xs.foldlM f b).alone exec s =
      xs.foldl (fun acc x => (f acc.1 x).alone exec acc.2) (b, s) := by
  induction xs generalizing b s with
  | nil => rfl
  | cons x xs ih =>
    rw [List.foldlM_cons, alone_bind, ih]
    rfl

/-- A loop with a bounded number of rounds, when its rounds are those of a loop whose state `proj`
splits into what the program holds and the shared state. -/
theorem alone_bounded {ρ τ ω : Type} {body : γ → Prog Ans (Round γ ρ)} {exhausted : γ → ρ}
    {body' : τ → Round τ ω} {exhausted' : τ → ω} (proj : τ → γ × σ) (result : ω → ρ × σ)
    (hbody : ∀ t, (body (proj t).1).alone exec (proj t).2 = match body' t with
      | .done o => (.done (result o).1, (result o).2)
      | .next t' => (.next (proj t').1, (proj t').2))
    (hend : ∀ t, (exhausted (proj t).1, (proj t).2) = result (exhausted' t)) (n : Nat) (t : τ) :
    (bounded body exhausted n (proj t).1).alone exec (proj t).2 =
      result (Loop.bounded body' exhausted' n t) := by
  induction n generalizing t with
  | zero => exact hend t
  | succ n ih =>
    rw [bounded, alone_bind, hbody, Loop.bounded]
    cases body' t with
    | done o => rfl
    | next t' => exact ih t'

/-! ## A program among others -/

variable (Inv : σ → Prop) (le : σ → σ → Prop)

/-- Whatever the others do along `le` that keeps `Inv`, every operation of the program keeps `Inv`
and goes on along `le`, and what it returns has `post` from then on. -/
def Sat (post : α → σ → Prop) : Prog Ans α → σ → Prop
  | ret a, s => ∀ t, le s t → Inv t → post a t
  | ask op next, s => ∀ t, le s t → Inv t →
    Inv (exec op t).2 ∧ le t (exec op t).2 ∧ Sat post (next (exec op t).1) (exec op t).2

/-- What `le` does not change. -/
def Stable (J : σ → Prop) : Prop := ∀ s t, le s t → J s → J t

variable {exec Inv le} {post : α → σ → Prop} {s t : σ}

/-- Others may have done something before the program begins. -/
theorem Sat.mono (htrans : ∀ s t u, le s t → le t u → le s u) {p : Prog Ans α}
    (h : p.Sat exec Inv le post s) (hle : le s t) : p.Sat exec Inv le post t := by
  cases p with
  | ret a => exact fun u hu hinv => h u (htrans _ _ _ hle hu) hinv
  | ask op next => exact fun u hu hinv => h u (htrans _ _ _ hle hu) hinv

theorem Sat.ret {a : α} (hstable : Stable le (post a)) (h : post a s) :
    (Prog.ret a : Prog Ans α).Sat exec Inv le post s := fun t hle _ => hstable s t hle h

theorem Sat.perform {op : Op} {post : Ans op → σ → Prop} (hstable : ∀ a, Stable le (post a))
    (h : ∀ t, le s t → Inv t →
      Inv (exec op t).2 ∧ le t (exec op t).2 ∧ post (exec op t).1 (exec op t).2) :
    (Prog.perform op : Prog Ans (Ans op)).Sat exec Inv le post s := by
  intro t hle hinv
  obtain ⟨hinv', hle', hpost⟩ := h t hle hinv
  exact ⟨hinv', hle', Sat.ret (hstable _) hpost⟩

/-- One part of a program after the other. -/
theorem Sat.bind {post' : β → σ → Prop} {p : Prog Ans α} {f : α → Prog Ans β}
    (hrefl : ∀ s, le s s) (htrans : ∀ s t u, le s t → le t u → le s u) (hinv : Inv s)
    (h : p.Sat exec Inv le post s)
    (hf : ∀ a t, le s t → Inv t → post a t → (f a).Sat exec Inv le post' t) :
    (p >>= f).Sat exec Inv le post' s := by
  induction p generalizing s with
  | ret a => exact hf a s (hrefl s) hinv (h s (hrefl s) hinv)
  | ask op next ih =>
    intro t hle ht
    obtain ⟨hinv', hle', hnext⟩ := h t hle ht
    refine ⟨hinv', hle', ih _ hinv' hnext fun a u hu => hf a u ?_⟩
    exact htrans _ _ _ (htrans _ _ _ hle hle') hu

theorem Sat.imp {post' : α → σ → Prop} {p : Prog Ans α} (h : p.Sat exec Inv le post s)
    (himp : ∀ a t, Inv t → post a t → post' a t) : p.Sat exec Inv le post' s := by
  induction p generalizing s with
  | ret a => exact fun t hle hinv => himp a t hinv (h t hle hinv)
  | ask op next ih =>
    intro t hle ht
    obtain ⟨hinv', hle', hnext⟩ := h t hle ht
    exact ⟨hinv', hle', ih _ hnext⟩

/-- A loop over a list, with the invariant `J` of what it holds. -/
theorem Sat.foldlM (hrefl : ∀ s, le s s) (htrans : ∀ s t u, le s t → le t u → le s u)
    {J : β → σ → Prop} (hstable : ∀ b, Stable le (J b)) {f : β → α → Prog Ans β} {xs : List α}
    (hf : ∀ b, ∀ x ∈ xs, ∀ t, Inv t → J b t → (f b x).Sat exec Inv le J t) {b : β}
    (hinv : Inv s) (hb : J b s) : (xs.foldlM f b).Sat exec Inv le J s := by
  induction xs generalizing b s with
  | nil => exact Sat.ret (hstable b) hb
  | cons x xs ih =>
    rw [List.foldlM_cons]
    refine Sat.bind hrefl htrans hinv (hf b x (by simp) s hinv hb) fun b' t _ ht hb' => ?_
    exact ih (fun b y hy => hf b y (List.mem_cons_of_mem _ hy)) ht hb'

/-- A loop with a bounded number of rounds. -/
theorem Sat.bounded {ρ : Type} (hrefl : ∀ s, le s s)
    (htrans : ∀ s t u, le s t → le t u → le s u) {J : γ → σ → Prop} {post : ρ → σ → Prop}
    (hstable : ∀ r, Stable le (post r)) {body : γ → Prog Ans (Round γ ρ)} {exhausted : γ → ρ}
    (hbody : ∀ c t, Inv t → J c t → (body c).Sat exec Inv le (fun r t => match r with
      | .done result => post result t
      | .next c' => J c' t) t)
    (hend : ∀ c t, Inv t → J c t → post (exhausted c) t) (n : Nat) {c : γ} (hinv : Inv s)
    (hc : J c s) : (bounded body exhausted n c).Sat exec Inv le post s := by
  induction n generalizing c s with
  | zero => exact Sat.ret (hstable _) (hend c s hinv hc)
  | succ n ih =>
    refine Sat.bind hrefl htrans hinv (hbody c s hinv hc) fun r t _ ht hr => ?_
    cases r with
    | done result => exact Sat.ret (hstable _) hr
    | next c' => exact ih ht hr

end Prog

/-! ## Pools of threads -/

/-- The state and the threads that work on it, each with the request that it serves. -/
structure Pool {Op : Type} (Ans : Op → Type) (σ ι α : Type) where
  shared : σ
  threads : List (ι × Prog Ans α)

/-- What happens to a pool. -/
inductive PoolEvent (ι : Type) where
  /-- A thread is started for a request. -/
  | spawn (request : ι)
  /-- The next operation of a thread. -/
  | step (thread : Nat)

namespace Pool

open Prog

variable {Op : Type} {Ans : Op → Type} {σ ι α : Type}

section Steps

variable (exec : (op : Op) → σ → Ans op × σ) (start : ι → Prog Ans α)

/-- One event of the pool: a thread starts, or has a turn. -/
def step (p : Pool Ans σ ι α) : PoolEvent ι → Pool Ans σ ι α
  | .spawn request => { p with threads := p.threads ++ [(request, start request)] }
  | .step i =>
    match p.threads[i]? with
    | some (request, .ask op next) =>
      { shared := (exec op p.shared).2
        threads := p.threads.set i (request, next (exec op p.shared).1) }
    | _ => p

variable {exec start} {Inv : σ → Prop} {le : σ → σ → Prop} {post : ι → α → σ → Prop}

/-- The invariant holds and every thread is on its way to its postcondition. -/
def Holds (exec : (op : Op) → σ → Ans op × σ) (Inv : σ → Prop) (le : σ → σ → Prop)
    (post : ι → α → σ → Prop) (p : Pool Ans σ ι α) : Prop :=
  Inv p.shared ∧ ∀ x ∈ p.threads, x.2.Sat exec Inv le (post x.1) p.shared

theorem Holds.step (htrans : ∀ s t u, le s t → le t u → le s u) (hrefl : ∀ s, le s s)
    (hstart : ∀ request s, Inv s → (start request).Sat exec Inv le (post request) s)
    {p : Pool Ans σ ι α} (h : Holds exec Inv le post p) (e : PoolEvent ι) :
    Holds exec Inv le post (p.step exec start e) := by
  obtain ⟨hinv, hthreads⟩ := h
  cases e with
  | spawn request =>
    refine ⟨hinv, fun x hx => ?_⟩
    rcases List.mem_append.mp hx with hx | hx
    · exact hthreads x hx
    · rw [List.mem_singleton.mp hx]
      exact hstart request p.shared hinv
  | step i =>
    simp only [Pool.step]
    split
    · rename_i request op next hi
      have hsat := hthreads _ (List.mem_of_getElem? hi) p.shared (hrefl _) hinv
      obtain ⟨hinv', hle, hnext⟩ := hsat
      refine ⟨hinv', fun x hx => ?_⟩
      -- the others only see that the state has gone on along `le`
      rcases List.mem_or_eq_of_mem_set hx with hx | rfl
      · exact (hthreads x hx).mono htrans hle
      · exact hnext
    · exact ⟨hinv, hthreads⟩

/-- **The rule.**  When every program has its specification wherever it is started, the invariant
holds in every run, and what a thread has returned has its postcondition. -/
theorem reached (htrans : ∀ s t u, le s t → le t u → le s u) (hrefl : ∀ s, le s s)
    (hstart : ∀ request s, Inv s → (start request).Sat exec Inv le (post request) s) {s : σ}
    (hs : Inv s) (es : List (PoolEvent ι)) :
    let p := run (step exec start) ⟨s, []⟩ es
    Inv p.shared ∧ ∀ request a, (request, Prog.ret a) ∈ p.threads → post request a p.shared := by
  intro p
  have hp : Holds exec Inv le post p := by
    refine Run.invariant (Holds exec Inv le post) (fun p e h => h.step htrans hrefl hstart e) ?_ es
    exact ⟨hs, by simp⟩
  refine ⟨hp.1, fun request a hmem => ?_⟩
  exact hp.2 _ hmem p.shared (hrefl _) hp.1

/-- A thread, by what it has returned. -/
theorem mem_of_returned {p : Pool Ans σ ι α} {request : ι} {a : α}
    (h : (request, some a) ∈ p.threads.map fun thread => (thread.1, thread.2.returned)) :
    (request, Prog.ret a) ∈ p.threads := by
  obtain ⟨⟨request', prog⟩, hmem, heq⟩ := List.mem_map.mp h
  obtain ⟨hrequest, hreturned⟩ := Prod.mk.inj heq
  cases prog with
  | ret b =>
    obtain rfl := Option.some.inj hreturned
    exact hrequest ▸ hmem
  | ask op next => exact absurd hreturned (by simp [returned])

variable (exec start) in
/-- A thread that has one turn after the other, with nothing in between, runs its program alone. -/
theorem run_alone {p : Pool Ans σ ι α} {i : Nat} {request : ι} {prog : Prog Ans α}
    (h : p.threads[i]? = some (request, prog)) :
    ∃ n, run (step exec start) p (List.replicate n (.step i)) =
      ⟨(prog.alone exec p.shared).2,
        p.threads.set i (request, .ret (prog.alone exec p.shared).1)⟩ := by
  obtain ⟨hi, hget⟩ := List.getElem?_eq_some_iff.mp h
  induction prog generalizing p with
  | ret a =>
    refine ⟨0, ?_⟩
    rw [alone, ← hget, List.set_getElem_self]
    rfl
  | ask op next ih =>
    have hstep : p.step exec start (.step i) =
        ⟨(exec op p.shared).2, p.threads.set i (request, next (exec op p.shared).1)⟩ := by
      simp only [step, h]
    have hi' : i < (p.threads.set i (request, next (exec op p.shared).1)).length := by
      rwa [List.length_set]
    obtain ⟨n, hn⟩ := ih (exec op p.shared).1 (p := p.step exec start (.step i))
      (by rw [hstep]; exact List.getElem?_set_self hi) (by rwa [hstep])
      (by simp only [hstep, List.getElem_set_self])
    refine ⟨n + 1, ?_⟩
    rw [List.replicate_succ, Run.run_cons, hn, hstep, List.set_set]
    rfl

/-! ### Endless runs -/

variable (exec start) in
/-- The pool after the first `n` events of an endless run. -/
def after (s : σ) (events : Nat → PoolEvent ι) (n : Nat) : Pool Ans σ ι α :=
  run (step exec start) ⟨s, []⟩ ((List.range n).map events)

theorem after_succ (s : σ) (events : Nat → PoolEvent ι) (n : Nat) :
    after exec start s events (n + 1) =
      (after exec start s events n).step exec start (events n) := by
  rw [after, List.range_succ, List.map_append, Run.run_append]
  rfl

/-- **One event**, seen from one thread: it has its turn, or nothing happens to it. -/
theorem step_thread {p : Pool Ans σ ι α} {i : Nat} {request : ι} {prog : Prog Ans α}
    (h : p.threads[i]? = some (request, prog)) (e : PoolEvent ι) :
    (∃ op next, e = .step i ∧ prog = .ask op next ∧
      (p.step exec start e).threads[i]? = some (request, next (exec op p.shared).1)) ∨
    ((e = .step i → ∃ a, prog = .ret a) ∧
      (p.step exec start e).threads[i]? = some (request, prog)) := by
  obtain ⟨hi, -⟩ := List.getElem?_eq_some_iff.mp h
  cases e with
  | spawn request' =>
    refine .inr ⟨fun he => absurd he (by simp), ?_⟩
    exact (List.getElem?_append_left hi).trans h
  | step j =>
    by_cases hj : j = i
    · subst hj
      cases prog with
      | ret a => exact .inr ⟨fun _ => ⟨a, rfl⟩, by simp only [step, h]⟩
      | ask op next =>
        refine .inl ⟨op, next, rfl, rfl, ?_⟩
        simp only [step, h]
        exact List.getElem?_set_self hi
    · refine .inr ⟨fun he => absurd (PoolEvent.step.inj he) hj, ?_⟩
      simp only [step]
      split
      · exact (List.getElem?_set_ne hj).trans h
      · exact h

/-- A thread that has its turn again and again ends, and does nothing after that. -/
theorem ends {s : σ} {events : Nat → PoolEvent ι} {i n : Nat} {request : ι} {prog : Prog Ans α}
    (hfair : ∀ k, ∃ m, k ≤ m ∧ events m = .step i)
    (h : (after exec start s events n).threads[i]? = some (request, prog)) :
    ∃ m a, ∀ k, m ≤ k → (after exec start s events k).threads[i]? = some (request, .ret a) := by
  induction prog generalizing n with
  | ret a =>
    refine ⟨n, a, fun k hk => ?_⟩
    induction k, hk using Nat.le_induction with
    | base => exact h
    | succ k _ ih =>
      rw [after_succ]
      rcases step_thread ih (events k) with ⟨_, _, -, hask, -⟩ | ⟨-, hsame⟩
      · exact absurd hask (by simp)
      · exact hsame
  | ask op next ih =>
    -- until its turn the thread waits
    have hwaits : ∀ k, n ≤ k →
        (after exec start s events k).threads[i]? = some (request, .ask op next) ∨
          ∃ k' x, (after exec start s events k').threads[i]? = some (request, next x) := by
      intro k hk
      induction k, hk using Nat.le_induction with
      | base => exact .inl h
      | succ k _ ihk =>
        rcases ihk with hask | hgone
        · rw [after_succ]
          rcases step_thread hask (events k) with ⟨op', next', -, hprog, hnext⟩ | ⟨-, hsame⟩
          · obtain ⟨rfl, hnexts⟩ := Prog.ask.inj hprog
            obtain rfl := eq_of_heq hnexts
            exact .inr ⟨k + 1, _, by rw [after_succ]; exact hnext⟩
          · exact .inl hsame
        · exact .inr hgone
    obtain ⟨m, hm, hturn⟩ := hfair n
    rcases hwaits m hm with hask | ⟨k', x, hnext⟩
    · rcases step_thread hask (events m) with ⟨op', next', -, hprog, hnext⟩ | ⟨hended, -⟩
      · obtain ⟨rfl, hnexts⟩ := Prog.ask.inj hprog
        obtain rfl := eq_of_heq hnexts
        rw [← after_succ] at hnext
        exact ih _ hnext
      · obtain ⟨a, ha⟩ := hended hturn
        exact absurd ha (by simp)
    · exact ih x hnext

end Steps

end Pool

end PpcaNetwork
