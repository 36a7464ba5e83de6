import PpcaNetwork.Lib.TokenBucket

/-!
# The rate limiter

`rate_limiter.rs`: a bucket of tokens behind a mutex, refilled at each call by the time
that has passed since the last one.  Its `f64` numbers are read as exact rationals.

* `TokenBucket.tryConsume` — one call; the lock makes the calls of all connections a list.
* `TokenBucket.granted` — the times of the calls of a run that return `true`.
* `TokenBucket.balanced` — every run is one of the bucket of `Lib.TokenBucket`.
* `token_bucket_guarantee` — every run.
-/

namespace PpcaNetwork.Minicaddy

/-- `Duration::as_secs_f64` of a number of nanoseconds. -/
def asSecsF64 (nanos : Nat) : ℚ := nanos / 10 ^ 9

theorem asSecsF64_mono {a b : Nat} (h : a ≤ b) : asSecsF64 a ≤ asSecsF64 b := by
  unfold asSecsF64
  gcongr

theorem asSecsF64_sub {a b : Nat} (h : a ≤ b) :
    asSecsF64 (b - a) = asSecsF64 b - asSecsF64 a := by
  unfold asSecsF64
  rw [Nat.cast_sub h]
  ring

/-- `TokenBucket`. -/
structure TokenBucket where
  tokens : ℚ
  /-- An `Instant`, in nanoseconds. -/
  lastRefill : Nat
  rate : ℚ
  burst : ℚ

namespace TokenBucket

/-- `TokenBucket::new` at the time `now`. -/
def new (rate burst : ℚ) (now : Nat) : TokenBucket where
  tokens := burst
  lastRefill := now
  rate := rate
  burst := burst

/-- `TokenBucket::try_consume` at the time `now`: the result, and what is left behind the lock. -/
def tryConsume (b : TokenBucket) (now : Nat) : Bool × TokenBucket :=
  let elapsed := asSecsF64 (now - b.lastRefill)
  let b := { b with tokens := min (b.tokens + elapsed * b.rate) b.burst, lastRefill := now }
  if 1 ≤ b.tokens then (true, { b with tokens := b.tokens - 1 }) else (false, b)

/-- The limiter after calls at the times `ts`. -/
def after (b : TokenBucket) (ts : List Nat) : TokenBucket :=
  run (fun b t => (b.tryConsume t).2) b ts

/-- The times of the calls that return `true`. -/
def granted (b : TokenBucket) (ts : List Nat) : List Nat :=
  Run.restrict (fun b t => (b.tryConsume t).2) (fun b t => (b.tryConsume t).1 = true) b ts

/-- The bucket of the limiter, with its time in seconds. -/
def bucket (b : TokenBucket) : Bucket ℚ := ⟨b.tokens, asSecsF64 b.lastRefill⟩

/-- The limiter with the times that it has granted. -/
def ledger (b : TokenBucket) (ts : List Nat) : Ledger ℚ :=
  ⟨(b.after ts).bucket, (b.granted ts).map asSecsF64⟩

section Calls

variable {b : TokenBucket} {now : Nat} {ts : List Nat}

theorem tryConsume_eq (h : b.lastRefill ≤ now) :
    ((b.tryConsume now).1, (b.tryConsume now).2.bucket)
      = b.bucket.call b.rate b.burst (asSecsF64 now) := by
  have hlevel : min (b.tokens + asSecsF64 (now - b.lastRefill) * b.rate) b.burst
      = b.bucket.level b.rate b.burst (asSecsF64 now) := by
    rw [asSecsF64_sub h, mul_comm]
    rfl
  unfold tryConsume Bucket.call
  simp only [hlevel]
  split <;> rfl

/-- A call leaves the settings as they are, and the time of the call. -/
theorem tryConsume_settings (b : TokenBucket) (now : Nat) : (b.tryConsume now).2.rate = b.rate ∧
    (b.tryConsume now).2.burst = b.burst ∧ (b.tryConsume now).2.lastRefill = now := by
  unfold tryConsume
  dsimp only
  split <;> exact ⟨rfl, rfl, rfl⟩

theorem after_append : b.after (ts ++ [now]) = ((b.after ts).tryConsume now).2 := by
  rw [after, Run.run_append]
  rfl

theorem after_settings (b : TokenBucket) (ts : List Nat) :
    (b.after ts).rate = b.rate ∧ (b.after ts).burst = b.burst ∧
      (b.after ts).lastRefill = ts.getLastD b.lastRefill := by
  induction ts using List.reverseRecOn with
  | nil => exact ⟨rfl, rfl, rfl⟩
  | append_singleton ts t ih =>
    rw [after_append]
    obtain ⟨hrate, hburst, hlast⟩ := tryConsume_settings (b.after ts) t
    exact ⟨hrate.trans ih.1, hburst.trans ih.2.1, by simpa using hlast⟩

theorem granted_append : b.granted (ts ++ [now]) =
    b.granted ts ++ if ((b.after ts).tryConsume now).1 = true then [now] else [] := by
  unfold granted Run.restrict
  rw [Run.observe_append, Run.observe, Run.observe, List.append_nil]
  rfl

/-- One more call is one more step of the ledger. -/
theorem ledger_append (h : ts.getLastD b.lastRefill ≤ now) :
    b.ledger (ts ++ [now]) = (b.ledger ts).step b.rate b.burst (asSecsF64 now) := by
  obtain ⟨hrate, hburst, hlast⟩ := after_settings b ts
  have hcall := tryConsume_eq (hlast.trans_le h)
  rw [hrate, hburst] at hcall
  have hresult := congrArg Prod.fst hcall
  have hbucket := congrArg Prod.snd hcall
  simp only at hresult hbucket
  unfold ledger Ledger.step
  simp only [after_append, granted_append, hresult, hbucket]
  split <;> simp

theorem last_ledger : (b.ledger ts).bucket.last = asSecsF64 (ts.getLastD b.lastRefill) :=
  congrArg asSecsF64 (after_settings b ts).2.2

end Calls

section Runs

variable {rate burst : ℚ} {created : Nat} {ts : List Nat}

/-- Every run is a run of the bucket, and its books are balanced. -/
theorem balanced (hrate : 0 ≤ rate) (hburst : 0 ≤ burst)
    (hts : (created :: ts).Pairwise (· ≤ ·)) :
    ((new rate burst created).ledger ts).Balanced rate burst (asSecsF64 created) := by
  induction ts using List.reverseRecOn with
  | nil => exact Ledger.balanced_new hrate hburst
  | append_singleton ts t ih =>
    rw [← List.cons_append] at hts
    obtain ⟨hts, -, hle⟩ := List.pairwise_append.mp hts
    have hlast : ts.getLastD created ≤ t :=
      hle _ List.getLastD_mem_cons _ (List.mem_singleton_self t)
    rw [ledger_append (b := new rate burst created) hlast]
    refine (ih hts).step hrate hburst ?_
    rw [last_ledger]
    exact asSecsF64_mono hlast

end Runs

end TokenBucket

open TokenBucket

/-- After every run the limiter holds no more tokens than its capacity and not less than
none, no window has seen more calls granted than `burst` and the refill in it, and the next
call is refused exactly if for some time since the creation the capacity and the refill
since then leave less than a token over the calls granted since then. -/
theorem token_bucket_guarantee {rate burst : ℚ} (hrate : 0 ≤ rate) (hburst : 0 ≤ burst)
    {created : Nat} {ts : List Nat} (hts : (created :: ts).Pairwise (· ≤ ·)) :
    0 ≤ ((new rate burst created).after ts).tokens ∧
    ((new rate burst created).after ts).tokens ≤ burst ∧
    (∀ t₁ t₂ : ℚ, t₁ ≤ t₂ →
      ((((new rate burst created).granted ts).countP fun t =>
        t₁ ≤ asSecsF64 t ∧ asSecsF64 t ≤ t₂ : ℕ) : ℚ) ≤ burst + rate * (t₂ - t₁)) ∧
    ∀ now, ts.getLastD created ≤ now →
      ((((new rate burst created).after ts).tryConsume now).1 = false ↔
        ∃ s ∈ Set.Icc (asSecsF64 created) (asSecsF64 now),
          burst + rate * (asSecsF64 now - s) -
            (((new rate burst created).granted ts).countP fun t => s ≤ asSecsF64 t : ℕ) < 1) ∧
      (1 ≤ burst → 0 < rate → 1 / rate ≤ asSecsF64 now - asSecsF64 (ts.getLastD created) →
        (((new rate burst created).after ts).tryConsume now).1 = true) := by
  have hbalanced := balanced hrate hburst hts
  obtain ⟨hrate', hburst', hlast⟩ := after_settings (new rate burst created) ts
  refine ⟨hbalanced.nonneg, hbalanced.tokens_le, ?_, ?_⟩
  · intro t₁ t₂ h
    have hwindow := hbalanced.window t₁ t₂ h
    rwa [ledger, List.countP_map] at hwindow
  · intro now hnow
    have hcall := congrArg Prod.fst (tryConsume_eq (hlast.trans_le hnow))
    have hle : (ledger (new rate burst created) ts).bucket.last ≤ asSecsF64 now := by
      rw [last_ledger]
      exact asSecsF64_mono hnow
    rw [hrate', hburst'] at hcall
    simp only at hcall
    constructor
    · have hgranted := hbalanced.granted_iff hrate hle
      rw [← Bool.not_eq_true, hcall]
      refine (not_congr hgranted).trans ?_
      simp only [not_forall, not_le, exists_prop, remaining, ledger, List.countP_map]
      rfl
    · intro hone hpos hspan
      rw [hcall]
      refine hbalanced.granted_of_refilled hone ?_
      rw [last_ledger]
      exact (div_le_iff₀' hpos).mp hspan

theorem demo_guarantee :
    ((new 1 1 0).tryConsume (10 ^ 9 / 2)).1 = true ∧
    (((new 1 1 0).after [10 ^ 9 / 2]).tryConsume (10 ^ 9)).1 = false ∧
    ((((new 1 1 0).granted [10 ^ 9 / 2]).countP fun t =>
        0 ≤ asSecsF64 t ∧ asSecsF64 t ≤ 1 : ℕ) : ℚ) ≤ 1 + 1 * (1 - 0) := by
  refine ⟨by decide +kernel, by decide +kernel, ?_⟩
  exact (token_bucket_guarantee zero_le_one zero_le_one (by decide)).2.2.1 0 1 zero_le_one

end PpcaNetwork.Minicaddy
