import Mathlib
import PpcaNetwork.Lib.Run

/-!
# Token buckets

A bucket that fills at a constant rate up to its capacity, and loses a token whenever a call is
granted.  Times and tokens are numbers of any ordered field.

* `Bucket.call` — a call: granted if there is a whole token.
* `Ledger` — a bucket with the times of the calls that it has granted.
* `remaining` — what is left of a bucket that was full at some time, if none of the tokens
  added since had been lost.
* `Ledger.Balanced` — the bucket holds the least of what is left, and in no window more calls
  have been granted than its tokens allow; `Ledger.Balanced.step` is the step lemma.
* `Ledger.Balanced.granted_iff` — a call is granted exactly if no window stands against it;
  `Ledger.Balanced.granted_of_refilled` — one long enough after the last call is granted.
-/

namespace PpcaNetwork

variable {K : Type*} [Field K] [LinearOrder K]

/-- A bucket of tokens. -/
structure Bucket (K : Type*) where
  tokens : K
  /-- The time of the last call. -/
  last : K

namespace Bucket

/-- What the bucket holds at `t`, after it has been filled up. -/
def level (rate burst : K) (b : Bucket K) (t : K) : K :=
  min (b.tokens + rate * (t - b.last)) burst

/-- A call at `t`: whether it is granted, and the bucket after it. -/
def call (rate burst : K) (b : Bucket K) (t : K) : Bool × Bucket K :=
  if 1 ≤ b.level rate burst t then (true, ⟨b.level rate burst t - 1, t⟩)
  else (false, ⟨b.level rate burst t, t⟩)

end Bucket

/-- A bucket with the times of the calls that it has granted. -/
structure Ledger (K : Type*) where
  bucket : Bucket K
  granted : List K

/-- One more call. -/
def Ledger.step (rate burst : K) (l : Ledger K) (t : K) : Ledger K where
  bucket := (l.bucket.call rate burst t).2
  granted := if (l.bucket.call rate burst t).1 then l.granted ++ [t] else l.granted

/-- What is left at `t` of a bucket that was full at `s`, if nothing has run over since. -/
def remaining (rate burst : K) (granted : List K) (t s : K) : K :=
  burst + rate * (t - s) - (granted.countP fun g => s ≤ g : ℕ)

/-- The books of a bucket that was full when it was created. -/
structure Ledger.Balanced (rate burst created : K) (l : Ledger K) : Prop where
  created_le : created ≤ l.bucket.last
  nonneg : 0 ≤ l.bucket.tokens
  granted_le : ∀ g ∈ l.granted, created ≤ g ∧ g ≤ l.bucket.last
  /-- The bucket holds the least of what is left. -/
  least : IsLeast (remaining rate burst l.granted l.bucket.last '' Set.Icc created l.bucket.last)
    l.bucket.tokens
  /-- In no window more calls have been granted than a full bucket and its filling allow. -/
  window : ∀ t₁ t₂, t₁ ≤ t₂ →
    ((l.granted.countP fun g => t₁ ≤ g ∧ g ≤ t₂ : ℕ) : K) ≤ burst + rate * (t₂ - t₁)

namespace Ledger

variable {rate burst created : K} {l : Ledger K} {t : K}

omit [Field K] in
/-- Nothing has been granted behind the last call. -/
theorem countP_of_last_lt {granted : List K} {last s : K} (h : ∀ g ∈ granted, g ≤ last)
    (hs : last < s) : granted.countP (fun g => s ≤ g) = 0 := by
  rw [List.countP_eq_zero]
  intro g hg hle
  exact absurd (of_decide_eq_true hle) (not_le_of_gt ((h g hg).trans_lt hs))

/-- What is left after one more call is granted. -/
theorem remaining_append {granted : List K} {s : K} (hs : s ≤ t) :
    remaining rate burst (granted ++ [t]) t s = remaining rate burst granted t s - 1 := by
  have hcount : (granted ++ [t]).countP (fun g => s ≤ g)
      = granted.countP (fun g => s ≤ g) + 1 := by
    simp [List.countP_append, hs]
  rw [remaining, hcount, Nat.cast_add, Nat.cast_one]
  unfold remaining
  ring

variable [IsStrictOrderedRing K]

theorem balanced_new (hrate : 0 ≤ rate) (hburst : 0 ≤ burst) :
    Balanced rate burst created ⟨⟨burst, created⟩, []⟩ where
  created_le := le_refl _
  nonneg := hburst
  granted_le := by simp
  least := by simp [remaining]
  window := by
    intro t₁ t₂ h
    have hfill := mul_nonneg hrate (sub_nonneg.mpr h)
    simp only [List.countP_nil, Nat.cast_zero]
    linarith

/-- A bucket holds no more than its capacity. -/
theorem Balanced.tokens_le (h : l.Balanced rate burst created) : l.bucket.tokens ≤ burst := by
  have hleast := h.least.2 ⟨l.bucket.last, ⟨h.created_le, le_refl _⟩, rfl⟩
  have hcount : (0 : K) ≤ (l.granted.countP fun g => l.bucket.last ≤ g : ℕ) := Nat.cast_nonneg _
  unfold remaining at hleast
  linarith

/-- A full bucket and what has been added since: no more than that is left. -/
theorem Balanced.level_le (h : l.Balanced rate burst created) (hrate : 0 ≤ rate) {s : K}
    (hs : s ∈ Set.Icc created t) :
    l.bucket.level rate burst t ≤ remaining rate burst l.granted t s := by
  obtain ⟨hcreated, hst⟩ := hs
  by_cases hlast : s ≤ l.bucket.last
  · -- the window began before the last call: the bucket was filled since then
    have hleast := h.least.2 ⟨s, ⟨hcreated, hlast⟩, rfl⟩
    have hmin : l.bucket.level rate burst t ≤ l.bucket.tokens + rate * (t - l.bucket.last) :=
      min_le_left _ _
    unfold remaining at hleast ⊢
    linarith
  · have hnone : l.granted.countP (fun g => s ≤ g) = 0 :=
      countP_of_last_lt (fun g hg => (h.granted_le g hg).2) (not_le.mp hlast)
    have hmin : l.bucket.level rate burst t ≤ burst := min_le_right _ _
    have hfill := mul_nonneg hrate (sub_nonneg.mpr hst)
    rw [remaining, hnone, Nat.cast_zero]
    linarith

/-- At the time of a call, too, the bucket holds the least of what is left. -/
theorem Balanced.level_least (h : l.Balanced rate burst created) (hrate : 0 ≤ rate)
    (ht : l.bucket.last ≤ t) :
    IsLeast (remaining rate burst l.granted t '' Set.Icc created t)
      (l.bucket.level rate burst t) := by
  refine ⟨?_, ?_⟩
  · rcases min_choice (l.bucket.tokens + rate * (t - l.bucket.last)) burst with hmin | hmin
    · -- nothing has run over: the window is the one of the last call
      obtain ⟨s, ⟨hcreated, hs⟩, heq⟩ := h.least.1
      refine ⟨s, ⟨hcreated, hs.trans ht⟩, ?_⟩
      rw [Bucket.level, hmin, ← heq]
      unfold remaining
      ring
    · -- the bucket is full: the window begins now
      by_cases hlast : t = l.bucket.last
      · obtain ⟨s, ⟨hcreated, hs⟩, heq⟩ := h.least.1
        refine ⟨s, ⟨hcreated, hs.trans ht⟩, ?_⟩
        rw [Bucket.level, hlast, sub_self, mul_zero, add_zero, min_eq_left h.tokens_le, heq]
      · have hnone : l.granted.countP (fun g => t ≤ g) = 0 :=
          countP_of_last_lt (fun g hg => (h.granted_le g hg).2) (lt_of_le_of_ne ht (Ne.symm hlast))
        refine ⟨t, ⟨h.created_le.trans ht, le_refl _⟩, ?_⟩
        rw [Bucket.level, hmin, remaining, hnone]
        simp
  · rintro x ⟨s, hs, rfl⟩
    exact h.level_le hrate hs

/-- A call is granted exactly if no window that ends with it stands against it. -/
theorem Balanced.granted_iff (h : l.Balanced rate burst created) (hrate : 0 ≤ rate)
    (ht : l.bucket.last ≤ t) :
    (l.bucket.call rate burst t).1 = true ↔
      ∀ s ∈ Set.Icc created t, 1 ≤ remaining rate burst l.granted t s := by
  have hcall : (l.bucket.call rate burst t).1 = true ↔ 1 ≤ l.bucket.level rate burst t := by
    unfold Bucket.call
    split <;> simp_all
  rw [hcall, le_isGLB_iff (h.level_least hrate ht).isGLB, mem_lowerBounds]
  exact Set.forall_mem_image

/-- A call long enough after the last one is granted. -/
theorem Balanced.granted_of_refilled (h : l.Balanced rate burst created) (hburst : 1 ≤ burst)
    (ht : 1 ≤ rate * (t - l.bucket.last)) : (l.bucket.call rate burst t).1 = true := by
  have hlevel : 1 ≤ l.bucket.level rate burst t := by
    refine le_min ?_ hburst
    linarith [h.nonneg]
  rw [Bucket.call, if_pos hlevel]

/-- A call is granted only if every window that it falls in has a token left for it. -/
theorem Balanced.window_granted (h : l.Balanced rate burst created) (hrate : 0 ≤ rate)
    (ht : l.bucket.last ≤ t) (hgranted : 1 ≤ l.bucket.level rate burst t) {t₁ t₂ : K}
    (hwindow : t₁ ≤ t₂) :
    (((l.granted ++ [t]).countP fun g => t₁ ≤ g ∧ g ≤ t₂ : ℕ) : K) ≤ burst + rate * (t₂ - t₁) := by
  rw [List.countP_append]
  by_cases hin : t₁ ≤ t ∧ t ≤ t₂
  · -- cut the window down to what lies between the creation and the call
    have hs : max t₁ created ∈ Set.Icc created t :=
      ⟨le_max_right _ _, max_le hin.1 (h.created_le.trans ht)⟩
    have hleft := hgranted.trans (h.level_le hrate hs)
    have hcount : l.granted.countP (fun g => t₁ ≤ g ∧ g ≤ t₂)
        ≤ l.granted.countP fun g => max t₁ created ≤ g := by
      refine List.countP_mono_left fun g hg hmem => ?_
      simp only [decide_eq_true_eq] at hmem ⊢
      exact max_le hmem.1 (h.granted_le g hg).1
    have hcast : ((l.granted.countP fun g => t₁ ≤ g ∧ g ≤ t₂ : ℕ) : K)
        ≤ (l.granted.countP fun g => max t₁ created ≤ g : ℕ) := Nat.cast_le.mpr hcount
    have hspan : rate * (t - max t₁ created) ≤ rate * (t₂ - t₁) :=
      mul_le_mul_of_nonneg_left (sub_le_sub hin.2 (le_max_left _ _)) hrate
    rw [List.countP_singleton, if_pos (by simpa using hin), Nat.cast_add, Nat.cast_one]
    unfold remaining at hleft
    linarith
  · rw [List.countP_singleton, if_neg (by simpa using hin), add_zero]
    exact h.window t₁ t₂ hwindow

/-- A call keeps the books balanced. -/
theorem Balanced.step (h : l.Balanced rate burst created) (hrate : 0 ≤ rate) (hburst : 0 ≤ burst)
    (ht : l.bucket.last ≤ t) : (l.step rate burst t).Balanced rate burst created := by
  have hleast := h.level_least hrate ht
  have hcreated : created ≤ t := h.created_le.trans ht
  by_cases hlevel : 1 ≤ l.bucket.level rate burst t
  · have hstep : l.step rate burst t =
        ⟨⟨l.bucket.level rate burst t - 1, t⟩, l.granted ++ [t]⟩ := by
      simp [Ledger.step, Bucket.call, hlevel]
    rw [hstep]
    refine ⟨hcreated, sub_nonneg.mpr hlevel, ?_, ?_, fun t₁ t₂ hwindow =>
      h.window_granted hrate ht hlevel hwindow⟩
    · intro g hg
      rcases List.mem_append.mp hg with hg | hg
      · exact ⟨(h.granted_le g hg).1, (h.granted_le g hg).2.trans ht⟩
      · rw [List.mem_singleton.mp hg]
        exact ⟨hcreated, le_refl _⟩
    · -- the call takes one token out of every window
      obtain ⟨⟨s, hs, heq⟩, hlower⟩ := hleast
      refine ⟨⟨s, hs, ?_⟩, ?_⟩
      · rw [remaining_append hs.2, heq]
      · rintro x ⟨s, hs, rfl⟩
        rw [remaining_append hs.2]
        exact sub_le_sub_right (hlower ⟨s, hs, rfl⟩) 1
  · have hstep : l.step rate burst t = ⟨⟨l.bucket.level rate burst t, t⟩, l.granted⟩ := by
      simp [Ledger.step, Bucket.call, hlevel]
    rw [hstep]
    refine ⟨hcreated, le_min ?_ hburst, ?_, hleast, h.window⟩
    · exact add_nonneg h.nonneg (mul_nonneg hrate (sub_nonneg.mpr ht))
    · intro g hg
      exact ⟨(h.granted_le g hg).1, (h.granted_le g hg).2.trans ht⟩

end Ledger
end PpcaNetwork
