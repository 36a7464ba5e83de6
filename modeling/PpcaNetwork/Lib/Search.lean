import Mathlib

/-!
# Searching for a pattern

The position of the first occurrence of a list in another, as
`windows(n).position(|w| w == p)` finds it, and what it says about a buffer that
holds only a part of the list.

* `findSub` — the first occurrence.
* `findSub_prefix_eq` — a prefix holds the same first occurrence as soon as it is
  long enough, and none before.
* `findSub_append` — a pattern that does not start in the first part is found in
  the second.
-/

namespace PpcaNetwork

variable {α : Type*} [DecidableEq α]

/-- The position of the first occurrence of `p`. -/
def findSub (p : List α) : List α → Option Nat
  | [] => if p = [] then some 0 else none
  | x :: xs => if p.isPrefixOf (x :: xs) then some 0 else (findSub p xs).map (· + 1)

/-- `p` occurs in `s`. -/
def containsSub (p s : List α) : Bool := (findSub p s).isSome

theorem findSub_of_isPrefix {p s : List α} (h : p <+: s) : findSub p s = some 0 := by
  cases s with
  | nil => simp [findSub, List.prefix_nil.mp h]
  | cons x xs => rw [findSub, if_pos (List.isPrefixOf_iff_prefix.mpr h)]

theorem findSub_cons {p : List α} {x : α} {xs : List α} (h : ¬ p <+: x :: xs) :
    findSub p (x :: xs) = (findSub p xs).map (· + 1) := by
  rw [findSub, if_neg]
  rwa [List.isPrefixOf_iff_prefix]

/-- A pattern does not start at an element other than its first. -/
theorem findSub_cons_of_ne {a x : α} {p xs : List α} (h : x ≠ a) :
    findSub (a :: p) (x :: xs) = (findSub (a :: p) xs).map (· + 1) := by
  apply findSub_cons
  rintro ⟨t, ht⟩
  exact h (List.cons.inj ht).1.symm

/-- What does not start in `u` is found behind it. -/
theorem findSub_append {a : α} {p u : List α} (h : a ∉ u) (v : List α) :
    findSub (a :: p) (u ++ v) = (findSub (a :: p) v).map (· + u.length) := by
  induction u with
  | nil => simp
  | cons x u ih =>
    obtain ⟨hx, hu⟩ := not_or.mp (fun hmem => h (List.mem_cons.mpr hmem))
    rw [List.cons_append, findSub_cons_of_ne (Ne.symm hx), ih hu, Option.map_map]
    rfl

/-- A pattern does not occur in a shorter list. -/
theorem findSub_of_length_lt {p b : List α} (h : b.length < p.length) : findSub p b = none := by
  induction b with
  | nil => rw [findSub, if_neg (List.ne_nil_of_length_pos h)]
  | cons y ys ih =>
    have hnot : ¬ p <+: y :: ys := by
      intro hp
      have hle := hp.length_le
      omega
    rw [findSub_cons hnot, ih (lt_trans (Nat.lt_succ_self _) h), Option.map_none]

/-- The first occurrence in `s`, seen in a prefix of `s`: there once the prefix
reaches its end, and nothing before. -/
theorem findSub_prefix_eq {p s b : List α} {i : Nat} (hp : p ≠ []) (h : findSub p s = some i)
    (hb : b <+: s) : findSub p b = if i + p.length ≤ b.length then some i else none := by
  induction s generalizing b i with
  | nil =>
    simp [findSub, hp] at h
  | cons x xs ih =>
    cases b with
    | nil => simp [findSub, hp]
    | cons y ys =>
      obtain ⟨rfl, hys⟩ := List.cons_prefix_cons.mp hb
      by_cases hpre : p <+: y :: xs
      · rw [findSub_of_isPrefix hpre] at h
        obtain rfl := Option.some.inj h
        by_cases hlen : 0 + p.length ≤ (y :: ys).length
        · rw [if_pos hlen]
          apply findSub_of_isPrefix
          exact List.prefix_of_prefix_length_le hpre hb (by simpa using hlen)
        · rw [if_neg hlen]
          exact findSub_of_length_lt (by omega)
      · rw [findSub_cons hpre] at h
        obtain ⟨j, hj, rfl⟩ := Option.map_eq_some_iff.mp h
        have hpre' : ¬ p <+: y :: ys := fun hc => hpre (hc.trans hb)
        rw [findSub_cons hpre', ih hj hys]
        by_cases hlen : j + p.length ≤ ys.length
        · rw [if_pos hlen, if_pos (by simp only [List.length_cons]; omega)]
          rfl
        · rw [if_neg hlen, if_neg (by simp only [List.length_cons]; omega)]
          rfl

/-- The first occurrence stays the first when the list grows. -/
theorem findSub_append_right {p s : List α} {i : Nat} (h : findSub p s = some i) (t : List α) :
    findSub p (s ++ t) = some i := by
  induction s generalizing i with
  | nil =>
    by_cases hp : p = []
    · subst hp
      rw [findSub, if_pos rfl] at h
      rw [← h]
      exact findSub_of_isPrefix List.nil_prefix
    · rw [findSub, if_neg hp] at h
      exact absurd h (by simp)
  | cons x xs ih =>
    by_cases hpre : p <+: x :: xs
    · rw [findSub_of_isPrefix hpre] at h
      rw [← h]
      exact findSub_of_isPrefix (hpre.trans (List.prefix_append _ _))
    · rw [findSub_cons hpre] at h
      obtain ⟨j, hj, rfl⟩ := Option.map_eq_some_iff.mp h
      by_cases hpre' : p <+: x :: (xs ++ t)
      · -- an occurrence at the front would have been seen, since one is found behind it
        have hlen : p.length ≤ (x :: xs).length := by
          by_contra hlt
          rw [findSub_of_length_lt (by simp only [List.length_cons] at *; omega)] at hj
          exact absurd hj (by simp)
        exact absurd (List.prefix_of_prefix_length_le hpre'
          (List.prefix_append (x :: xs) t) hlen) hpre
      · rw [List.cons_append, findSub_cons hpre', ih hj]
        rfl

/-- The pattern stands where it is found. -/
theorem prefix_drop_of_findSub {p s : List α} {i : Nat} (h : findSub p s = some i) :
    p <+: s.drop i := by
  induction s generalizing i with
  | nil =>
    by_cases hp : p = []
    · rw [hp]
      exact List.nil_prefix
    · rw [findSub, if_neg hp] at h
      exact absurd h (by simp)
  | cons x xs ih =>
    by_cases hpre : p <+: x :: xs
    · rw [findSub_of_isPrefix hpre] at h
      rw [← Option.some.inj h]
      exact hpre
    · rw [findSub_cons hpre] at h
      obtain ⟨j, hj, rfl⟩ := Option.map_eq_some_iff.mp h
      exact ih hj

/-- An occurrence lies inside the list. -/
theorem findSub_length_le {p s : List α} {i : Nat} (hp : p ≠ []) (h : findSub p s = some i) :
    i + p.length ≤ s.length := by
  have hself := findSub_prefix_eq hp h (List.prefix_refl s)
  rw [h] at hself
  by_contra hlt
  rw [if_neg hlt] at hself
  exact absurd hself (by simp)

/-- Cut behind its first occurrence, a list still has it. -/
theorem findSub_take {p s : List α} {i : Nat} (hp : p ≠ []) (h : findSub p s = some i) :
    findSub p (s.take (i + p.length)) = some i := by
  have hle := findSub_length_le hp h
  rw [findSub_prefix_eq hp h (List.take_prefix _ _), List.length_take_of_le hle, if_pos le_rfl]

/-- When the first occurrence in `s` ends at `n`, a prefix of `s` contains the
pattern exactly if it has at least `n` elements. -/
theorem containsSub_prefix_iff {p s b : List α} {i : Nat} (hp : p ≠ [])
    (h : findSub p s = some i) (hb : b <+: s) :
    containsSub p b = true ↔ i + p.length ≤ b.length := by
  rw [containsSub, findSub_prefix_eq hp h hb]
  split <;> simp [*]

/-- What does not occur in a list does not occur in a part of it. -/
theorem containsSub_of_prefix {p s b : List α} (h : findSub p s = none) (hb : b <+: s) :
    containsSub p b = false := by
  obtain ⟨t, rfl⟩ := hb
  cases hfind : findSub p b with
  | none => rw [containsSub, hfind]; rfl
  | some i =>
    rw [findSub_append_right hfind] at h
    exact absurd h (by simp)

end PpcaNetwork
