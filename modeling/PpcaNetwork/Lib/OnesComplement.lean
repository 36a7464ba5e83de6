import PpcaNetwork.Lib.Octets

/-!
# Ones'-complement sums

Adding digits to the base `b` with the carry brought around to the low end, which is
arithmetic modulo `b - 1` with two forms of zero.

* `endAround` — bring the carry around once; `endAround_modEq` says what that keeps.
* `foldCarries` — go on until one digit is left.
* `foldCarries_eq_ones_iff` — the digit is the all-ones zero exactly for the positive
  multiples of `b - 1`.
* `foldCarries_add_complement` — a sum whose complement is added to it folds to the
  all-ones zero, whatever the sum.
* `octetSum` — the sum of the 16-bit words of a byte string, the last one padded.
* `DiffersInWord` — byte strings that differ in one of their words; what that does to the
  sum, and when it does nothing to its fold.
-/

namespace PpcaNetwork

/-- The carry of `n` to the base `b` brought around once. -/
def endAround (b n : Nat) : Nat := n % b + n / b

variable {b : Nat}

/-- Bringing the carry around keeps the sum modulo `b - 1`. -/
theorem endAround_modEq (hb : 1 ≤ b) (n : Nat) : endAround b n ≡ n [MOD b - 1] := by
  have hone : b ≡ 1 [MOD b - 1] := ((Nat.modEq_iff_dvd' hb).mpr (dvd_refl _)).symm
  have hmul : b * (n / b) ≡ 1 * (n / b) [MOD b - 1] := hone.mul_right _
  calc endAround b n = n % b + 1 * (n / b) := by rw [endAround, Nat.one_mul]
    _ ≡ n % b + b * (n / b) [MOD b - 1] := hmul.symm.add_left _
    _ = n := Nat.mod_add_div n b

theorem endAround_lt (hb : 2 ≤ b) {n : Nat} (hn : b ≤ n) : endAround b n < n := by
  have hpos : 0 < n / b := Nat.div_pos hn (by omega)
  have hdiv : n % b + b * (n / b) = n := Nat.mod_add_div n b
  have hlt : n / b < b * (n / b) := by
    calc n / b < 2 * (n / b) := by omega
      _ ≤ b * (n / b) := Nat.mul_le_mul_right _ hb
  rw [endAround]
  omega

theorem endAround_pos (hb : 2 ≤ b) {n : Nat} (hn : b ≤ n) : 0 < endAround b n := by
  have hpos : 0 < n / b := Nat.div_pos hn (by omega)
  rw [endAround]
  omega

/-- Carries brought around until the sum is one digit. -/
def foldCarries (b : Nat) (hb : 2 ≤ b) (n : Nat) : Nat :=
  if n < b then n else foldCarries b hb (endAround b n)
termination_by n
decreasing_by exact endAround_lt hb (Nat.le_of_not_lt ‹_›)

theorem foldCarries_of_lt (hb : 2 ≤ b) {n : Nat} (hn : n < b) : foldCarries b hb n = n := by
  rw [foldCarries, if_pos hn]

theorem foldCarries_of_le (hb : 2 ≤ b) {n : Nat} (hn : b ≤ n) :
    foldCarries b hb n = foldCarries b hb (endAround b n) := by
  rw [foldCarries, if_neg (Nat.not_lt.mpr hn)]

theorem foldCarries_lt (hb : 2 ≤ b) (n : Nat) : foldCarries b hb n < b := by
  induction n using foldCarries.induct b hb with
  | case1 n hn =>
    rw [foldCarries_of_lt hb hn]
    exact hn
  | case2 n hn ih =>
    rw [foldCarries_of_le hb (Nat.le_of_not_lt hn)]
    exact ih

theorem foldCarries_modEq (hb : 2 ≤ b) (n : Nat) : foldCarries b hb n ≡ n [MOD b - 1] := by
  induction n using foldCarries.induct b hb with
  | case1 n hn => rw [foldCarries_of_lt hb hn]
  | case2 n hn ih =>
    rw [foldCarries_of_le hb (Nat.le_of_not_lt hn)]
    exact ih.trans (endAround_modEq (by omega) n)

/-- Only zero folds to zero. -/
theorem foldCarries_pos (hb : 2 ≤ b) {n : Nat} (hpos : 0 < n) : 0 < foldCarries b hb n := by
  induction n using foldCarries.induct b hb with
  | case1 n hn =>
    rw [foldCarries_of_lt hb hn]
    exact hpos
  | case2 n hn ih =>
    have hle : b ≤ n := Nat.le_of_not_lt hn
    rw [foldCarries_of_le hb hle]
    exact ih (endAround_pos hb hle)

/-- **The all-ones zero.**  The sums that fold to `b - 1` are the positive multiples
of `b - 1`. -/
theorem foldCarries_eq_ones_iff (hb : 2 ≤ b) (n : Nat) :
    foldCarries b hb n = b - 1 ↔ 0 < n ∧ b - 1 ∣ n := by
  have hmod : foldCarries b hb n ≡ n [MOD b - 1] := foldCarries_modEq hb n
  constructor
  · intro hones
    refine ⟨?_, (Nat.modEq_zero_iff_dvd).mp ?_⟩
    · rcases Nat.eq_zero_or_pos n with rfl | hpos
      · rw [foldCarries_of_lt hb (by omega)] at hones
        omega
      · exact hpos
    · rw [hones] at hmod
      exact hmod.symm.trans ((Nat.modEq_zero_iff_dvd).mpr (dvd_refl _))
  · rintro ⟨hpos, hdvd⟩
    have hfold : b - 1 ∣ foldCarries b hb n :=
      (Nat.modEq_zero_iff_dvd).mp (hmod.trans ((Nat.modEq_zero_iff_dvd).mpr hdvd))
    have hge : b - 1 ≤ foldCarries b hb n := Nat.le_of_dvd (foldCarries_pos hb hpos) hfold
    have hlt : foldCarries b hb n < b := foldCarries_lt hb n
    omega

/-- **The check digit verifies.**  Adding the complement of its own fold to a sum gives
the all-ones zero, also when the sum is zero or folds to `b - 1`. -/
theorem foldCarries_add_complement (hb : 2 ≤ b) (n : Nat) :
    foldCarries b hb (n + (b - 1 - foldCarries b hb n)) = b - 1 := by
  have hlt : foldCarries b hb n < b := foldCarries_lt hb n
  rw [foldCarries_eq_ones_iff]
  constructor
  · rcases Nat.eq_zero_or_pos n with rfl | hpos
    · rw [foldCarries_of_lt hb (by omega)]
      omega
    · omega
  · refine (Nat.modEq_zero_iff_dvd).mp ?_
    calc n + (b - 1 - foldCarries b hb n)
        ≡ foldCarries b hb n + (b - 1 - foldCarries b hb n) [MOD b - 1] :=
          (foldCarries_modEq hb n).symm.add_right _
      _ = b - 1 := by omega
      _ ≡ 0 [MOD b - 1] := (Nat.modEq_zero_iff_dvd).mpr (dvd_refl _)

/-! ## The words of a byte string -/

/-- The sum of the 16-bit words of a byte string; an odd byte is a word's high half. -/
def octetSum : List UInt8 → Nat
  | b0 :: b1 :: rest => (ofOctets16 b0 b1).toNat + octetSum rest
  | [b0] => 256 * b0.toNat
  | [] => 0

/-- Behind whole words the sum starts anew. -/
theorem octetSum_append {front : List UInt8} (heven : 2 ∣ front.length) (rest : List UInt8) :
    octetSum (front ++ rest) = octetSum front + octetSum rest := by
  induction front using octetSum.induct with
  | case1 b0 b1 front ih =>
    have hfront : 2 ∣ front.length := by
      simp only [List.length_cons] at heven
      omega
    simp only [List.cons_append, octetSum, ih hfront]
    omega
  | case2 b0 =>
    simp only [List.length_singleton] at heven
    omega
  | case3 => simp [octetSum]

@[simp] theorem octetSum_octets16 (x : UInt16) : octetSum (octets16 x) = x.toNat := by
  simp only [octets16, octetSum, ofOctets16_octets16, Nat.add_zero]

/-- Zeros behind a byte string add nothing, not even behind an odd byte. -/
theorem octetSum_append_zeros (bytes : List UInt8) (k : Nat) :
    octetSum (bytes ++ List.replicate k 0) = octetSum bytes := by
  have hzeros : ∀ k, octetSum (List.replicate k 0) = 0 := by
    intro k
    induction k using Nat.twoStepInduction with
    | zero => rfl
    | one => rfl
    | more k ih _ =>
      rw [List.replicate_succ, List.replicate_succ, octetSum, ih]
      rfl
  induction bytes using octetSum.induct with
  | case1 b0 b1 rest ih => rw [List.cons_append, List.cons_append, octetSum, octetSum, ih]
  | case2 b0 =>
    cases k with
    | zero => rfl
    | succ k =>
      have hword : (ofOctets16 b0 0).toNat = 256 * b0.toNat := by
        rw [toNat_ofOctets16]
        rfl
      rw [List.replicate_succ, List.singleton_append, octetSum, octetSum, hzeros, hword]
      rfl
  | case3 => exact hzeros k

/-- The sum is at most that of as many all-ones words. -/
theorem octetSum_le (bytes : List UInt8) : octetSum bytes ≤ 65535 * ((bytes.length + 1) / 2) := by
  induction bytes using octetSum.induct with
  | case1 b0 b1 rest ih =>
    have hword := (ofOctets16 b0 b1).toNat_lt
    simp only [octetSum, List.length_cons]
    omega
  | case2 b0 =>
    have hbyte := b0.toNat_lt
    simp only [octetSum, List.length_singleton]
    omega
  | case3 => simp [octetSum]

/-! ## One word changed -/

/-- The byte strings differ in one aligned word, which is `x` in the first and `y` in the
second; an odd byte at the end is the high half of a word. -/
inductive DiffersInWord : List UInt8 → List UInt8 → UInt16 → UInt16 → Prop
  | whole {front : List UInt8} (heven : 2 ∣ front.length) {x y : UInt16} (hne : x ≠ y)
      (behind : List UInt8) :
      DiffersInWord (front ++ octets16 x ++ behind) (front ++ octets16 y ++ behind) x y
  | last {front : List UInt8} (heven : 2 ∣ front.length) {b c : UInt8} (hne : b ≠ c) :
      DiffersInWord (front ++ [b]) (front ++ [c]) (ofOctets16 b 0) (ofOctets16 c 0)

section

variable {d d' : List UInt8} {x y : UInt16}

theorem DiffersInWord.ne (h : DiffersInWord d d' x y) : x ≠ y := by
  cases h with
  | whole _ hne => exact hne
  | @last front _ b c hne =>
    intro heq
    have hsame := congrArg UInt16.toNat heq
    rw [toNat_ofOctets16, toNat_ofOctets16] at hsame
    refine hne (UInt8.toNat_inj.mp ?_)
    omega

theorem DiffersInWord.length_eq (h : DiffersInWord d d' x y) : d.length = d'.length := by
  cases h with
  | whole => simp
  | last => simp

/-- The sums differ by the words. -/
theorem DiffersInWord.octetSum_add (h : DiffersInWord d d' x y) :
    octetSum d + y.toNat = octetSum d' + x.toNat := by
  cases h with
  | @whole front heven x y _ behind =>
    have hsum : ∀ z : UInt16,
        octetSum (front ++ octets16 z ++ behind) = octetSum front + z.toNat + octetSum behind := by
      intro z
      rw [octetSum_append (by rw [List.length_append, length_octets16]; omega),
        octetSum_append heven, octetSum_octets16]
    rw [hsum, hsum]
    omega
  | @last front heven b c _ =>
    have hsum : ∀ z : UInt8,
        octetSum (front ++ [z]) = octetSum front + (ofOctets16 z 0).toNat := by
      intro z
      rw [octetSum_append heven, octetSum, toNat_ofOctets16]
      rfl
    rw [hsum, hsum]
    omega

/-- **A changed word shows.**  If both sums are multiples of 65535, the words are the two
forms of zero. -/
theorem DiffersInWord.zeros (h : DiffersInWord d d' x y) (hd : 65535 ∣ octetSum d)
    (hd' : 65535 ∣ octetSum d') :
    (x = 0x0000 ∧ y = 0xFFFF) ∨ (x = 0xFFFF ∧ y = 0x0000) := by
  have hadd := h.octetSum_add
  have hne : x.toNat ≠ y.toNat := fun heq => h.ne (UInt16.toNat_inj.mp heq)
  have hx := x.toNat_lt
  have hy := y.toNat_lt
  simp only [← UInt16.toNat_inj, UInt16.reduceToNat]
  omega

end

end PpcaNetwork
