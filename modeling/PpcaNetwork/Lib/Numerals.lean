import PpcaNetwork.Lib.Text

/-!
# Numbers as text

How Rust formats unsigned numbers (`{}` and `{:x}`) and reads them back
(`from_str_radix`, and `parse` for radix 10).

* `formatRadix` and `parseUint` — the two directions.
* `parseDigits_formatRadix` — the round trip.
* `visible_formatRadix` — a formatted number is made of visible characters.
-/

namespace PpcaNetwork

/-- The digit with value `d`. -/
def digitChar (d : Nat) : UInt8 := UInt8.ofNat (if d < 10 then 0x30 + d else 0x57 + d)

/-- The value of a digit in some radix up to 36: `char::to_digit`. -/
def digitValue (radix : Nat) (b : UInt8) : Option Nat :=
  let value :=
    if 0x30 ≤ b ∧ b ≤ 0x39 then some (b.toNat - 0x30)
    else if 0x61 ≤ b ∧ b ≤ 0x7A then some (b.toNat - 0x57)
    else if 0x41 ≤ b ∧ b ≤ 0x5A then some (b.toNat - 0x37)
    else none
  value.filter (· < radix)

/-- `{}` for radix 10 and `{:x}` for radix 16. -/
def formatRadix (radix n : Nat) : Text :=
  if n = 0 then [0x30] else (Nat.digits radix n).reverse.map digitChar

/-- The decimal digits of a number. -/
def decimal (n : Nat) : Text := formatRadix 10 n

/-- The value of a list of digits read behind the digits of `acc`. -/
def parseDigits (radix : Nat) : (acc : Nat) → Text → Option Nat
  | acc, [] => some acc
  | acc, b :: s =>
    match digitValue radix b with
    | none => none
    | some d => parseDigits radix (acc * radix + d) s

/-- The digits of a number that may start with `+`. -/
def stripPlus : Text → Text
  | [] => []
  | b :: s => if b = 0x2B then s else b :: s

/-- `from_str_radix` of an unsigned type whose largest value is `max`: an optional
`+`, at least one digit, and no overflow. -/
def parseUint (radix max : Nat) (s : Text) : Option Nat :=
  if stripPlus s = [] then none else (parseDigits radix 0 (stripPlus s)).filter (· ≤ max)

/-- The largest `usize` and the largest `u64`. -/
def maxU64 : Nat := 2 ^ 64 - 1

/-- The length of a slice of memory is a `usize`. -/
theorem le_maxU64 {n : Nat} (h : n < 2 ^ 63) : n ≤ maxU64 := by
  unfold maxU64
  omega

/-! ## The round trip -/

theorem digitValue_digitChar {radix d : Nat} (hradix : radix ≤ 16) (hd : d < radix) :
    digitValue radix (digitChar d) = some d := by
  have hlt : d < 16 := lt_of_lt_of_le hd hradix
  have hvalue : ∀ d : Fin 16, digitValue 16 (digitChar d) = some d.val := by decide
  have h16 := hvalue ⟨d, hlt⟩
  simp only [digitValue, Option.filter_eq_some_iff] at h16 ⊢
  exact ⟨h16.1, by simpa using hd⟩

theorem visible_digitChar {d : Nat} (hd : d < 16) : IsVisible (digitChar d) := by
  have hall : ∀ d : Fin 16, IsVisible (digitChar d) := by decide
  exact hall ⟨d, hd⟩

theorem parseDigits_map_digitChar {radix : Nat} (hradix : radix ≤ 16) {ds : List Nat}
    (hds : ∀ d ∈ ds, d < radix) (acc : Nat) :
    parseDigits radix acc (ds.map digitChar) = some (ds.foldl (fun a d => a * radix + d) acc) := by
  induction ds generalizing acc with
  | nil => rfl
  | cons d ds ih =>
    have hd := digitValue_digitChar hradix (hds d (by simp))
    rw [List.map_cons, parseDigits, hd]
    exact ih (fun x hx => hds x (List.mem_cons_of_mem _ hx)) _

theorem foldl_reverse_digits (radix n : Nat) :
    (Nat.digits radix n).reverse.foldl (fun a d => a * radix + d) 0 = n := by
  have hfold : ∀ ds : List Nat,
      ds.foldr (fun d a => a * radix + d) 0 = Nat.ofDigits radix ds := by
    intro ds
    induction ds with
    | nil => rfl
    | cons d ds ih =>
      rw [List.foldr_cons, ih, Nat.ofDigits_cons]
      ring
  rw [List.foldl_reverse, hfold, Nat.ofDigits_digits]

theorem digits_lt {radix n : Nat} (hradix : 2 ≤ radix) :
    ∀ d ∈ (Nat.digits radix n).reverse, d < radix := by
  intro d hd
  exact Nat.digits_lt_base hradix (List.mem_reverse.mp hd)

theorem formatRadix_eq_map {radix n : Nat} (hradix : 2 ≤ radix) :
    ∃ ds : List Nat, formatRadix radix n = ds.map digitChar ∧ ds ≠ [] ∧ (∀ d ∈ ds, d < radix) ∧
      ds.foldl (fun a d => a * radix + d) 0 = n := by
  unfold formatRadix
  by_cases hn : n = 0
  · refine ⟨[0], by simp [hn, digitChar], by simp, ?_, by simp [hn]⟩
    intro d hd
    simp only [List.mem_singleton] at hd
    omega
  · rw [if_neg hn]
    refine ⟨_, rfl, ?_, digits_lt hradix, foldl_reverse_digits radix n⟩
    simpa [Nat.digits_eq_nil_iff_eq_zero] using hn

theorem formatRadix_ne_nil {radix n : Nat} (hradix : 2 ≤ radix) : formatRadix radix n ≠ [] := by
  obtain ⟨ds, hds, hne, -⟩ := formatRadix_eq_map (n := n) hradix
  rw [hds]
  simpa using hne

/-- A formatted number is made of digits, which are visible. -/
theorem visible_formatRadix {radix n : Nat} (hradix : 2 ≤ radix) (hradix' : radix ≤ 16) :
    ∀ b ∈ formatRadix radix n, IsVisible b := by
  obtain ⟨ds, hds, -, hlt, -⟩ := formatRadix_eq_map (n := n) hradix
  intro b hb
  rw [hds] at hb
  obtain ⟨d, hd, rfl⟩ := List.mem_map.mp hb
  exact visible_digitChar (lt_of_lt_of_le (hlt d hd) hradix')

/-- The digits of a number are read back. -/
theorem parseDigits_formatRadix {radix : Nat} (hradix : 2 ≤ radix) (hradix' : radix ≤ 16)
    (n : Nat) : parseDigits radix 0 (formatRadix radix n) = some n := by
  obtain ⟨ds, hds, -, hlt, hval⟩ := formatRadix_eq_map (n := n) hradix
  rw [hds, parseDigits_map_digitChar hradix' hlt, hval]

/-- A digit is a visible character, and not before the digit 0. -/
theorem visible_of_digitValue {radix d : Nat} {b : UInt8} (h : digitValue radix b = some d) :
    IsVisible b ∧ 0x30 ≤ b := by
  obtain ⟨hvalue, -⟩ := Option.filter_eq_some_iff.mp h
  simp only [IsVisible, UInt8.le_iff_toNat_le] at *
  simp only [UInt8.reduceToNat] at *
  split_ifs at hvalue with h₁ h₂ h₃
  · omega
  · omega
  · omega

/-- What is read as digits is made of digits. -/
theorem exists_digitValue_of_parseDigits {radix acc n : Nat} {s : Text}
    (h : parseDigits radix acc s = some n) : ∀ b ∈ s, ∃ d, digitValue radix b = some d := by
  induction s generalizing acc with
  | nil => simp
  | cons b s ih =>
    rw [parseDigits] at h
    cases hb : digitValue radix b with
    | none =>
      rw [hb] at h
      exact absurd h (by simp)
    | some d =>
      rw [hb] at h
      intro x hx
      rcases List.mem_cons.mp hx with rfl | hx
      · exact ⟨d, hb⟩
      · exact ih h x hx

/-- Digits have no sign in front of them. -/
theorem stripPlus_of_parseDigits {radix acc n : Nat} {s : Text}
    (h : parseDigits radix acc s = some n) : stripPlus s = s := by
  cases s with
  | nil => rfl
  | cons b s =>
    refine if_neg ?_
    rintro rfl
    obtain ⟨d, hd⟩ := exists_digitValue_of_parseDigits h 0x2B (by simp)
    exact absurd (visible_of_digitValue hd).2 (by decide)

/-- Digits of a number that fits are read. -/
theorem parseUint_of_parseDigits {radix max n : Nat} {s : Text} (hne : s ≠ [])
    (h : parseDigits radix 0 s = some n) (hn : n ≤ max) : parseUint radix max s = some n := by
  rw [parseUint, stripPlus_of_parseDigits h, if_neg hne, h]
  simpa using hn

/-- What is read fits. -/
theorem parseUint_le {radix max n : Nat} {s : Text} (h : parseUint radix max s = some n) :
    n ≤ max := by
  unfold parseUint at h
  split at h
  · exact absurd h (by simp)
  · have hfilter := (Option.filter_eq_some_iff.mp h).2
    simpa using hfilter

theorem visible_decimal (n : Nat) : ∀ b ∈ decimal n, IsVisible b :=
  visible_formatRadix (by decide) (by decide)

end PpcaNetwork
