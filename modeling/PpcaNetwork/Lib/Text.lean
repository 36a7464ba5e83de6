import Mathlib

/-!
# Text as UTF-8 bytes

A Rust `String` is a byte string that is valid UTF-8.  Programs that read text
off the wire compare, split and join it byte by byte, so a `Text` is that byte
string, and validity is a test of its own.

* `utf8` — the bytes of a string literal.
* `isUtf8` — the test of `std::str::from_utf8`; `isUtf8_iff` says what passes it.
* `toAsciiLowercase` and `SameText` — equality up to ASCII case.
* `trim` and `splitWhitespace` — `str::trim` and `str::split_whitespace`, which know all
  white space of Unicode.
* `lines` — `str::lines`.
-/

namespace PpcaNetwork

/-- Text, as its UTF-8 bytes. -/
abbrev Text := List UInt8

/-- The bytes of a string literal. -/
def utf8 (s : String) : Text := s.toUTF8.data.toList

/-- The bytes CR LF. -/
def crlf : List UInt8 := [0x0D, 0x0A]

/-- A continuation byte. -/
def isUtf8Tail (b : UInt8) : Bool := 0x80 ≤ b && b ≤ 0xBF

/-- The bytes that may follow the first byte `b0` of a three-byte sequence: no
overlong encodings and no surrogates. -/
def isUtf8Second3 (b0 b1 : UInt8) : Bool :=
  if b0 = 0xE0 then 0xA0 ≤ b1 && b1 ≤ 0xBF
  else if b0 = 0xED then 0x80 ≤ b1 && b1 ≤ 0x9F
  else isUtf8Tail b1

/-- The bytes that may follow the first byte `b0` of a four-byte sequence: no
overlong encodings and nothing above U+10FFFF. -/
def isUtf8Second4 (b0 b1 : UInt8) : Bool :=
  if b0 = 0xF0 then 0x90 ≤ b1 && b1 ≤ 0xBF
  else if b0 = 0xF4 then 0x80 ≤ b1 && b1 ≤ 0x8F
  else isUtf8Tail b1

/-- The test of `std::str::from_utf8`. -/
def isUtf8 : List UInt8 → Bool
  | [] => true
  | b0 :: bs =>
    if b0 < 0x80 then isUtf8 bs
    else if b0 < 0xC2 then false
    else if b0 < 0xE0 then
      match bs with
      | b1 :: bs => isUtf8Tail b1 && isUtf8 bs
      | _ => false
    else if b0 < 0xF0 then
      match bs with
      | b1 :: b2 :: bs => isUtf8Second3 b0 b1 && isUtf8Tail b2 && isUtf8 bs
      | _ => false
    else if b0 < 0xF5 then
      match bs with
      | b1 :: b2 :: b3 :: bs =>
        isUtf8Second4 b0 b1 && isUtf8Tail b2 && isUtf8Tail b3 && isUtf8 bs
      | _ => false
    else false

/-- ASCII in front of a text does not matter for its validity. -/
theorem isUtf8_append_of_ascii {s : List UInt8} (h : ∀ b ∈ s, b < 0x80) (t : List UInt8) :
    isUtf8 (s ++ t) = isUtf8 t := by
  induction s with
  | nil => rfl
  | cons b s ih =>
    rw [List.cons_append, isUtf8.eq_def]
    simp only [if_pos (h b (by simp))]
    exact ih fun x hx => h x (List.mem_cons_of_mem _ hx)

theorem isUtf8_of_ascii {s : List UInt8} (h : ∀ b ∈ s, b < 0x80) : isUtf8 s = true := by
  have happend := isUtf8_append_of_ascii h []
  rw [List.append_nil] at happend
  rw [happend]
  rfl

theorem isUtf8Tail_ascii {b : UInt8} (hb : b < 0x80) : isUtf8Tail b = false := by
  rw [UInt8.lt_iff_toNat_lt] at hb
  simp only [isUtf8Tail, Bool.and_eq_false_iff, decide_eq_false_iff_not, UInt8.le_iff_toNat_le]
  simp only [UInt8.reduceToNat] at *
  omega

theorem isUtf8Tail_of_second3 {b0 b : UInt8} (h : isUtf8Second3 b0 b = true) :
    isUtf8Tail b = true := by
  simp only [isUtf8Second3, isUtf8Tail, UInt8.le_iff_toNat_le] at *
  simp only [UInt8.reduceToNat] at *
  split_ifs at h <;> simp at * <;> omega

theorem isUtf8Tail_of_second4 {b0 b : UInt8} (h : isUtf8Second4 b0 b = true) :
    isUtf8Tail b = true := by
  simp only [isUtf8Second4, isUtf8Tail, UInt8.le_iff_toNat_le] at *
  simp only [UInt8.reduceToNat] at *
  split_ifs at h <;> simp at * <;> omega

/-- One encoded character. -/
inductive Utf8Char : List UInt8 → Prop
  | one {b0 : UInt8} (h : b0 < 0x80) : Utf8Char [b0]
  | two {b0 b1 : UInt8} (hlow : ¬ b0 < 0xC2) (h : b0 < 0xE0) (h1 : isUtf8Tail b1 = true) :
      Utf8Char [b0, b1]
  | three {b0 b1 b2 : UInt8} (hlow : ¬ b0 < 0xE0) (h : b0 < 0xF0)
      (h1 : isUtf8Second3 b0 b1 = true) (h2 : isUtf8Tail b2 = true) : Utf8Char [b0, b1, b2]
  | four {b0 b1 b2 b3 : UInt8} (hlow : ¬ b0 < 0xF0) (h : b0 < 0xF5)
      (h1 : isUtf8Second4 b0 b1 = true) (h2 : isUtf8Tail b2 = true) (h3 : isUtf8Tail b3 = true) :
      Utf8Char [b0, b1, b2, b3]

/-- A sequence of encoded characters. -/
inductive Utf8Text : List UInt8 → Prop
  | nil : Utf8Text []
  | char {c s : List UInt8} (hc : Utf8Char c) (hs : Utf8Text s) : Utf8Text (c ++ s)

/-- A character is an ASCII byte or has none. -/
theorem Utf8Char.ascii_or_high {c : List UInt8} (h : Utf8Char c) :
    (∃ b, c = [b] ∧ b < 0x80) ∨ ∀ b ∈ c, 0x80 ≤ b := by
  have hfirst : ∀ {b n : UInt8}, ¬ b < n → 0x80 ≤ n → 0x80 ≤ b := by
    intro b n hb hn
    exact UInt8.le_trans hn (UInt8.not_lt.mp hb)
  have htail : ∀ {b}, isUtf8Tail b = true → 0x80 ≤ b := by
    intro b hb
    by_contra hlt
    rw [isUtf8Tail_ascii (UInt8.not_le.mp hlt)] at hb
    cases hb
  cases h with
  | one h => exact .inl ⟨_, rfl, h⟩
  | two hlow h h1 =>
    right
    simpa using ⟨hfirst hlow (by decide), htail h1⟩
  | three hlow h h1 h2 =>
    right
    simpa using ⟨hfirst hlow (by decide), htail (isUtf8Tail_of_second3 h1), htail h2⟩
  | four hlow h h1 h2 h3 =>
    right
    simpa using ⟨hfirst hlow (by decide), htail (isUtf8Tail_of_second4 h1), htail h2, htail h3⟩

/-- A character in front of a text does not matter for its validity. -/
theorem Utf8Char.isUtf8_append {c : List UInt8} (h : Utf8Char c) (s : List UInt8) :
    isUtf8 (c ++ s) = isUtf8 s := by
  have hmono : ∀ {b n m : UInt8}, ¬ b < n → m ≤ n → ¬ b < m := by
    intro b n m hb hm hlt
    exact hb (UInt8.lt_of_lt_of_le hlt hm)
  cases h with
  | one h => exact isUtf8_append_of_ascii (by simpa using h) s
  | @two b0 b1 hlow h h1 =>
    have hascii := hmono hlow (m := 0x80) (by decide)
    simp only [List.cons_append, List.nil_append, isUtf8.eq_2 b0, hascii, hlow, h, h1, if_true,
      if_false, Bool.true_and]
  | @three b0 b1 b2 hlow h h1 h2 =>
    have hascii := hmono hlow (m := 0x80) (by decide)
    have htwo := hmono hlow (m := 0xC2) (by decide)
    simp only [List.cons_append, List.nil_append, isUtf8.eq_2 b0, hascii, htwo, hlow, h, h1, h2,
      if_true, if_false, Bool.true_and]
  | @four b0 b1 b2 b3 hlow h h1 h2 h3 =>
    have hascii := hmono hlow (m := 0x80) (by decide)
    have htwo := hmono hlow (m := 0xC2) (by decide)
    have hthree := hmono hlow (m := 0xE0) (by decide)
    simp only [List.cons_append, List.nil_append, isUtf8.eq_2 b0, hascii, htwo, hthree, hlow, h, h1,
      h2, h3, if_true, if_false, Bool.true_and]

/-- A valid text is a sequence of characters. -/
theorem isUtf8_iff {s : List UInt8} : isUtf8 s = true ↔ Utf8Text s := by
  constructor
  · intro h
    induction s using isUtf8.induct with
    | case1 => exact .nil
    | case2 b0 bs hascii ih =>
      rw [← List.singleton_append, (Utf8Char.one hascii).isUtf8_append] at h
      exact .char (.one hascii) (ih h)
    | case3 b0 bs hascii hlow =>
      rw [isUtf8.eq_def] at h
      simp [hascii, hlow] at h
    | case4 b0 hascii hlow htwo b1 bs ih =>
      simp only [isUtf8.eq_2 b0, hascii, hlow, htwo, if_true, if_false, Bool.and_eq_true] at h
      exact .char (.two hlow htwo h.1) (ih h.2)
    | case5 b0 bs hascii hlow htwo hshort =>
      cases bs with
      | nil =>
        rw [isUtf8.eq_def] at h
        simp [hascii, hlow, htwo] at h
      | cons b1 bs => exact (hshort b1 bs rfl).elim
    | case6 b0 hascii hlow htwo hthree b1 b2 bs ih =>
      simp only [isUtf8.eq_2 b0, hascii, hlow, htwo, hthree, if_true, if_false,
        Bool.and_eq_true] at h
      exact .char (.three htwo hthree h.1.1 h.1.2) (ih h.2)
    | case7 b0 bs hascii hlow htwo hthree hshort =>
      match bs with
      | [] =>
        rw [isUtf8.eq_def] at h
        simp [hascii, hlow, htwo, hthree] at h
      | [b1] => simp [isUtf8.eq_2 b0, hascii, hlow, htwo, hthree] at h
      | b1 :: b2 :: bs => exact (hshort b1 b2 bs rfl).elim
    | case8 b0 hascii hlow htwo hthree hfour b1 b2 b3 bs ih =>
      simp only [isUtf8.eq_2 b0, hascii, hlow, htwo, hthree, hfour, if_true, if_false,
        Bool.and_eq_true] at h
      exact .char (.four hthree hfour h.1.1.1 h.1.1.2 h.1.2) (ih h.2)
    | case9 b0 bs hascii hlow htwo hthree hfour hshort =>
      match bs with
      | [] =>
        rw [isUtf8.eq_def] at h
        simp [hascii, hlow, htwo, hthree, hfour] at h
      | [b1] => simp [isUtf8.eq_2 b0, hascii, hlow, htwo, hthree, hfour] at h
      | [b1, b2] => simp [isUtf8.eq_2 b0, hascii, hlow, htwo, hthree, hfour] at h
      | b1 :: b2 :: b3 :: bs => exact (hshort b1 b2 b3 bs rfl).elim
    | case10 b0 bs hascii hlow htwo hthree hfour =>
      rw [isUtf8.eq_def] at h
      simp [hascii, hlow, htwo, hthree, hfour] at h
  · intro h
    induction h with
    | nil => rfl
    | char hc _ ih => rwa [hc.isUtf8_append]

/-- Text falls apart at an ASCII byte into texts. -/
theorem isUtf8_of_append {s : List UInt8} {b : UInt8} (hb : b < 0x80) {t : List UInt8}
    (h : isUtf8 (s ++ b :: t) = true) : isUtf8 s = true ∧ isUtf8 (b :: t) = true := by
  rw [isUtf8_iff] at h
  generalize hu : s ++ b :: t = u at h
  induction h generalizing s with
  | nil => exact absurd hu (by simp)
  | @char c u hc hrest ih =>
    rcases List.append_eq_append_iff.mp hu with ⟨c', rfl, hbehind⟩ | ⟨s', rfl, hu'⟩
    · cases c' with
      | nil =>
        rw [List.append_nil] at hc
        rw [← List.append_nil s, hc.isUtf8_append, hbehind]
        exact ⟨rfl, isUtf8_iff.mpr hrest⟩
      | cons b' c' =>
        -- the byte is a character of its own, and nothing stands before it
        obtain rfl := (List.cons.inj hbehind).1
        rcases hc.ascii_or_high with ⟨b', heq, -⟩ | hhigh
        · obtain rfl : s = [] := by
            cases s with
            | nil => rfl
            | cons b s => exact absurd (congrArg List.length heq) (by simp)
          exact ⟨rfl, hbehind ▸ isUtf8_iff.mpr (.char hc hrest)⟩
        · exact absurd hb (UInt8.not_lt.mpr (hhigh b (by simp)))
    · rw [hc.isUtf8_append]
      exact ih hu'.symm

/-! ## ASCII case -/

/-- `u8::to_ascii_lowercase`. -/
def asciiLower (b : UInt8) : UInt8 := if 0x41 ≤ b ∧ b ≤ 0x5A then b + 0x20 else b

/-- `str::to_ascii_lowercase`. -/
def toAsciiLowercase (s : Text) : Text := s.map asciiLower

@[simp] theorem asciiLower_asciiLower (b : UInt8) : asciiLower (asciiLower b) = asciiLower b := by
  unfold asciiLower
  by_cases h : 0x41 ≤ b ∧ b ≤ 0x5A
  · have hout : ¬ (0x41 ≤ b + 0x20 ∧ b + 0x20 ≤ 0x5A) := by
      obtain ⟨h1, h2⟩ := h
      rw [UInt8.le_iff_toNat_le] at *
      rw [UInt8.le_iff_toNat_le, UInt8.toNat_add]
      simp at *
      omega
    rw [if_pos h, if_neg hout]
  · rw [if_neg h, if_neg h]

@[simp] theorem toAsciiLowercase_toAsciiLowercase (s : Text) :
    toAsciiLowercase (toAsciiLowercase s) = toAsciiLowercase s := by
  simp [toAsciiLowercase, Function.comp_def]

/-- Equality up to ASCII case: `str::eq_ignore_ascii_case`. -/
def SameText (s t : Text) : Prop := toAsciiLowercase s = toAsciiLowercase t

instance (s t : Text) : Decidable (SameText s t) := inferInstanceAs (Decidable (_ = _))

theorem SameText.refl (s : Text) : SameText s s := rfl

theorem SameText.symm {s t : Text} (h : SameText s t) : SameText t s := Eq.symm h

theorem SameText.trans {s t u : Text} (h : SameText s t) (h' : SameText t u) : SameText s u :=
  Eq.trans h h'

theorem asciiLower_lt_iff {b : UInt8} : asciiLower b < 0x80 ↔ b < 0x80 := by
  unfold asciiLower
  split
  · rename_i h
    obtain ⟨-, hle⟩ := h
    rw [UInt8.le_iff_toNat_le] at hle
    simp only [UInt8.lt_iff_toNat_lt, UInt8.toNat_add, UInt8.reduceToNat] at *
    omega
  · exact Iff.rfl

/-- What differs from ASCII only in case is ASCII. -/
theorem ascii_of_sameText {s t : Text} (h : SameText s t) (ht : ∀ b ∈ t, b < 0x80) :
    ∀ b ∈ s, b < 0x80 := by
  intro b hb
  have hmem : asciiLower b ∈ toAsciiLowercase t := h ▸ List.mem_map_of_mem hb
  obtain ⟨c, hc, heq⟩ := List.mem_map.mp hmem
  exact asciiLower_lt_iff.mp (heq ▸ asciiLower_lt_iff.mpr (ht c hc))

theorem isUtf8_of_sameText {s t : Text} (h : SameText s t) (ht : ∀ b ∈ t, b < 0x80) :
    isUtf8 s = true := isUtf8_of_ascii (ascii_of_sameText h ht)

/-- Changing ASCII bytes into ASCII bytes leaves a text a text. -/
theorem isUtf8_map_of_ascii {f : UInt8 → UInt8} (hf : ∀ b, f b = b ∨ (b < 0x80 ∧ f b < 0x80))
    {s : List UInt8} (h : isUtf8 s = true) : isUtf8 (s.map f) = true := by
  rw [isUtf8_iff] at h
  induction h with
  | nil => rfl
  | @char c s hc _ ih =>
    have hmap : Utf8Char (c.map f) := by
      rcases hc.ascii_or_high with ⟨b, rfl, hb⟩ | hhigh
      · refine .one ?_
        rcases hf b with heq | ⟨-, hlow⟩
        · rwa [heq]
        · exact hlow
      · have hsame : c.map f = c := by
          refine (List.map_congr_left fun b hb => ?_).trans (List.map_id c)
          exact (hf b).resolve_right fun hlow => UInt8.not_lt.mpr (hhigh b hb) hlow.1
        rwa [hsame]
    rw [List.map_append, hmap.isUtf8_append, ih]

/-- Text in lower case is text. -/
theorem isUtf8_toAsciiLowercase {s : Text} (h : isUtf8 s = true) :
    isUtf8 (toAsciiLowercase s) = true := by
  refine isUtf8_map_of_ascii ?_ h
  intro b
  by_cases hb : b < 0x80
  · exact .inr ⟨hb, asciiLower_lt_iff.mpr hb⟩
  · refine .inl ?_
    unfold asciiLower
    rw [if_neg]
    rintro ⟨-, hle⟩
    rw [UInt8.lt_iff_toNat_lt] at hb
    rw [UInt8.le_iff_toNat_le] at hle
    simp only [UInt8.reduceToNat] at hb hle
    omega

/-! ## White space -/

/-- The white space of one byte. -/
def isAsciiWhitespace (b : UInt8) : Bool := b = 0x20 || (0x09 ≤ b && b ≤ 0x0D)

/-- The two-byte white space U+0085 and U+00A0. -/
def isWhitespace2 (b0 b1 : UInt8) : Bool := b0 = 0xC2 && (b1 = 0x85 || b1 = 0xA0)

/-- The three-byte white space: U+1680, U+2000 to U+200A, U+2028, U+2029, U+202F,
U+205F and U+3000. -/
def isWhitespace3 (b0 b1 b2 : UInt8) : Bool :=
  (b0 = 0xE1 && b1 = 0x9A && b2 = 0x80) ||
    (b0 = 0xE2 && b1 = 0x80 && ((0x80 ≤ b2 && b2 ≤ 0x8A) || b2 = 0xA8 || b2 = 0xA9 || b2 = 0xAF)) ||
    (b0 = 0xE2 && b1 = 0x81 && b2 = 0x9F) || (b0 = 0xE3 && b1 = 0x80 && b2 = 0x80)

/-- `str::trim_start`. -/
def trimStart : Text → Text
  | [] => []
  | b0 :: s =>
    if isAsciiWhitespace b0 then trimStart s
    else
      match s with
      | [] => [b0]
      | b1 :: s =>
        if isWhitespace2 b0 b1 then trimStart s
        else
          match s with
          | [] => [b0, b1]
          | b2 :: s => if isWhitespace3 b0 b1 b2 then trimStart s else b0 :: b1 :: b2 :: s

/-- `str::trim_end` of the reversed text. -/
def trimEndReversed : Text → Text
  | [] => []
  | b0 :: s =>
    if isAsciiWhitespace b0 then trimEndReversed s
    else
      match s with
      | [] => [b0]
      | b1 :: s =>
        if isWhitespace2 b1 b0 then trimEndReversed s
        else
          match s with
          | [] => [b0, b1]
          | b2 :: s => if isWhitespace3 b2 b1 b0 then trimEndReversed s else b0 :: b1 :: b2 :: s

/-- `str::trim_end`. -/
def trimEnd (s : Text) : Text := (trimEndReversed s.reverse).reverse

/-- `str::trim`. -/
def trim (s : Text) : Text := trimEnd (trimStart s)

/-- A printable ASCII byte other than the blank. -/
def IsVisible (b : UInt8) : Prop := 0x21 ≤ b ∧ b ≤ 0x7E

instance (b : UInt8) : Decidable (IsVisible b) := inferInstanceAs (Decidable (_ ∧ _))

theorem IsVisible.ascii {b : UInt8} (h : IsVisible b) : b < 0x80 := by
  have hle := UInt8.le_iff_toNat_le.mp h.2
  rw [UInt8.lt_iff_toNat_lt]
  simp only [UInt8.reduceToNat] at *
  omega

theorem IsVisible.not_whitespace {b : UInt8} (h : IsVisible b) (b1 b2 : UInt8) :
    isAsciiWhitespace b = false ∧ isWhitespace2 b b1 = false ∧ isWhitespace3 b b1 b2 = false ∧
      isWhitespace2 b1 b = false ∧ isWhitespace3 b2 b1 b = false := by
  obtain ⟨h1, h2⟩ := h
  rw [UInt8.le_iff_toNat_le] at h1 h2
  simp only [isAsciiWhitespace, isWhitespace2, isWhitespace3, Bool.or_eq_false_iff,
    Bool.and_eq_false_iff, decide_eq_false_iff_not, UInt8.le_iff_toNat_le, ← UInt8.toNat_inj]
  simp only [UInt8.reduceToNat] at *
  omega

theorem trimStart_of_visible {b : UInt8} (h : IsVisible b) (s : Text) :
    trimStart (b :: s) = b :: s := by
  cases s with
  | nil =>
    have hb := h.not_whitespace 0 0
    simp [trimStart, hb.1]
  | cons b1 s =>
    cases s with
    | nil =>
      have hb := h.not_whitespace b1 0
      simp [trimStart, hb.1, hb.2.1]
    | cons b2 s =>
      have hb := h.not_whitespace b1 b2
      simp [trimStart, hb.1, hb.2.1, hb.2.2.1]

theorem trimEndReversed_of_visible {b : UInt8} (h : IsVisible b) (s : Text) :
    trimEndReversed (b :: s) = b :: s := by
  cases s with
  | nil =>
    have hb := h.not_whitespace 0 0
    simp [trimEndReversed, hb.1]
  | cons b1 s =>
    cases s with
    | nil =>
      have hb := h.not_whitespace b1 0
      simp [trimEndReversed, hb.1, hb.2.2.2.1]
    | cons b2 s =>
      have hb := h.not_whitespace b1 b2
      simp [trimEndReversed, hb.1, hb.2.2.2.1, hb.2.2.2.2]

theorem trimEndReversed_append {blanks : Text} (h : ∀ b ∈ blanks, isAsciiWhitespace b = true)
    (s : Text) : trimEndReversed (blanks ++ s) = trimEndReversed s := by
  induction blanks with
  | nil => rfl
  | cons b blanks ih =>
    rw [List.cons_append, trimEndReversed.eq_def]
    simp only [h b (by simp), if_true]
    exact ih fun x hx => h x (List.mem_cons_of_mem _ hx)

/-- Trimming visible text with blanks behind it leaves the visible text. -/
theorem trim_append_blanks {s blanks : Text} (hs : ∀ b ∈ s, IsVisible b) (hne : s ≠ [])
    (h : ∀ b ∈ blanks, isAsciiWhitespace b = true) : trim (s ++ blanks) = s := by
  obtain ⟨b, s', rfl⟩ := List.exists_cons_of_ne_nil hne
  have hlast : ∃ c t, (b :: s').reverse = c :: t ∧ IsVisible c := by
    obtain ⟨c, t, hct⟩ := List.exists_cons_of_ne_nil (l := (b :: s').reverse) (by simp)
    refine ⟨c, t, hct, hs c ?_⟩
    rw [← List.mem_reverse, hct]
    simp
  obtain ⟨c, t, hct, hc⟩ := hlast
  rw [trim, List.cons_append, trimStart_of_visible (hs b (by simp)), ← List.cons_append, trimEnd,
    List.reverse_append, trimEndReversed_append (fun x hx => h x (List.mem_reverse.mp hx)), hct,
    trimEndReversed_of_visible hc, ← hct, List.reverse_reverse]

/-! ## Splitting and joining -/

/-- `str::trim_end_matches(c)`. -/
def trimEndMatches (c : UInt8) (s : Text) : Text := s.rdropWhile (· == c)

/-- `slice::join(sep)`. -/
def joinText (sep : Text) (parts : List Text) : Text := sep.intercalate parts

/-- The line without a carriage return at its end. -/
def stripCr (line : Text) : Text := if line.getLast? = some 0x0D then line.dropLast else line

/-- `str::lines`: a line ends at a line feed, and a carriage return before it is dropped; there
is no last line without a character. -/
def lines (s : Text) : List Text :=
  let pieces := s.splitOn 0x0A
  pieces.dropLast.map stripCr ++ (pieces.getLast?.filter (· ≠ [])).toList

/-- The number of bytes of the white space at the front; 0 when no white space stands there. -/
def whitespaceLength : Text → Nat
  | [] => 0
  | b0 :: s =>
    if isAsciiWhitespace b0 then 1
    else
      match s with
      | [] => 0
      | b1 :: s =>
        if isWhitespace2 b0 b1 then 2
        else
          match s with
          | [] => 0
          | b2 :: _ => if isWhitespace3 b0 b1 b2 then 3 else 0

/-- The words of a text behind the bytes of `word`, when `skip` bytes of white space are left
to pass over. -/
def splitWhitespaceFrom (word : Text) : (skip : Nat) → Text → List Text
  | _, [] => if word = [] then [] else [word]
  | skip + 1, _ :: s => splitWhitespaceFrom word skip s
  | 0, b :: s =>
    match whitespaceLength (b :: s) with
    | 0 => splitWhitespaceFrom (word ++ [b]) 0 s
    | n + 1 => (if word = [] then [] else [word]) ++ splitWhitespaceFrom [] n s

/-- `str::split_whitespace`. -/
def splitWhitespace (s : Text) : List Text := splitWhitespaceFrom [] 0 s

end PpcaNetwork
