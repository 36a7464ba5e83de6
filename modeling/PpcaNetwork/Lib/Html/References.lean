import PpcaNetwork.Lib.Html.Tokens
import PpcaNetwork.Lib.Numerals

/-!
# Character references

What a text or an attribute value of an HTML page says, once its character references are
decoded.  The tables of the standard are a parameter: the names with what they stand for, and
what the numbers stand for.

* `References` — the tables, with what is known of every entry.
* `References.reference` — the reference behind a `&`; `References.decode` — all of them.
* `decode_eq_iff` — what decoding leaves as it is.
* `decode_eq_or_lt` — everything else becomes lighter, for a weight in which a `&` outweighs
  what it can stand for.
-/

namespace PpcaNetwork.Html

/-- What a reference may stand for: two characters at most, and no `&` among others. -/
def Stands (expansion : Text) : Prop :=
  expansion.length ≤ 8 ∧ (0x26 ∈ expansion → expansion = [0x26])

instance (expansion : Text) : Decidable (Stands expansion) := inferInstanceAs (Decidable (_ ∧ _))

/-- The tables of character references. -/
structure References where
  /-- The names, with their semicolon where they have one. -/
  named : List (Text × Text)
  numeric : Nat → Text
  named_ne : ∀ p ∈ named, p.1 ≠ []
  named_stands : ∀ p ∈ named, Stands p.2
  numeric_stands : ∀ n, Stands (numeric n)

/-- The names of XML. -/
def xmlNames : List (Text × Text) :=
  [(utf8 "amp;", utf8 "&"), (utf8 "lt;", utf8 "<"), (utf8 "gt;", utf8 ">"),
    (utf8 "quot;", utf8 "\""), (utf8 "apos;", utf8 "'")]

theorem xmlNames_spec : ∀ p ∈ xmlNames, p.1 ≠ [] ∧ Stands p.2 := by decide +kernel

/-- ASCII characters by number. -/
def asciiNumeric (n : Nat) : Text := if 0 < n ∧ n < 0x80 then [UInt8.ofNat n] else replacement

theorem stands_asciiNumeric (n : Nat) : Stands (asciiNumeric n) := by
  unfold asciiNumeric
  split
  · exact ⟨by simp, fun h => by rw [List.mem_singleton.mp h]⟩
  · decide

/-- The references of XML, and those by number to ASCII characters. -/
def References.xml : References where
  named := xmlNames
  numeric := asciiNumeric
  named_ne p h := (xmlNames_spec p h).1
  named_stands p h := (xmlNames_spec p h).2
  numeric_stands := stands_asciiNumeric

/-- An ASCII letter or digit. -/
def isAlphanumeric (b : UInt8) : Bool := isLetter b || (0x30 ≤ b && b ≤ 0x39)

/-- Digits and the semicolon behind them: how many bytes they take, and the number. -/
def digitsReference (radix : Nat) (s : Text) : Option (Nat × Nat) :=
  let digits := s.takeWhile fun b => (digitValue radix b).isSome
  if digits = [] then none
  else
    some (digits.length + (if (s.drop digits.length).head? = some 0x3B then 1 else 0),
      (parseDigits radix 0 digits).getD 0)

/-- A number behind `&#`. -/
def numericReference (s : Text) : Option (Nat × Nat) :=
  match s with
  | [] => none
  | b :: rest =>
    if b = 0x78 ∨ b = 0x58 then (digitsReference 16 rest).map fun p => (1 + p.1, p.2)
    else digitsReference 10 s

namespace References

variable (refs : References)

/-- The longest name that stands there. -/
def longestName (s : Text) : Option (Text × Text) :=
  (refs.named.filter fun p => p.1.isPrefixOf s).argmax fun p => p.1.length

/-- What stands behind a `&`: how many bytes belong to the reference, and what it stands for.  In
an attribute a name without a semicolon is no reference when `=`, a letter or a digit
follows. -/
def reference (inAttribute : Bool) (s : Text) : Option (Nat × Text) :=
  if s.head? = some 0x23 then
    (numericReference s.tail).map fun p => (1 + p.1, refs.numeric p.2)
  else
    match refs.longestName s with
    | none => none
    | some (name, expansion) =>
      if inAttribute ∧ name.getLast? ≠ some 0x3B ∧
          ∃ b ∈ (s.drop name.length).head?, b = 0x3D ∨ isAlphanumeric b = true then none
      else some (name.length, expansion)

/-- The text, with its references decoded.  A null character is dropped in text, and replaced in
an attribute. -/
def decodeFrom (inAttribute : Bool) : (skip : Nat) → Text → Text
  | _, [] => []
  | skip + 1, _ :: s => decodeFrom inAttribute skip s
  | 0, b :: s =>
    if b = 0x26 then
      match refs.reference inAttribute s with
      | some (len, expansion) => expansion ++ decodeFrom inAttribute len s
      | none => b :: decodeFrom inAttribute 0 s
    else if b = 0 then (if inAttribute then replacement else []) ++ decodeFrom inAttribute 0 s
    else b :: decodeFrom inAttribute 0 s

/-- All references of a text are decoded. -/
def decode (inAttribute : Bool) (s : Text) : Text := refs.decodeFrom inAttribute 0 s

example : xml.decode true (utf8 "?a=1&lt=2&#38;lt;&lt;&") = utf8 "?a=1&lt=2&lt;<&" := by
  decide +kernel

/-- No `&` in the text begins a reference. -/
def NoReference (inAttribute : Bool) (s : Text) : Prop :=
  ∀ before after, s = before ++ 0x26 :: after → refs.reference inAttribute after = none

end References

/-! ## What a reference takes -/

theorem digitsReference_spec {radix len n : Nat} {s : Text}
    (h : digitsReference radix s = some (len, n)) : 0 < len ∧ len ≤ s.length := by
  simp only [digitsReference, Option.ite_none_left_eq_some, Option.some.injEq, Prod.mk.injEq] at h
  obtain ⟨hne, rfl, -⟩ := h
  have hpos := List.length_pos_iff.mpr hne
  refine ⟨by omega, ?_⟩
  have hle : (s.takeWhile fun b => (digitValue radix b).isSome).length ≤ s.length :=
    (List.takeWhile_prefix _).length_le
  split
  next hsemicolon =>
    have hdrop := List.ne_nil_of_mem (List.mem_of_mem_head? hsemicolon)
    have hlt := List.length_pos_iff.mpr hdrop
    rw [List.length_drop] at hlt
    omega
  · exact hle

theorem numericReference_spec {len n : Nat} {s : Text} (h : numericReference s = some (len, n)) :
    0 < len ∧ len ≤ s.length := by
  unfold numericReference at h
  split at h
  · cases h
  next b rest =>
    split at h
    · obtain ⟨⟨len', n'⟩, hdigits, heq⟩ := Option.map_eq_some_iff.mp h
      obtain ⟨rfl, rfl⟩ := Prod.mk.inj heq
      obtain ⟨hpos, hle⟩ := digitsReference_spec hdigits
      refine ⟨by omega, ?_⟩
      rw [List.length_cons]
      omega
    · exact digitsReference_spec h

namespace References

variable {refs : References} {inAttribute : Bool}

/-- A reference takes at least one byte behind the `&`. -/
theorem reference_spec {s expansion : Text} {len : Nat}
    (h : refs.reference inAttribute s = some (len, expansion)) :
    0 < len ∧ len ≤ s.length ∧ Stands expansion := by
  unfold reference at h
  split at h
  next hhash =>
    obtain ⟨⟨len', n⟩, hnumeric, heq⟩ := Option.map_eq_some_iff.mp h
    obtain ⟨rfl, rfl⟩ := Prod.mk.inj heq
    obtain ⟨hpos, hle⟩ := numericReference_spec hnumeric
    have hne := List.length_pos_iff.mpr (List.ne_nil_of_mem (List.mem_of_mem_head? hhash))
    rw [List.length_tail] at hle
    exact ⟨by omega, by omega, refs.numeric_stands n⟩
  next =>
    split at h
    · cases h
    next name expansion' hname =>
      have hmem := List.mem_filter.mp (List.argmax_mem hname)
      rw [Option.ite_none_left_eq_some] at h
      obtain ⟨rfl, rfl⟩ := Prod.mk.inj (Option.some.inj h.2)
      refine ⟨List.length_pos_iff.mpr (refs.named_ne _ hmem.1), ?_, refs.named_stands _ hmem.1⟩
      exact (List.isPrefixOf_iff_prefix.mp hmem.2).length_le

/-! ## Weights -/

end References

/-- The weight of a text. -/
def weigh (w : UInt8 → Nat) (s : Text) : Nat := (s.map w).sum

section Weights

variable {w : UInt8 → Nat}

@[simp] theorem weigh_nil : weigh w [] = 0 := rfl

@[simp] theorem weigh_cons (b : UInt8) (s : Text) : weigh w (b :: s) = w b + weigh w s :=
  List.sum_cons

@[simp] theorem weigh_append (s t : Text) : weigh w (s ++ t) = weigh w s + weigh w t := by
  rw [weigh, List.map_append, List.sum_append]
  rfl

theorem weigh_take_add_drop (n : Nat) (s : Text) :
    weigh w (s.take n) + weigh w (s.drop n) = weigh w s := by
  rw [← weigh_append, List.take_append_drop]

/-- A text that is the same or lighter weighs no more. -/
theorem weigh_le_of_eq_or_lt {s t : Text} (h : s = t ∨ weigh w s < weigh w t) :
    weigh w s ≤ weigh w t := by
  rcases h with heq | hless
  · rw [heq]
  · exact hless.le

theorem weigh_le_of_sublist {s t : Text} (h : s.Sublist t) : weigh w s ≤ weigh w t :=
  (h.map w).sum_le_sum fun _ _ => Nat.zero_le _

/-- A `&` outweighs what it can stand for. -/
structure Outweighs (w : UInt8 → Nat) : Prop where
  pos : ∀ b, 0 < w b
  amp : ∀ b, b ≠ 0x26 → 8 * w b < w 0x26

theorem Outweighs.weigh_lt (h : Outweighs w) {expansion consumed : Text} (hs : Stands expansion)
    (hne : consumed ≠ []) : weigh w expansion < w 0x26 + weigh w consumed := by
  obtain ⟨b, rest, rfl⟩ := List.exists_cons_of_ne_nil hne
  have hb := h.pos b
  rw [weigh_cons]
  by_cases hamp : 0x26 ∈ expansion
  · rw [hs.2 hamp, weigh_cons, weigh_nil]
    omega
  · have hlight : ∀ n ∈ expansion.map w, n ≤ (w 0x26 - 1) / 8 := by
      intro n hn
      obtain ⟨c, hc, rfl⟩ := List.mem_map.mp hn
      have hlt := h.amp c fun heq => hamp (heq ▸ hc)
      omega
    have hsum := List.sum_le_card_nsmul _ _ hlight
    rw [List.length_map, smul_eq_mul] at hsum
    have hmul := Nat.mul_le_mul_right ((w 0x26 - 1) / 8) hs.1
    have hpos := h.pos 0x26
    change weigh w expansion ≤ _ at hsum
    omega

end Weights

namespace References

variable {refs : References} {inAttribute : Bool} {w : UInt8 → Nat}

/-- A reference is heavier than what it stands for. -/
theorem weigh_reference_lt (hw : Outweighs w) {s expansion rest : Text} {len : Nat}
    (href : refs.reference inAttribute s = some (len, expansion))
    (hrest : weigh w rest ≤ weigh w (s.drop len)) :
    weigh w (expansion ++ rest) < weigh w (0x26 :: s) := by
  obtain ⟨hpos, hle, hstands⟩ := reference_spec href
  have hlt : weigh w expansion < w 0x26 + weigh w (s.take len) := by
    refine hw.weigh_lt hstands fun hnil => ?_
    rcases List.take_eq_nil_iff.mp hnil with hzero | rfl
    · omega
    · rw [List.length_nil] at hle
      omega
  have hsplit := weigh_take_add_drop (w := w) len s
  rw [weigh_append, weigh_cons]
  omega

theorem decodeFrom_eq_or_lt (hw : Outweighs w) {s : Text} (hnull : inAttribute = true → 0 ∉ s)
    (skip : Nat) :
    refs.decodeFrom inAttribute skip s = s.drop skip ∨
      weigh w (refs.decodeFrom inAttribute skip s) < weigh w (s.drop skip) := by
  fun_induction refs.decodeFrom inAttribute skip s with
  | case1 skip => exact .inl (by simp)
  | case2 skip b s ih => exact ih fun h hmem => hnull h (List.mem_cons_of_mem _ hmem)
  | case3 s len expansion href ih =>
    have hrest := ih fun h hmem => hnull h (List.mem_cons_of_mem _ hmem)
    exact .inr (weigh_reference_lt hw href (weigh_le_of_eq_or_lt hrest))
  | case4 s href ih =>
    rcases ih fun h hmem => hnull h (List.mem_cons_of_mem _ hmem) with heq | hless
    · exact .inl (congrArg _ heq)
    · exact .inr (by simpa using hless)
  | case5 s hne ih =>
    cases inAttribute with
    | true => exact absurd List.mem_cons_self (hnull rfl)
    | false =>
      refine .inr ?_
      have hpos := hw.pos 0
      have hrest : weigh w (refs.decodeFrom false 0 s) ≤ weigh w s :=
        weigh_le_of_eq_or_lt (ih fun h => nomatch h)
      simp only [Bool.false_eq_true, if_false, List.nil_append, List.drop_zero, weigh_cons]
      omega
  | case6 b s hamp hzero ih =>
    rcases ih fun h hmem => hnull h (List.mem_cons_of_mem _ hmem) with heq | hless
    · exact .inl (congrArg _ heq)
    · exact .inr (by simpa using hless)

/-- Decoding leaves a text as it is, or makes it lighter. -/
theorem decode_eq_or_lt (hw : Outweighs w) {s : Text} (hnull : inAttribute = true → 0 ∉ s) :
    refs.decode inAttribute s = s ∨ weigh w (refs.decode inAttribute s) < weigh w s :=
  decodeFrom_eq_or_lt hw hnull 0

theorem weigh_decode_le (hw : Outweighs w) {s : Text} (hnull : inAttribute = true → 0 ∉ s) :
    weigh w (refs.decode inAttribute s) ≤ weigh w s :=
  weigh_le_of_eq_or_lt (decode_eq_or_lt hw hnull)

/-- Two texts that weigh the same. -/
theorem decode_eq_of_weigh (hw : Outweighs w) {s : Text} (hnull : inAttribute = true → 0 ∉ s)
    (h : weigh w s ≤ weigh w (refs.decode inAttribute s)) : refs.decode inAttribute s = s :=
  (decode_eq_or_lt hw hnull).resolve_right (not_lt.mpr h)

/-- The weight that counts the bytes, and every `&` nine times. -/
def ampWeight (b : UInt8) : Nat := if b = 0x26 then 9 else 1

theorem outweighs_ampWeight : Outweighs ampWeight where
  pos b := by
    unfold ampWeight
    split <;> decide
  amp b hb := by
    rw [ampWeight, if_neg hb]
    decide

/-! ## What is left as it is -/

theorem noReference_nil : refs.NoReference inAttribute [] := by
  intro before after h
  cases before <;> cases h

theorem noReference_cons {b : UInt8} {s : Text} : refs.NoReference inAttribute (b :: s) ↔
    (b = 0x26 → refs.reference inAttribute s = none) ∧ refs.NoReference inAttribute s := by
  constructor
  · intro h
    refine ⟨?_, fun before after hs => h (b :: before) after (by rw [hs, List.cons_append])⟩
    rintro rfl
    exact h [] s rfl
  · rintro ⟨hhead, htail⟩ before after hs
    cases before with
    | nil =>
      obtain ⟨hb, rfl⟩ := List.cons.inj hs
      exact hhead hb
    | cons c before => exact htail before after (List.cons.inj hs).2

/-- A text without null characters is left as it is exactly when it has no reference. -/
theorem decode_eq_iff {s : Text} (h : 0 ∉ s) :
    refs.decode inAttribute s = s ↔ refs.NoReference inAttribute s := by
  induction s with
  | nil => exact iff_of_true rfl noReference_nil
  | cons b s ih =>
    obtain ⟨hb, hs⟩ := not_or.mp (mt List.mem_cons.mpr h)
    rw [noReference_cons, ← ih hs, decode, decodeFrom]
    by_cases hamp : b = 0x26
    · subst hamp
      rw [if_pos rfl]
      cases href : refs.reference inAttribute s with
      | none => simp [decode]
      | some found =>
        obtain ⟨len, expansion⟩ := found
        refine iff_of_false (fun heq => ?_) fun h => nomatch h.1 rfl
        have hrest : weigh ampWeight (refs.decodeFrom inAttribute len s) ≤
            weigh ampWeight (s.drop len) :=
          weigh_le_of_eq_or_lt (decodeFrom_eq_or_lt outweighs_ampWeight (fun _ => hs) len)
        have hlighter := weigh_reference_lt outweighs_ampWeight href hrest
        exact hlighter.ne (congrArg (weigh ampWeight) heq)
    · rw [if_neg hamp, if_neg (Ne.symm hb)]
      simp [decode, hamp]

end References
end PpcaNetwork.Html
