import Mathlib

/-!
# Texts as lines

Blanks around a text, the pieces between the separators of a text, and the lines of a
text with the blanks around each of them dropped.

* `strip` — a text without the blanks around it.
* `splitOn_append_right` and `splitOn_append_left` — what is put into a text changes
  only the piece that it is put into.
* `strippedLines` — the lines, each stripped.
* `strippedLines_strip` — what disregards blank lines at both ends may be read off the
  stripped text.
-/

namespace PpcaNetwork

variable {α : Type*}

/-! ## Blanks around a text -/

/-- `s` without the blanks around it. -/
def strip (blank : α → Bool) (s : List α) : List α := (s.dropWhile blank).rdropWhile blank

section Strip

variable {blank : α → Bool}

@[simp] theorem strip_nil : strip blank [] = [] := rfl

theorem strip_cons {a : α} (h : blank a = true) (s : List α) :
    strip blank (a :: s) = strip blank s := by
  rw [strip, List.dropWhile_cons_of_pos h, strip]

theorem strip_concat {a : α} (h : blank a = true) (s : List α) :
    strip blank (s ++ [a]) = strip blank s := by
  rw [strip, strip, List.dropWhile_append]
  split
  · next hall =>
    rw [List.dropWhile_cons_of_pos h, List.dropWhile_nil, List.isEmpty_iff.mp hall]
  · exact List.rdropWhile_concat_pos blank _ a h

theorem dropWhile_append_cons {a : α} (h : blank a = false) (s t : List α) :
    (s ++ a :: t).dropWhile blank = s.dropWhile blank ++ a :: t := by
  rw [List.dropWhile_append]
  split
  · next hall =>
    rw [List.isEmpty_iff.mp hall, List.dropWhile_cons_of_neg (by simp [h]), List.nil_append]
  · rfl

theorem rdropWhile_append_cons {a : α} (h : blank a = false) (s t : List α) :
    (s ++ a :: t).rdropWhile blank = s ++ a :: t.rdropWhile blank := by
  rw [List.rdropWhile, List.reverse_append, List.reverse_cons, List.append_assoc,
    List.singleton_append, dropWhile_append_cons h, List.reverse_append, List.reverse_cons,
    List.reverse_reverse, List.append_assoc, List.singleton_append, List.rdropWhile]

theorem rdropWhile_append_of_blank {t : List α} (h : ∀ a ∈ t, blank a = true) (s : List α) :
    (s ++ t).rdropWhile blank = s.rdropWhile blank := by
  rw [List.rdropWhile, List.reverse_append,
    List.dropWhile_append_of_pos fun a ha => h a (List.mem_reverse.mp ha), List.rdropWhile]

theorem rdropWhile_append_of_ne_nil {t : List α} (h : t.rdropWhile blank ≠ []) (s : List α) :
    (s ++ t).rdropWhile blank = s ++ t.rdropWhile blank := by
  have hne : ¬ (t.reverse.dropWhile blank).isEmpty = true := by
    rw [List.isEmpty_iff]
    exact fun hnil => h (List.reverse_eq_nil_iff.mpr hnil)
  rw [List.rdropWhile, List.reverse_append, List.dropWhile_append, if_neg hne,
    List.reverse_append, List.reverse_reverse, List.rdropWhile]

/-- An element that is no blank stays, with all that is between it and another one. -/
theorem strip_append_cons {a : α} (h : blank a = false) (s t : List α) :
    strip blank (s ++ a :: t) = s.dropWhile blank ++ a :: t.rdropWhile blank := by
  rw [strip, dropWhile_append_cons h, rdropWhile_append_cons h]

theorem strip_eq_nil_iff {s : List α} : strip blank s = [] ↔ ∀ a ∈ s, blank a = true := by
  rw [strip, List.rdropWhile_eq_nil_iff]
  constructor
  · intro h a ha
    by_contra hblank
    obtain ⟨s, t, rfl⟩ := List.mem_iff_append.mp ha
    refine hblank (h a ?_)
    rw [dropWhile_append_cons (by simpa using hblank)]
    simp
  · intro h a ha
    exact h a ((List.dropWhile_sublist _).mem ha)

/-- A text that is not blank, around the last of its elements that is no blank. -/
theorem strip_eq_concat {s : List α} (h : strip blank s ≠ []) :
    ∃ t a, blank a = false ∧ strip blank s = t ++ [a] := by
  refine ⟨(strip blank s).dropLast, (strip blank s).getLast h, ?_,
    (List.dropLast_append_getLast h).symm⟩
  exact Bool.eq_false_iff.mpr (List.rdropWhile_last_not blank _ h)

/-- Blanks behind a text do not change what it starts with. -/
theorem head?_strip (s : List α) : (strip blank s).head? = (s.dropWhile blank).head? := by
  rw [strip]
  cases hs : s.dropWhile blank with
  | nil => rfl
  | cons a t =>
    have ha : blank a = false := by
      have := List.head?_dropWhile_not blank s
      rw [hs, List.head?_cons] at this
      simpa using this
    rw [← List.nil_append (a :: t), rdropWhile_append_cons ha]
    rfl

end Strip

/-! ## Pieces between separators -/

section Pieces

variable [DecidableEq α]

/-- What stands before the first separator. -/
theorem takeWhile_ne_append_cons {sep : α} {s : List α} (h : sep ∉ s) (t : List α) :
    (s ++ sep :: t).takeWhile (· ≠ sep) = s := by
  have hne : ∀ a ∈ s, decide (a ≠ sep) = true := fun a ha => decide_eq_true fun e => h (e ▸ ha)
  rw [List.takeWhile_append_of_pos hne, List.takeWhile_cons_of_neg (by simp), List.append_nil]

/-- What stands before the last separator of a text is cut apart by itself. -/
theorem splitOn_append_right (sep : α) (s : List α) :
    ∃ init, ∀ t, (s ++ t).splitOn sep =
      init ++ (s.rtakeWhile (· ≠ sep) ++ t).splitOn sep := by
  induction s using List.reverseRecOn with
  | nil => exact ⟨[], fun t => rfl⟩
  | append_singleton s a ih =>
    by_cases ha : a = sep
    · subst ha
      refine ⟨s.splitOn a, fun t => ?_⟩
      rw [List.rtakeWhile_concat_neg _ _ _ (by simp), List.append_assoc, List.singleton_append,
        List.splitOn_append_cons_self, List.nil_append]
    · obtain ⟨init, h⟩ := ih
      refine ⟨init, fun t => ?_⟩
      rw [List.rtakeWhile_concat_pos _ _ _ (by simpa using ha), List.append_assoc, h,
        List.append_assoc]

/-- What stands behind the first separator of a text is cut apart by itself. -/
theorem splitOn_append_left (sep : α) (s : List α) :
    ∃ final, ∀ t, (t ++ s).splitOn sep =
      (t ++ s.takeWhile (· ≠ sep)).splitOn sep ++ final := by
  by_cases h : sep ∈ s
  · obtain ⟨u, v, rfl, hu⟩ := List.eq_append_cons_of_mem h
    refine ⟨v.splitOn sep, fun t => ?_⟩
    rw [takeWhile_ne_append_cons hu, ← List.append_assoc, List.splitOn_append_cons_self]
  · refine ⟨[], fun t => ?_⟩
    have htake : s.takeWhile (· ≠ sep) = s :=
      List.takeWhile_eq_self_iff.mpr fun a ha => decide_eq_true fun e => h (e ▸ ha)
    rw [htake, List.append_nil]

theorem not_mem_rtakeWhile_ne (sep : α) (s : List α) : sep ∉ s.rtakeWhile (· ≠ sep) :=
  fun h => by simpa using List.mem_rtakeWhile_imp h

theorem not_mem_takeWhile_ne (sep : α) (s : List α) : sep ∉ s.takeWhile (· ≠ sep) :=
  fun h => by simpa using List.mem_takeWhile_imp h

/-- The last piece, to which whatever follows is added. -/
theorem splitOn_concat {sep a : α} (ha : a ≠ sep) (s : List α) :
    ∃ init last, s.splitOn sep = init ++ [last] ∧
      (s ++ [a]).splitOn sep = init ++ [last ++ [a]] := by
  obtain ⟨init, h⟩ := splitOn_append_right sep s
  have hlast := not_mem_rtakeWhile_ne sep s
  refine ⟨init, s.rtakeWhile (· ≠ sep), ?_, ?_⟩
  · simpa only [List.append_nil, List.splitOn_eq_singleton hlast] using h []
  · rw [h, List.splitOn_eq_singleton]
    rw [List.mem_append, List.mem_singleton]
    exact not_or.mpr ⟨hlast, Ne.symm ha⟩

end Pieces

/-! ## Lines without the blanks around them -/

section StrippedLines

variable [DecidableEq α] {blank : α → Bool} {nl : α}

/-- The lines of a text, each without the blanks around it. -/
def strippedLines (blank : α → Bool) (nl : α) (s : List α) : List (List α) :=
  (s.splitOn nl).map (strip blank)

theorem strippedLines_append_cons (s t : List α) :
    strippedLines blank nl (s ++ nl :: t) =
      strippedLines blank nl s ++ strippedLines blank nl t := by
  rw [strippedLines, List.splitOn_append_cons_self, List.map_append, strippedLines, strippedLines]

theorem strippedLines_of_not_mem {s : List α} (h : nl ∉ s) :
    strippedLines blank nl s = [strip blank s] := by
  rw [strippedLines, List.splitOn_eq_singleton h, List.map_singleton]

@[simp] theorem strippedLines_nil : strippedLines blank nl [] = [[]] := rfl

/-- A blank in front of a text adds an empty line or nothing. -/
theorem strippedLines_cons {a : α} (h : blank a = true) (s : List α) :
    strippedLines blank nl (a :: s) =
      if a = nl then [] :: strippedLines blank nl s else strippedLines blank nl s := by
  split
  · next ha =>
    subst ha
    exact strippedLines_append_cons [] s
  · next ha =>
    rw [strippedLines, strippedLines, List.splitOn_cons_eq_if_modifyHead,
      if_neg (by simpa using ha)]
    obtain ⟨line, lines, hlines⟩ := List.exists_cons_of_ne_nil (List.splitOn_ne_nil nl s)
    rw [hlines, List.modifyHead_cons, List.map_cons, List.map_cons, strip_cons h]

/-- A blank behind a text adds an empty line or nothing. -/
theorem strippedLines_concat {a : α} (h : blank a = true) (s : List α) :
    strippedLines blank nl (s ++ [a]) =
      if a = nl then strippedLines blank nl s ++ [[]] else strippedLines blank nl s := by
  split
  · next ha =>
    subst ha
    exact strippedLines_append_cons s []
  · next ha =>
    obtain ⟨init, last, hs, hconcat⟩ := splitOn_concat ha s
    rw [strippedLines, strippedLines, hs, hconcat, List.map_append, List.map_append,
      List.map_singleton, List.map_singleton, strip_concat h]

/-- What disregards an empty line in front disregards all blanks in front. -/
theorem strippedLines_dropWhile {β : Type*} {f : List (List α) → β}
    (hfirst : ∀ L, f ([] :: L) = f L) (s : List α) :
    f (strippedLines blank nl (s.dropWhile blank)) = f (strippedLines blank nl s) := by
  induction s with
  | nil => rfl
  | cons a s ih =>
    by_cases ha : blank a = true
    · rw [List.dropWhile_cons_of_pos ha, ih, strippedLines_cons ha]
      split
      · rw [hfirst]
      · rfl
    · rw [List.dropWhile_cons_of_neg ha]

/-- What disregards an empty line at the end disregards all blanks at the end. -/
theorem strippedLines_rdropWhile {β : Type*} {f : List (List α) → β}
    (hlast : ∀ L, f (L ++ [[]]) = f L) (s : List α) :
    f (strippedLines blank nl (s.rdropWhile blank)) = f (strippedLines blank nl s) := by
  induction s using List.reverseRecOn with
  | nil => rfl
  | append_singleton s a ih =>
    by_cases ha : blank a = true
    · rw [List.rdropWhile_concat_pos _ _ _ ha, ih, strippedLines_concat ha]
      split
      · rw [hlast]
      · rfl
    · rw [List.rdropWhile_concat_neg _ _ _ ha]

/-- What disregards blank lines at both ends of a text may be read off the stripped text. -/
theorem strippedLines_strip {β : Type*} {f : List (List α) → β} (hfirst : ∀ L, f ([] :: L) = f L)
    (hlast : ∀ L, f (L ++ [[]]) = f L) (s : List α) :
    f (strippedLines blank nl (strip blank s)) = f (strippedLines blank nl s) := by
  rw [strip, strippedLines_rdropWhile hlast, strippedLines_dropWhile hfirst]

/-- A text is blank if each of its lines is. -/
theorem strippedLines_eq_nil_iff (hnl : blank nl = true) {s : List α} :
    (∀ line ∈ strippedLines blank nl s, line = []) ↔ ∀ a ∈ s, blank a = true := by
  induction s with
  | nil => simp
  | cons a s ih =>
    rw [List.forall_mem_cons, ← ih]
    by_cases ha : a = nl
    · subst ha
      rw [strippedLines_cons hnl, if_pos rfl, List.forall_mem_cons]
      exact and_congr_left fun _ => ⟨fun _ => hnl, fun _ => rfl⟩
    · obtain ⟨line, lines, hlines⟩ := List.exists_cons_of_ne_nil (List.splitOn_ne_nil nl s)
      rw [strippedLines, strippedLines, List.splitOn_cons_eq_if_modifyHead,
        if_neg (by simpa using ha), hlines, List.modifyHead_cons, List.map_cons, List.map_cons,
        List.forall_mem_cons, List.forall_mem_cons, ← and_assoc]
      refine and_congr_left fun _ => ?_
      rw [strip_eq_nil_iff, strip_eq_nil_iff, List.forall_mem_cons]

/-- The last line is what stands behind the last line feed. -/
theorem strippedLines_eq_concat (s : List α) :
    ∃ init, strippedLines blank nl s = init ++ [strip blank (s.rtakeWhile (· ≠ nl))] := by
  obtain ⟨init, h⟩ := splitOn_append_right nl s
  refine ⟨init.map (strip blank), ?_⟩
  have hs := h []
  rw [List.append_nil, List.append_nil,
    List.splitOn_eq_singleton (not_mem_rtakeWhile_ne nl s)] at hs
  rw [strippedLines, hs, List.map_append, List.map_singleton]

/-- The last line of a stripped text is not blank. -/
theorem strippedLines_of_strip_ne_nil (hnl : blank nl = true) {s : List α}
    (h : strip blank s ≠ []) :
    ∃ init last, strippedLines blank nl (strip blank s) = init ++ [last] ∧ last ≠ [] := by
  obtain ⟨t, a, ha, hs⟩ := strip_eq_concat h
  have hne : a ≠ nl := fun e => by simp [e, hnl] at ha
  obtain ⟨init, last, -, hconcat⟩ := splitOn_concat hne t
  refine ⟨init.map (strip blank), strip blank (last ++ [a]), ?_, fun hnil => ?_⟩
  · rw [strippedLines, hs, hconcat, List.map_append, List.map_singleton]
  · rw [strip_append_cons ha] at hnil
    simp at hnil

end StrippedLines

end PpcaNetwork
