import PpcaNetwork.DnsResolver.Cache
import PpcaNetwork.DnsResolver.NameWalks

/-!
# Names as dotted strings

Inside the resolver a name is a string: `decode_name` puts a dot behind each label,
`encode_name` splits at the dots, and the cache has the string for a key.  A label may
contain any octet, so it may contain a dot.

* `decodeName_labelsAt` — the string that `decode_name` makes of a name.
* `pieces` — the labels that `encode_name` makes of one label.
* `encodeName_nameOf_pieces` — what `encode_name` writes for any labels.
* `names_kept_apart_iff` — names are kept apart, and written as they were read, exactly
  when their labels have no dots.
-/

namespace PpcaNetwork.Dns

/-! ## Reading a name -/

/-- The string that `decode_name` makes of a name, and where it ends. -/
theorem decodeName_labelsAt {msg : List UInt8} {base offset e end' : Nat} {labels : List Label}
    {name : Text} (h : LabelsAt msg base offset labels e)
    (hd : decodeName msg offset = some (name, end')) :
    name = nameOf (lowerName labels) ∧ end' = e := by
  obtain ⟨labels', hwalk, rfl⟩ := decodeName_eq_some_iff.mp hd
  obtain ⟨rfl, rfl⟩ := hwalk.eq_of_labelsAt h
  exact ⟨rfl, rfl⟩

/-! ## Writing a name -/

/-- The labels that `encode_name` makes of one label: what stands between its dots. -/
def pieces (label : Text) : List Text := (label.splitOn dot).filter fun piece => !piece.isEmpty

@[simp] theorem pieces_nil : pieces [] = [] := rfl

theorem pieces_append (s t : Text) : pieces (s ++ dot :: t) = pieces s ++ pieces t := by
  rw [pieces, List.splitOn, List.splitOnP_append_cons s t (by simp), List.filter_append]
  rfl

/-- A label without a dot stays as it is. -/
theorem pieces_of_undotted {label : Text} (hne : label ≠ []) (hdot : dot ∉ label) :
    pieces label = [label] := by
  have hsplit : label.splitOn dot = [label] :=
    List.splitOnP_eq_singleton fun b hb => by
      simpa using fun heq : b = dot => hdot (heq ▸ hb)
  rw [pieces, hsplit]
  simp [hne]

/-- Dots at the end make no labels. -/
theorem pieces_trimEndMatches (s : Text) : pieces (trimEndMatches dot s) = pieces s := by
  induction s using List.reverseRecOn with
  | nil => rfl
  | append_singleton s b ih =>
    by_cases hb : b = dot
    · subst hb
      rw [trimEndMatches, List.rdropWhile_concat_pos _ _ _ (by simp)]
      exact ih.trans ((pieces_append s []).trans (List.append_nil _)).symm
    · rw [trimEndMatches, List.rdropWhile_concat_neg _ _ _ (by simpa using hb)]

theorem encodeName_eq_wireName (name : Text) : encodeName name = wireName (pieces name) := by
  have hflat : ∀ parts : List Text,
      (parts.flatMap fun label => if label.isEmpty then [] else UInt8.ofNat label.length :: label) =
        (parts.filter fun piece => !piece.isEmpty).flatMap wireLabel := by
    intro parts
    induction parts with
    | nil => rfl
    | cons part parts ih =>
      rw [List.flatMap_cons, ih, List.filter_cons]
      cases part with
      | nil => rfl
      | cons b part => rfl
  rw [encodeName, hflat, wireName]
  exact congrArg (fun labels => labels.flatMap wireLabel ++ [0]) (pieces_trimEndMatches name)

theorem pieces_nameOf (labels : List Text) : pieces (nameOf labels) = labels.flatMap pieces := by
  by_cases hne : labels = []
  · subst hne
    decide
  · rw [nameOf_of_ne_nil hne]
    induction labels with
    | nil => exact absurd rfl hne
    | cons label labels ih =>
      by_cases hlast : labels = []
      · subst hlast
        have happend := pieces_append label []
        simpa [joinText] using happend
      · rw [joinText_cons label hlast, List.append_assoc, List.cons_append, pieces_append,
          ih hlast, List.flatMap_cons]

/-- What `encode_name` writes for the name that `decode_name` makes of labels. -/
theorem encodeName_nameOf_pieces (labels : List Text) :
    encodeName (nameOf labels) = wireName (labels.flatMap pieces) := by
  rw [encodeName_eq_wireName, pieces_nameOf]

/-- A label has no dot, or falls apart at its first one. -/
theorem undotted_or_append (label : Text) :
    dot ∉ label ∨ ∃ s t, label = s ++ dot :: t ∧ dot ∉ s := by
  by_cases hdot : dot ∈ label
  · obtain ⟨s, t, rfl, hs⟩ := List.eq_append_cons_of_mem hdot
    exact .inr ⟨s, t, rfl, hs⟩
  · exact .inl hdot

/-- What stands between the dots is not empty and has no dot, and on the wire it takes no
more room than the label. -/
theorem pieces_spec (label : Text) :
    (∀ piece ∈ pieces label, piece ≠ [] ∧ dot ∉ piece) ∧
      ((pieces label).flatMap wireLabel).length ≤ (wireLabel label).length := by
  induction hlen : label.length using Nat.strong_induction_on generalizing label with
  | _ n ih =>
    have hfree : ∀ s : Text, dot ∉ s → (∀ piece ∈ pieces s, piece ≠ [] ∧ dot ∉ piece) ∧
        ((pieces s).flatMap wireLabel).length ≤ (wireLabel s).length := by
      intro s hs
      by_cases hne : s = []
      · subst hne
        exact ⟨by simp [pieces], by simp [pieces]⟩
      · rw [pieces_of_undotted hne hs]
        exact ⟨by simpa using ⟨hne, hs⟩, by simp⟩
    rcases undotted_or_append label with hdot | ⟨s, t, rfl, hs⟩
    · exact hfree label hdot
    · obtain ⟨hs, hsle⟩ := hfree s hs
      have hlt : t.length < n := by
        rw [← hlen, List.length_append, List.length_cons]
        omega
      obtain ⟨ht, htle⟩ := ih t.length hlt t rfl
      rw [pieces_append]
      refine ⟨?_, ?_⟩
      · intro piece hpiece
        exact (List.mem_append.mp hpiece).elim (hs piece) (ht piece)
      · simp only [List.flatMap_append, List.length_append, length_wireLabel,
          List.length_cons] at hsle htle ⊢
        omega

/-- The pieces of labels are labels. -/
theorem valid_pieces {labels : List Label} (h : ∀ l ∈ labels, ValidLabel l) :
    ∀ piece ∈ labels.flatMap pieces, ValidLabel piece := by
  intro piece hpiece
  obtain ⟨l, hl, hpiece⟩ := List.mem_flatMap.mp hpiece
  obtain ⟨hspec, hle⟩ := pieces_spec l
  have hroom := (length_le_length_flatMap hpiece).trans hle
  have hl := (h l hl).le
  simp only [length_wireLabel] at hroom
  exact ⟨List.length_pos_iff.mpr (hspec piece hpiece).1, by omega⟩

/-- The pieces of labels take no more room than the labels. -/
theorem length_wireName_pieces (labels : List Label) :
    (wireName (labels.flatMap pieces)).length ≤ (wireName labels).length := by
  simp only [wireName, List.length_append, List.flatMap_assoc]
  refine Nat.add_le_add_right ?_ _
  rw [List.length_flatMap, List.length_flatMap]
  exact List.sum_le_sum fun l _ => (pieces_spec l).2

/-! ## Labels without dots -/

/-- No label of the name contains a dot. -/
def Undotted (labels : List Label) : Prop := ∀ l ∈ labels, dot ∉ l

instance (labels : List Label) : Decidable (Undotted labels) :=
  inferInstanceAs (Decidable (∀ l ∈ labels, dot ∉ l))

theorem asciiLower_eq_dot {b : UInt8} : asciiLower b = dot ↔ b = dot := by
  constructor
  · intro h
    by_contra hne
    unfold asciiLower at h
    split at h
    · rename_i hcase
      have hb := congrArg UInt8.toNat h
      simp only [UInt8.le_iff_toNat_le, dot, UInt8.toNat_add, UInt8.reduceToNat] at hcase hb
      omega
    · exact hne h
  · rintro rfl
    rfl

theorem dot_mem_toAsciiLowercase {l : Text} : dot ∈ toAsciiLowercase l ↔ dot ∈ l := by
  simp [toAsciiLowercase, asciiLower_eq_dot]

theorem undotted_lowerName {labels : List Label} :
    Undotted (lowerName labels) ↔ Undotted labels := by
  simp [Undotted, lowerName, dot_mem_toAsciiLowercase]

theorem valid_lowerName {labels : List Label} (h : ∀ l ∈ labels, ValidLabel l) :
    ∀ l ∈ lowerName labels, ValidLabel l := by
  intro l hl
  obtain ⟨l, hmem, rfl⟩ := List.mem_map.mp hl
  exact (h l hmem).toAsciiLowercase

/-- Labels are their own pieces exactly when they have no dots. -/
theorem pieces_eq_self_iff {labels : List Label} (h : ∀ l ∈ labels, l ≠ []) :
    labels.flatMap pieces = labels ↔ Undotted labels := by
  constructor
  · intro heq l hl
    rw [← heq] at hl
    obtain ⟨l', -, hpiece⟩ := List.mem_flatMap.mp hl
    exact ((pieces_spec l').1 l hpiece).2
  · intro hdot
    induction labels with
    | nil => rfl
    | cons l labels ih =>
      rw [List.flatMap_cons, pieces_of_undotted (h l (by simp)) (hdot l (by simp)),
        ih (fun l hl => h l (List.mem_cons_of_mem _ hl))
          (fun l hl => hdot l (List.mem_cons_of_mem _ hl)), List.singleton_append]

/-- `encode_name` writes the labels that `decode_name` has read, in lower case, exactly
when they have no dots. -/
theorem encodeName_eq_lowerName_iff {labels : List Label} (h : ∀ l ∈ labels, ValidLabel l) :
    encodeName (nameOf (lowerName labels)) = wireName (lowerName labels) ↔ Undotted labels := by
  have hvalid := valid_lowerName h
  rw [encodeName_nameOf_pieces, ← undotted_lowerName,
    ← pieces_eq_self_iff fun l hl => (hvalid l hl).ne_nil]
  exact ⟨wireName_inj (valid_pieces hvalid) hvalid, fun heq => by rw [heq]⟩

theorem toAsciiLowercase_nameOf (labels : List Label) :
    toAsciiLowercase (nameOf labels) = nameOf (lowerName labels) := by
  by_cases hne : labels = []
  · subst hne
    decide
  · have hne' : ∀ {labels : List Label}, labels ≠ [] → lowerName labels ≠ [] := by
      simp [lowerName]
    rw [nameOf_of_ne_nil hne, nameOf_of_ne_nil (hne' hne)]
    induction labels with
    | nil => exact absurd rfl hne
    | cons l labels ih =>
      by_cases hlast : labels = []
      · subst hlast
        simp only [joinText, lowerName, toAsciiLowercase, List.map_cons, List.map_nil,
          List.intercalate_singleton, List.map_append]
        rfl
      · have hcons : lowerName (l :: labels) = toAsciiLowercase l :: lowerName labels := rfl
        rw [hcons, joinText_cons l hlast, joinText_cons _ (hne' hlast), List.append_assoc,
          List.append_assoc, List.cons_append, List.cons_append, ← ih hlast]
        simp only [toAsciiLowercase, List.map_append, List.map_cons]
        rfl

/-! ## Names apart -/

/-- Of names without dots, the strings are equal up to the case of the names. -/
theorem sameName_of_nameOf_eq {labels labels' : List Label} (h : ∀ l ∈ labels, ValidLabel l)
    (h' : ∀ l ∈ labels', ValidLabel l) (hdot : Undotted labels) (hdot' : Undotted labels')
    (heq : nameOf (lowerName labels) = nameOf (lowerName labels')) : SameName labels labels' := by
  have hwire := (encodeName_eq_lowerName_iff h).mpr hdot
  rw [heq, (encodeName_eq_lowerName_iff h').mpr hdot'] at hwire
  exact wireName_inj (valid_lowerName h) (valid_lowerName h') hwire.symm

/-- **Names are kept apart exactly when they have no dots.**  Take any two names, compressed
or not, that `decode_name` accepts.  That it makes one string of them, or that records of
theirs share a cache key, only if the names are equal up to case, and that `encode_name`
writes the labels of each in lower case: all of it holds if and only if no label of either
contains a dot. -/
theorem names_kept_apart_iff {msg₁ msg₂ : List UInt8} {base₁ base₂ start₁ start₂ e₁ e₂ : Nat}
    {labels₁ labels₂ : List Label} (h₁ : LabelsAt msg₁ base₁ start₁ labels₁ e₁)
    (h₂ : LabelsAt msg₂ base₂ start₂ labels₂ e₂) {name₁ name₂ : Text} {end₁ end₂ : Nat}
    (hd₁ : decodeName msg₁ start₁ = some (name₁, end₁))
    (hd₂ : decodeName msg₂ start₂ = some (name₂, end₂)) :
    ((name₁ = name₂ → SameName labels₁ labels₂) ∧
      (∀ rr₁ rr₂ : DnsRR, rr₁.name = name₁ → rr₂.name = name₂ → rr₁.cacheKey = rr₂.cacheKey →
        SameName labels₁ labels₂) ∧
      encodeName name₁ = wireName (lowerName labels₁) ∧
      encodeName name₂ = wireName (lowerName labels₂)) ↔
    Undotted labels₁ ∧ Undotted labels₂ := by
  obtain ⟨rfl, -⟩ := decodeName_labelsAt h₁ hd₁
  obtain ⟨rfl, -⟩ := decodeName_labelsAt h₂ hd₂
  rw [encodeName_eq_lowerName_iff h₁.valid, encodeName_eq_lowerName_iff h₂.valid]
  refine ⟨fun h => h.2.2, ?_⟩
  rintro ⟨hdot₁, hdot₂⟩
  have hsame := sameName_of_nameOf_eq h₁.valid h₂.valid hdot₁ hdot₂
  refine ⟨hsame, ?_, hdot₁, hdot₂⟩
  intro rr₁ rr₂ hname₁ hname₂ hkey
  have hlower := congrArg CacheKey.name hkey
  simp only [DnsRR.cacheKey, cacheKey, hname₁, hname₂, toAsciiLowercase_nameOf] at hlower
  refine hsame ?_
  simpa [lowerName, Function.comp_def] using hlower

/-- `WWW.example` and `www.test`, read from a message in which the first stands behind a
pointer. -/
theorem demo_names_kept_apart :
    ((utf8 "www.example." = utf8 "www.test." →
        SameName [utf8 "WWW", utf8 "example"] [utf8 "www", utf8 "test"]) ∧
      (∀ rr₁ rr₂ : DnsRR, rr₁.name = utf8 "www.example." → rr₂.name = utf8 "www.test." →
        rr₁.cacheKey = rr₂.cacheKey →
          SameName [utf8 "WWW", utf8 "example"] [utf8 "www", utf8 "test"]) ∧
      encodeName (utf8 "www.example.") = wireName (lowerName [utf8 "WWW", utf8 "example"]) ∧
      encodeName (utf8 "www.test.") = wireName (lowerName [utf8 "www", utf8 "test"])) := by
  have hvalid : ∀ l ∈ [utf8 "WWW", utf8 "example", utf8 "www", utf8 "test"], ValidLabel l := by
    intro l hl
    simp only [List.mem_cons, List.not_mem_nil, or_false] at hl
    rcases hl with rfl | rfl | rfl | rfl
    · exact ⟨by decide, by decide⟩
    · exact ⟨by decide, by decide⟩
    · exact ⟨by decide, by decide⟩
    · exact ⟨by decide, by decide⟩
  -- `example` at the front, and `WWW` with a pointer to it behind
  have hexample : LabelsAt (wireName [utf8 "example"] ++ wireLabel (utf8 "WWW") ++ pointerTo 0) 0 0
      [utf8 "example"] 9 :=
    .of_wireName 0 (fun l hl => hvalid l (by simp_all))
      ⟨[], wireLabel (utf8 "WWW") ++ pointerTo 0, by simp, rfl⟩
  have hwww : LabelsAt (wireName [utf8 "example"] ++ wireLabel (utf8 "WWW") ++ pointerTo 0) 0 9
      [utf8 "WWW", utf8 "example"] 15 :=
    .label (hvalid _ (by simp)) ⟨wireName [utf8 "example"], pointerTo 0, rfl, by decide⟩
      (.pointer (Nat.le_refl 0) (by decide)
        ⟨wireName [utf8 "example"] ++ wireLabel (utf8 "WWW"), [], by simp, by decide⟩ hexample)
  have htest : LabelsAt (wireName [utf8 "www", utf8 "test"]) 0 0 [utf8 "www", utf8 "test"] 10 :=
    .of_wireName 0 (fun l hl => hvalid l (by simp_all)) (.self _)
  have hdecode : decodeName (wireName [utf8 "example"] ++ wireLabel (utf8 "WWW") ++ pointerTo 0) 9 =
      some (utf8 "www.example.", 15) := by decide +kernel
  have hdecode' : decodeName (wireName [utf8 "www", utf8 "test"]) 0 =
      some (utf8 "www.test.", 10) := by decide +kernel
  exact (names_kept_apart_iff hwww htest hdecode hdecode').mpr ⟨by decide, by decide⟩

/-- The label `a.b` is confused with the labels `a` and `b`: one string and one cache key,
and it is written as two labels. -/
theorem demo_dotted_label :
    LabelsAt (wireName [utf8 "a.b"]) 0 0 [utf8 "a.b"] 5 ∧
      LabelsAt (wireName [utf8 "a", utf8 "b"]) 0 0 [utf8 "a", utf8 "b"] 5 ∧
      decodeName (wireName [utf8 "a.b"]) 0 = some (utf8 "a.b.", 5) ∧
      decodeName (wireName [utf8 "a", utf8 "b"]) 0 = some (utf8 "a.b.", 5) ∧
      ¬ SameName [utf8 "a.b"] [utf8 "a", utf8 "b"] ∧
      encodeName (utf8 "a.b.") = wireName [utf8 "a", utf8 "b"] ∧
      encodeName (utf8 "a.b.") ≠ wireName (lowerName [utf8 "a.b"]) := by
  refine ⟨.of_wireName 0 ?_ (.self _), .of_wireName 0 ?_ (.self _), by decide +kernel,
    by decide +kernel, by decide, by decide, by decide⟩
  · intro l hl
    obtain rfl := List.mem_singleton.mp hl
    exact ⟨by decide, by decide⟩
  · intro l hl
    simp only [List.mem_cons, List.not_mem_nil, or_false] at hl
    rcases hl with rfl | rfl
    · exact ⟨by decide, by decide⟩
    · exact ⟨by decide, by decide⟩

end PpcaNetwork.Dns
