import PpcaNetwork.Minicaddy.Config

/-!
# Comments in the Caddyfile

What becomes of the sites when a line with a comment is put between two lines of the
file.

* `IsComment` — a line that holds nothing but a comment.
* `BracesCut` — a brace of the comment is taken for one of the file.
* `CutsOff` — the comment parts a body from its address.
* `SameSites` — what stands in two texts describes the same sites.
* `comment_kept_iff` — when the sites stay the same.
-/

namespace PpcaNetwork.Minicaddy.Caddyfile

variable {F : Type}

/-- A line that holds nothing but a comment. -/
def IsComment (line : Chars) : Prop :=
  '\n' ∉ line ∧ ∃ blanks text, (∀ c ∈ blanks, isWhitespace c = true) ∧ line = blanks ++ '#' :: text

/-- The part of the last block that stands in `before`. -/
def blockBefore (before : Chars) : Chars := before.rtakeWhile (· ≠ '}')

/-- The part of the first block that stands in `behind`. -/
def blockBehind (behind : Chars) : Chars := behind.takeWhile (· ≠ '}')

/-- A brace of the comment is taken for one of the file: any that closes a block, and before the
body of its block one that opens it. -/
def BracesCut (cur comment : Chars) : Prop := '}' ∈ comment ∨ ('{' ∈ comment ∧ '{' ∉ cur)

instance (cur comment : Chars) : Decidable (BracesCut cur comment) :=
  inferInstanceAs (Decidable (_ ∨ _))

/-- The comment stands behind a blank line and in front of the body, with the address of the
body before the blank line. -/
structure CutsOff (cur rest : Chars) : Prop where
  before_body : '{' ∉ cur
  body : '{' ∈ rest
  address : addressOf cur ≠ []
  blank_line : ∀ c ∈ cur.rtakeWhile (· ≠ '\n'), isWhitespace c = true
  nothing_between : ∀ c ∈ rest.takeWhile (· ≠ '{'), isWhitespace c = true

/-- What stands in the one text describes the same sites as what stands in the other. -/
def SameSites (parseF64 : Chars → Option F) (rs rs' : List (Chars × List (List Chars))) : Prop :=
  (∀ r ∈ rs, RatesGiven parseF64 r.2) ∧
    rs.map (fun r => described parseF64 r.1 r.2) = rs'.map fun r => described parseF64 r.1 r.2

/-! ## One block -/

theorem IsComment.startsWith_trim {comment : Chars} (h : IsComment comment) :
    startsWith '#' (trim comment) = true := by
  obtain ⟨-, blanks, text, hblanks, rfl⟩ := h
  have hsharp : isWhitespace '#' = false := by decide
  rw [trim, strip_append_cons hsharp, List.dropWhile_eq_nil_iff.mpr hblanks]
  rfl

theorem IsComment.not_blank {comment : Chars} (h : IsComment comment) : trim comment ≠ [] := by
  intro hnil
  have := h.startsWith_trim
  rw [hnil] at this
  exact absurd this (by decide)

/-- The lines around a comment that is put between two lines. -/
theorem strippedLines_comment {comment : Chars} (h : IsComment comment) (s t : Chars) :
    strippedLines isWhitespace '\n' (s ++ '\n' :: (comment ++ '\n' :: t)) =
      strippedLines isWhitespace '\n' s ++ trim comment :: strippedLines isWhitespace '\n' t := by
  rw [strippedLines_append_cons, strippedLines_append_cons, strippedLines_of_not_mem h.1]
  rfl

/-- A comment in a body changes nothing. -/
theorem directives_comment {comment : Chars} (h : IsComment comment) (s t : Chars) :
    directives (s ++ '\n' :: (comment ++ '\n' :: t)) = directives (s ++ '\n' :: t) := by
  have hskip : ¬ isDirective (trim comment) = true := by simp [isDirective, h.startsWith_trim]
  rw [directives, strippedLines_comment h, List.filter_append, List.filter_cons_of_neg hskip,
    directives, strippedLines_append_cons, List.filter_append]

/-- Among the lines of an address a comment is seen only if none but blank lines follow it. -/
theorem lastText_comment {line : Chars} (h : startsWith '#' line = true) (L : List Chars)
    {R : List Chars} (hR : R.rdropWhile (· = []) ≠ []) :
    lastText (L ++ line :: R) = lastText (L ++ R) := by
  have hskip : ∀ M, ((line :: M).filter fun l => !startsWith '#' l) =
      M.filter fun l => !startsWith '#' l := fun M => List.filter_cons_of_neg (by simp [h])
  have hcons : (line :: R).rdropWhile (· = []) = line :: R.rdropWhile (· = []) :=
    rdropWhile_append_of_ne_nil hR [line]
  rw [lastText, rdropWhile_append_of_ne_nil (hcons ▸ List.cons_ne_nil _ _), hcons, lastText,
    rdropWhile_append_of_ne_nil hR, lastLine, List.filter_append, hskip, ← List.filter_append,
    lastLine]

theorem addressOf_comment {comment : Chars} (h : IsComment comment) {s t : Chars}
    (ht : ¬ ∀ c ∈ t, isWhitespace c = true) :
    addressOf (s ++ '\n' :: (comment ++ '\n' :: t)) = addressOf (s ++ '\n' :: t) := by
  have hlines : (strippedLines isWhitespace '\n' t).rdropWhile (· = []) ≠ [] := by
    intro hnil
    rw [List.rdropWhile_eq_nil_iff] at hnil
    refine ht ((strippedLines_eq_nil_iff isWhitespace_newline).mp fun l hl => ?_)
    exact of_decide_eq_true (hnil l hl)
  rw [addressOf_eq, strippedLines_comment h, lastText_comment h.startsWith_trim _ hlines,
    addressOf_eq, strippedLines_append_cons]

theorem addressOf_of_blank {s t : Chars} (ht : ∀ c ∈ t, isWhitespace c = true) :
    addressOf (s ++ '\n' :: t) = addressOf s := by
  have hlines := (strippedLines_eq_nil_iff isWhitespace_newline).mpr ht
  rw [addressOf_eq, strippedLines_append_cons, lastText,
    rdropWhile_append_of_blank fun l hl => decide_eq_true (hlines l hl), ← lastText, addressOf_eq]

/-- Before nothing but blanks a comment ends the address, and what is left of it is the line
before. -/
theorem addressOf_comment_of_blank {comment : Chars} (h : IsComment comment) {s t : Chars}
    (ht : ∀ c ∈ t, isWhitespace c = true) :
    addressOf (s ++ '\n' :: (comment ++ '\n' :: t)) =
      if ∀ c ∈ s.rtakeWhile (· ≠ '\n'), isWhitespace c = true then [] else addressOf s := by
  have hlines := (strippedLines_eq_nil_iff isWhitespace_newline).mpr ht
  have hcomment : ∀ L, (L ++ [trim comment]).rdropWhile (· = []) = L ++ [trim comment] :=
    fun L => List.rdropWhile_concat_neg _ _ _ (by simp [h.not_blank])
  obtain ⟨init, hs⟩ : ∃ init, strippedLines isWhitespace '\n' s = init ++ [_] :=
    strippedLines_eq_concat s
  rw [addressOf_eq, strippedLines_comment h, List.append_cons, lastText,
    rdropWhile_append_of_blank fun l hl => decide_eq_true (hlines l hl),
    hcomment,
    lastLine_append_comments (by simpa using h.startsWith_trim), hs]
  split
  · next hblank =>
    rw [strip_eq_nil_iff.mpr hblank, lastLine_concat_nil]
  · next hblank =>
    rw [← strip_eq_nil_iff] at hblank
    rw [addressOf_eq, hs, lastText, List.rdropWhile_concat_neg _ _ _ (by simpa using hblank)]

/-- The address behind which the comment stands, if the body follows it. -/
theorem addressOf_comment_eq {cur comment addrPart body : Chars} (h : IsComment comment)
    (hcur : '{' ∉ cur) (haddr : '{' ∉ addrPart) (hcut : ¬ CutsOff cur (addrPart ++ '{' :: body)) :
    addressOf (cur ++ '\n' :: (comment ++ '\n' :: addrPart)) =
      addressOf (cur ++ '\n' :: addrPart) := by
  by_cases hblank : ∀ c ∈ addrPart, isWhitespace c = true
  · rw [addressOf_comment_of_blank h hblank, addressOf_of_blank hblank]
    split
    · next hline =>
      by_contra hne
      refine hcut ⟨hcur, by simp, Ne.symm hne, hline, ?_⟩
      rwa [takeWhile_ne_append_cons haddr]
    · rfl
  · exact addressOf_comment h hblank

/-- A comment whose braces do not count is passed over, unless it cuts the address off. -/
theorem reading_comment {cur comment rest : Chars} (h : IsComment comment)
    (hbraces : ¬ BracesCut cur comment) (hcut : ¬ CutsOff cur rest) :
    reading (cur ++ '\n' :: (comment ++ '\n' :: rest)) = reading (cur ++ '\n' :: rest) := by
  by_cases hcur : '{' ∈ cur
  · obtain ⟨addrPart, body, rfl, haddr⟩ := List.eq_append_cons_of_mem hcur
    rw [List.append_assoc, List.append_assoc, List.cons_append, List.cons_append,
      reading_append_cons haddr, reading_append_cons haddr, directives_comment h]
  · have hcomment : '{' ∉ comment := fun hmem => hbraces (.inr ⟨hmem, hcur⟩)
    by_cases hrest : '{' ∈ rest
    · obtain ⟨addrPart, body, rfl, haddr⟩ := List.eq_append_cons_of_mem hrest
      have hnew : '{' ∉ cur ++ '\n' :: (comment ++ '\n' :: addrPart) := by
        simp [hcur, hcomment, haddr]
      have hold : '{' ∉ cur ++ '\n' :: addrPart := by simp [hcur, haddr]
      have hreading := reading_append_cons hnew body
      rw [addressOf_comment_eq h hcur haddr hcut, ← reading_append_cons hold] at hreading
      simpa only [List.append_assoc, List.cons_append] using hreading
    · rw [reading_of_not_mem (by simp [hcur, hcomment, hrest]),
        reading_of_not_mem (by simp [hcur, hrest])]

/-- A comment that cuts the address off leaves a body without a site. -/
theorem reading_comment_of_cutsOff {cur comment rest : Chars} (h : IsComment comment)
    (hbraces : ¬ BracesCut cur comment) (hcut : CutsOff cur rest) :
    reading (cur ++ '\n' :: (comment ++ '\n' :: rest)) = none ∧
      reading (cur ++ '\n' :: rest) ≠ none := by
  obtain ⟨hcur, hrest, haddress, hline, hblank⟩ := hcut
  have hcomment : '{' ∉ comment := fun hmem => hbraces (.inr ⟨hmem, hcur⟩)
  obtain ⟨addrPart, body, rfl, haddr⟩ := List.eq_append_cons_of_mem hrest
  rw [takeWhile_ne_append_cons haddr] at hblank
  have hnew : '{' ∉ cur ++ '\n' :: (comment ++ '\n' :: addrPart) := by
    simp [hcur, hcomment, haddr]
  have hold : '{' ∉ cur ++ '\n' :: addrPart := by simp [hcur, haddr]
  have hreading := reading_append_cons hnew body
  have hreading' := reading_append_cons hold body
  rw [addressOf_comment_of_blank h hblank, if_pos hline, if_pos rfl] at hreading
  rw [addressOf_of_blank hblank, if_neg haddress] at hreading'
  simp only [List.append_assoc, List.cons_append] at hreading hreading'
  exact ⟨hreading, hreading' ▸ Option.some_ne_none _⟩

/-! ## The whole file -/

theorem readings_of_not_mem {block : Chars} (h : '}' ∉ block) :
    readings block = (reading block).toList := by
  rw [readings, List.splitOn_eq_singleton h]
  cases hr : reading block with
  | none => rw [List.filterMap_cons_none hr]; rfl
  | some r => rw [List.filterMap_cons_some hr]; rfl

/-- An edit within a block leaves the sites of an accepted file as they are if it leaves those of
the block. -/
theorem fromCaddyfile_edit {parseF64 : Chars → Option F} {before mid behind : Chars}
    {sites : List (Site F)}
    (h : fromCaddyfile parseF64 (before ++ (mid ++ behind)) = .returns sites)
    (mid' : Chars) :
    fromCaddyfile parseF64 (before ++ (mid' ++ behind)) = .returns sites ↔
      SameSites parseF64 (readings (blockBefore before ++ (mid' ++ blockBehind behind)))
        (readings (blockBefore before ++ (mid ++ blockBehind behind))) := by
  obtain ⟨init, final, hreadings⟩ := readings_append before behind
  rw [fromCaddyfile_eq_returns_iff, hreadings, ← blockBefore, ← blockBehind] at h ⊢
  obtain ⟨hgiven, rfl⟩ := h
  simp only [List.forall_mem_append] at hgiven ⊢
  simp only [List.map_append, List.append_cancel_left_eq, List.append_cancel_right_eq, SameSites]
  exact and_congr_left fun _ => ⟨fun h => h.2.1, fun h => ⟨hgiven.1, h, hgiven.2.2⟩⟩

/-- **A comment leaves the sites as they are** unless its braces are taken for those of the file
or it stands between a blank line and a body, with the address of the body before; and where its
braces do count, if what they make of the block comes to the same. -/
theorem comment_kept_iff {parseF64 : Chars → Option F} {before comment behind : Chars}
    {sites : List (Site F)} (hcomment : IsComment comment)
    (hold : fromCaddyfile parseF64 (before ++ '\n' :: behind) = .returns sites) :
    fromCaddyfile parseF64 (before ++ '\n' :: (comment ++ '\n' :: behind)) = .returns sites ↔
      (¬ BracesCut (blockBefore before) comment ∧
          ¬ CutsOff (blockBefore before) (blockBehind behind)) ∨
        (BracesCut (blockBefore before) comment ∧
          SameSites parseF64
            (readings (blockBefore before ++ '\n' :: (comment ++ '\n' :: blockBehind behind)))
            (readings (blockBefore before ++ '\n' :: blockBehind behind))) := by
  have hold' : fromCaddyfile parseF64 (before ++ (['\n'] ++ behind)) = .returns sites := hold
  have hedit := fromCaddyfile_edit hold' ('\n' :: (comment ++ ['\n']))
  simp only [List.cons_append, List.nil_append, List.append_assoc] at hedit
  rw [hedit]
  by_cases hbraces : BracesCut (blockBefore before) comment
  · simp only [hbraces, not_true_eq_false, false_and, true_and, false_or]
  · have hclose : '}' ∉ comment := fun h => hbraces (.inl h)
    have hbefore : '}' ∉ blockBefore before := not_mem_rtakeWhile_ne '}' before
    have hbehind : '}' ∉ blockBehind behind := not_mem_takeWhile_ne '}' behind
    simp only [hbraces, not_false_eq_true, true_and, false_and, or_false]
    have hnew :
        readings (blockBefore before ++ '\n' :: (comment ++ '\n' :: blockBehind behind)) =
          (reading _).toList := readings_of_not_mem (by simp [hbefore, hclose, hbehind])
    constructor
    · rintro ⟨-, hsame⟩ hcut
      obtain ⟨hnone, hsome⟩ := reading_comment_of_cutsOff hcomment hbraces hcut
      obtain ⟨r, hr⟩ := Option.ne_none_iff_exists'.mp hsome
      rw [hnew, hnone, readings_of_not_mem (by simp [hbefore, hbehind]), hr] at hsame
      exact absurd hsame (by simp)
    · intro hcut
      rw [hnew, reading_comment hcomment hbraces hcut,
        ← readings_of_not_mem (by simp [hbefore, hbehind])]
      exact (fromCaddyfile_edit hold' ['\n']).mp hold'

/-- A brace in a comment within a body does not count. -/
theorem demo_comment_kept :
    fromCaddyfile noNumber
        (":8080 \x7b\n    root ./www".toList ++
          '\n' :: ("    # gzip \x7b".toList ++ '\n' :: "    log\n\x7d\n".toList)) =
      .returns [described noNumber ":8080".toList
        [["root".toList, "./www".toList], ["log".toList]]] := by
  have hcomment : IsComment "    # gzip \x7b".toList :=
    ⟨by decide, "    ".toList, " gzip \x7b".toList, List.all_eq_true.mp (by decide), rfl⟩
  refine (comment_kept_iff hcomment (by decide +kernel)).mpr (.inl ⟨by decide, fun hcut => ?_⟩)
  exact absurd hcut.before_body (by decide)

/-- **A commented-out line that opens a block drops the site behind it**, with its
authorization. -/
theorem demo_site_dropped :
    IsComment "# api.localhost \x7b".toList ∧
      fromCaddyfile noNumber
          ("# Staging".toList ++
            '\n' :: ":8081 \x7b\n    basic_auth admin secret \"Staging\"\n\x7d\n".toList) =
        .returns [described noNumber ":8081".toList
          [["basic_auth".toList, "admin".toList, "secret".toList, "\"Staging\"".toList]]] ∧
      fromCaddyfile noNumber
          ("# Staging".toList ++ '\n' :: ("# api.localhost \x7b".toList ++
            '\n' :: ":8081 \x7b\n    basic_auth admin secret \"Staging\"\n\x7d\n".toList)) =
        .returns [] := by
  refine ⟨⟨by decide, [], " api.localhost \x7b".toList, by simp, rfl⟩, ?_, ?_⟩
  · decide +kernel
  · decide +kernel

end PpcaNetwork.Minicaddy.Caddyfile
