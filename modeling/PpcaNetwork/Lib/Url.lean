import PpcaNetwork.Lib.Html.References
import PpcaNetwork.Lib.Lines

/-!
# Links within a server

The request that a browser makes for a link, as the URL standard has it, when the link names a
place on the server of its page: an attribute value that begins with one slash.  What the
server is asked for is the path and the query, percent-encoded.

* `percentEncode`, `walk` — the bytes of a path and of a query, and the segments of a path.
* `followed` — the target of the request; nothing for other kinds of links.
* `Literal` — the links that are asked for as they are written: `followed_eq_self_iff`.
* `weigh_followed_le` — no request is heavier than its link.
-/

namespace PpcaNetwork.Url

open Html

/-! ## Bytes -/

/-- A backslash is a slash, too. -/
def isSlash (b : UInt8) : Bool := b = 0x2F || b = 0x5C

/-- Controls, the space, what is not ASCII, quotation marks, `#`, `<` and `>`: no URL has them. -/
def alwaysEncoded (b : UInt8) : Bool :=
  b ≤ 0x20 || 0x7F ≤ b || b = 0x22 || b = 0x23 || b = 0x3C || b = 0x3E

/-- The bytes that are encoded in a path. -/
def pathEncoded (b : UInt8) : Bool :=
  alwaysEncoded b || b = 0x3F || b = 0x5E || b = 0x60 || b = 0x7B || b = 0x7D

/-- The bytes that are encoded in a query. -/
def queryEncoded (b : UInt8) : Bool := alwaysEncoded b || b = 0x27

/-- The digit with value `n`, in capitals. -/
def upperHexDigit (n : Nat) : UInt8 := UInt8.ofNat (if n < 10 then 0x30 + n else 0x37 + n)

/-- A percent sign and two digits. -/
def percentEncodeByte (b : UInt8) : Text :=
  [0x25, upperHexDigit (b.toNat / 16), upperHexDigit (b.toNat % 16)]

/-- The bytes that `encoded` names are percent-encoded. -/
def percentEncode (encoded : UInt8 → Bool) (s : Text) : Text :=
  s.flatMap fun b => if encoded b then percentEncodeByte b else [b]

/-! ## Requests -/

/-- A segment that stays where it is. -/
def isDot (segment : Text) : Bool :=
  toAsciiLowercase segment = [0x2E] || toAsciiLowercase segment = [0x25, 0x32, 0x65]

/-- A segment that goes up, with either dot percent-encoded or not. -/
def isDotDot (segment : Text) : Bool :=
  toAsciiLowercase segment = [0x2E, 0x2E] || toAsciiLowercase segment = [0x2E, 0x25, 0x32, 0x65] ||
    toAsciiLowercase segment = [0x25, 0x32, 0x65, 0x2E] ||
    toAsciiLowercase segment = [0x25, 0x32, 0x65, 0x25, 0x32, 0x65]

/-- The path after a segment. -/
def enter (path : List Text) (segment : Text) : List Text :=
  if isDotDot segment then path.dropLast
  else if isDot segment then path
  else path ++ [percentEncode pathEncoded segment]

/-- The path after its segments; behind dots there is still a slash at its end. -/
def walk (path : List Text) : List Text → List Text
  | [] => path
  | [last] =>
    if isDotDot last ∨ isDot last then enter path last ++ [[]] else enter path last
  | segment :: next :: rest => walk (enter path segment) (next :: rest)

/-- Segments, each behind its slash. -/
def join (path : List Text) : Text := path.flatMap (0x2F :: ·)

/-- A link without the blanks around it and without its tabs and line ends. -/
def clean (link : Text) : Text :=
  (strip (fun b => decide (b ≤ 0x20)) link).filter fun b => b ≠ 0x09 && b ≠ 0x0A && b ≠ 0x0D

/-- What is asked for, given what follows the first slash of a link. -/
def target (rest : Text) : Text :=
  let rest := rest.takeWhile (· ≠ 0x23)
  join (walk [] ((rest.takeWhile (· ≠ 0x3F)).splitOnP isSlash)) ++
    percentEncode queryEncoded (rest.dropWhile (· ≠ 0x3F))

/-- The target of the request for a link that begins with one slash. -/
def followed (link : Text) : Option Text :=
  match clean link with
  | [] => none
  | a :: rest =>
    if isSlash a ∧ ∀ b ∈ rest.head?, isSlash b = false then some (target rest) else none

/-- Neither the path nor the query of a text has a byte that is encoded there, and no segment of
the path goes up or stays. -/
structure Encoded (u : Text) : Prop where
  path : ∀ b ∈ u.takeWhile (· ≠ 0x3F), pathEncoded b = false ∧ b ≠ 0x5C
  query : ∀ b ∈ u.dropWhile (· ≠ 0x3F), queryEncoded b = false
  segments : ∀ s ∈ (u.takeWhile (· ≠ 0x3F)).splitOn 0x2F, isDot s = false ∧ isDotDot s = false

/-- A link that is asked for as it is written: it is encoded, and begins with one slash. -/
structure Literal (link : Text) : Prop extends Encoded link where
  slash : ∃ rest, link = 0x2F :: rest ∧ rest.head? ≠ some 0x2F

/-! ## Percent-encoding -/

section PercentEncode

variable {encoded : UInt8 → Bool} {s : Text}

/-- The bytes of an escape. -/
def isEscapeByte (b : UInt8) : Bool := b = 0x25 || (0x30 ≤ b && b ≤ 0x39) || (0x41 ≤ b && b ≤ 0x46)

theorem isEscapeByte_of_mem {b c : UInt8} (h : c ∈ percentEncodeByte b) :
    isEscapeByte c = true := by
  have hdigit : ∀ n < 16, isEscapeByte (upperHexDigit n) = true := by decide
  have hb := b.toNat_lt
  simp only [percentEncodeByte, List.mem_cons, List.not_mem_nil, or_false] at h
  rcases h with rfl | rfl | rfl
  · rfl
  · exact hdigit _ (by omega)
  · exact hdigit _ (Nat.mod_lt _ (by decide))

/-- What is encoded consists of escapes and of bytes that are not encoded. -/
theorem mem_percentEncode {b : UInt8} (h : b ∈ percentEncode encoded s) :
    isEscapeByte b = true ∨ b ∈ s ∧ encoded b = false := by
  obtain ⟨c, hc, hb⟩ := List.mem_flatMap.mp h
  split at hb
  · exact .inl (isEscapeByte_of_mem hb)
  next hencoded =>
    rw [List.mem_singleton] at hb
    subst hb
    exact .inr ⟨hc, Bool.eq_false_of_not_eq_true hencoded⟩

theorem percentEncode_eq_self (h : ∀ b ∈ s, encoded b = false) : percentEncode encoded s = s := by
  induction s with
  | nil => rfl
  | cons b s ih =>
    have hb := h b List.mem_cons_self
    rw [percentEncode, List.flatMap_cons, if_neg (by simp [hb])]
    exact congrArg (b :: ·) (ih fun c hc => h c (List.mem_cons_of_mem _ hc))

theorem escape_not_encoded {b : UInt8} (h : isEscapeByte b = true) :
    pathEncoded b = false ∧ queryEncoded b = false ∧ isSlash b = false := by
  revert b
  decide +kernel

/-- All escapes of the text, in lower case, are those of a dot. -/
def onlyDotEscapes : Text → Bool
  | [] => true
  | b :: s => (b ≠ 0x25 || s.take 2 = [0x32, 0x65]) && onlyDotEscapes s

/-- A dot is never encoded, so an encoded text that has only its escapes had them before. -/
theorem percentEncode_eq_self_of_onlyDotEscapes
    (h : onlyDotEscapes (toAsciiLowercase (percentEncode pathEncoded s)) = true) :
    percentEncode pathEncoded s = s := by
  induction s with
  | nil => rfl
  | cons b s ih =>
    have hnotdot : ∀ c : UInt8, pathEncoded c = true →
        asciiLower (upperHexDigit (c.toNat / 16)) ≠ 0x32 ∨
          asciiLower (upperHexDigit (c.toNat % 16)) ≠ 0x65 := by decide +kernel
    rw [percentEncode, List.flatMap_cons] at h ⊢
    by_cases hb : pathEncoded b = true
    · rw [if_pos hb] at h
      simp only [toAsciiLowercase, percentEncodeByte, List.cons_append, List.nil_append,
        List.map_cons, onlyDotEscapes, List.take_succ_cons, List.take_zero, Bool.and_eq_true,
        Bool.or_eq_true, decide_eq_true_eq] at h
      have hfirst := h.1.resolve_left (by decide)
      simp only [List.cons.injEq, and_true, decide_eq_true_eq] at hfirst
      exact absurd hfirst (not_and_or.mpr (hnotdot b hb))
    · rw [if_neg hb] at h ⊢
      simp only [toAsciiLowercase, List.cons_append, List.nil_append, List.map_cons, onlyDotEscapes,
        Bool.and_eq_true] at h
      exact congrArg (b :: ·) (ih h.2)

theorem onlyDotEscapes_of_dots (h : isDot s = true ∨ isDotDot s = true) :
    onlyDotEscapes (toAsciiLowercase s) = true := by
  simp only [isDot, isDotDot, Bool.or_eq_true, decide_eq_true_eq] at h
  rcases h with (h | h) | ((h | h) | h) | h <;> rw [h] <;> rfl

/-- Encoding makes no dots. -/
theorem not_dots_percentEncode (h : isDot s = false ∧ isDotDot s = false) :
    isDot (percentEncode pathEncoded s) = false ∧
      isDotDot (percentEncode pathEncoded s) = false := by
  by_contra hdots
  have hsame : percentEncode pathEncoded s = s := by
    refine percentEncode_eq_self_of_onlyDotEscapes (onlyDotEscapes_of_dots ?_)
    rw [not_and_or] at hdots
    simpa using hdots
  rw [hsame] at hdots
  exact hdots h

end PercentEncode

/-! ## Segments -/

/-- A segment as it stands in a request: encoded, within its slashes, and no dots. -/
def IsSegment (s : Text) : Prop :=
  (∀ b ∈ s, pathEncoded b = false ∧ isSlash b = false) ∧ isDot s = false ∧ isDotDot s = false

theorem isSegment_nil : IsSegment [] := ⟨fun _ h => (nomatch h), rfl, rfl⟩

section Walk

variable {path segments : List Text}

theorem isSegment_enter {segment : Text} (hpath : ∀ s ∈ path, IsSegment s)
    (hslash : ∀ b ∈ segment, isSlash b = false) : ∀ s ∈ enter path segment, IsSegment s := by
  unfold enter
  split_ifs with hup hstay
  · exact fun s hs => hpath s (List.mem_of_mem_dropLast hs)
  · exact hpath
  · intro s hs
    rcases List.mem_append.mp hs with hold | hnew
    · exact hpath s hold
    · rw [List.mem_singleton.mp hnew]
      refine ⟨fun b hb => ?_, not_dots_percentEncode
        ⟨Bool.eq_false_of_not_eq_true hstay, Bool.eq_false_of_not_eq_true hup⟩⟩
      rcases mem_percentEncode hb with hescape | ⟨hmem, hliteral⟩
      · obtain ⟨hpathEncoded, -, hnot⟩ := escape_not_encoded hescape
        exact ⟨hpathEncoded, hnot⟩
      · exact ⟨hliteral, hslash b hmem⟩

/-- The segments of a request. -/
theorem isSegment_walk (hpath : ∀ s ∈ path, IsSegment s)
    (hslash : ∀ s ∈ segments, ∀ b ∈ s, isSlash b = false) :
    ∀ s ∈ walk path segments, IsSegment s := by
  fun_induction walk path segments with
  | case1 path => exact hpath
  | case2 path last hdots =>
    intro s hs
    rcases List.mem_append.mp hs with hold | hnew
    · exact isSegment_enter hpath (hslash last List.mem_cons_self) s hold
    · rw [List.mem_singleton.mp hnew]
      exact isSegment_nil
  | case3 path last hdots => exact isSegment_enter hpath (hslash last List.mem_cons_self)
  | case4 path segment next rest ih =>
    exact ih (isSegment_enter hpath (hslash segment List.mem_cons_self))
      fun s hs => hslash s (List.mem_cons_of_mem _ hs)

/-- Segments that are as they stand in a request stay so. -/
theorem walk_eq_append (h : ∀ s ∈ segments, IsSegment s) :
    walk path segments = path ++ segments := by
  have hside : ∀ path s, IsSegment s → enter path s = path ++ [s] := by
    rintro path s ⟨hbytes, hdot, hdotdot⟩
    rw [enter, if_neg (by simp [hdotdot]), if_neg (by simp [hdot]),
      percentEncode_eq_self fun b hb => (hbytes b hb).1]
  fun_induction walk path segments with
  | case1 path => simp
  | case2 path last hdots =>
    obtain ⟨-, hdot, hdotdot⟩ := h last List.mem_cons_self
    simp [hdot, hdotdot] at hdots
  | case3 path last hdots => exact hside path last (h last List.mem_cons_self)
  | case4 path segment next rest ih =>
    rw [ih fun s hs => h s (List.mem_cons_of_mem _ hs), hside path segment (h _ List.mem_cons_self),
      List.append_assoc]
    rfl

end Walk

/-- What is between the slashes of a path. -/
theorem mem_splitOnP_slash {p s : Text} (hs : s ∈ p.splitOnP isSlash) :
    ∀ b ∈ s, b ∈ p ∧ isSlash b = false := by
  induction p generalizing s with
  | nil =>
    rw [List.splitOnP_nil, List.mem_singleton] at hs
    simp [hs]
  | cons a p ih =>
    rw [List.splitOnP_cons_eq_if_modifyHead] at hs
    split at hs
    next hslash =>
      rcases List.mem_cons.mp hs with rfl | hrest
      · simp
      · exact fun b hb => ⟨List.mem_cons_of_mem _ (ih hrest b hb).1, (ih hrest b hb).2⟩
    next hslash =>
      obtain ⟨first, rest, hsplit⟩ := List.exists_cons_of_ne_nil (List.splitOnP_ne_nil isSlash p)
      rw [hsplit, List.modifyHead_cons] at hs
      rw [hsplit] at ih
      intro b hb
      rcases List.mem_cons.mp hs with rfl | hrest
      · rcases List.mem_cons.mp hb with rfl | hb
        · exact ⟨List.mem_cons_self, Bool.eq_false_of_not_eq_true hslash⟩
        · obtain ⟨hmem, hnot⟩ := ih List.mem_cons_self b hb
          exact ⟨List.mem_cons_of_mem _ hmem, hnot⟩
      · obtain ⟨hmem, hnot⟩ := ih (List.mem_cons_of_mem _ hrest) b hb
        exact ⟨List.mem_cons_of_mem _ hmem, hnot⟩

theorem join_append (path path' : List Text) : join (path ++ path') = join path ++ join path' :=
  List.flatMap_append

theorem join_cons (s : Text) (path : List Text) : join (s :: path) = 0x2F :: (s ++ join path) := by
  rw [join, List.flatMap_cons, List.cons_append]
  rfl

theorem splitOn_append_join {s : Text} {path : List Text} (hs : 0x2F ∉ s)
    (h : ∀ t ∈ path, 0x2F ∉ t) : (s ++ join path).splitOn 0x2F = s :: path := by
  induction path generalizing s with
  | nil =>
    rw [join, List.flatMap_nil, List.append_nil]
    exact List.splitOn_eq_singleton hs
  | cons t path ih =>
    rw [join_cons, List.splitOn_append_cons_self_of_not_mem hs,
      ih (h t List.mem_cons_self) fun u hu => h u (List.mem_cons_of_mem _ hu)]

/-- Segments are put together and taken apart. -/
theorem splitOn_join {path : List Text} (h : ∀ t ∈ path, 0x2F ∉ t) :
    (join path).splitOn 0x2F = [] :: path :=
  splitOn_append_join List.not_mem_nil h

/-! ## Weights -/

/-- What a byte weighs: as much as what it is encoded as, and a `&` more than all else. -/
def urlWeight (b : UInt8) : Nat :=
  if b = 0x26 then 25 else if pathEncoded b || queryEncoded b then 3 else 1

theorem outweighs_urlWeight : Outweighs urlWeight where
  pos b := by
    unfold urlWeight
    split_ifs <;> decide
  amp b hb := by
    have hlight : urlWeight b ≤ 3 := by
      unfold urlWeight
      rw [if_neg hb]
      split <;> decide
    have hheavy : urlWeight 0x26 = 25 := by decide
    omega

theorem weigh_percentEncode_le {encoded : UInt8 → Bool}
    (h : ∀ b, encoded b = true → urlWeight b = 3) (s : Text) :
    weigh urlWeight (percentEncode encoded s) ≤ weigh urlWeight s := by
  have hescape : ∀ b : UInt8, weigh urlWeight (percentEncodeByte b) = 3 := by decide +kernel
  induction s with
  | nil => exact le_refl _
  | cons b s ih =>
    rw [percentEncode, List.flatMap_cons, weigh_append, weigh_cons]
    refine Nat.add_le_add ?_ ih
    split
    next hb => rw [hescape, h b hb]
    · simp

theorem weigh_pathEncoded_le (s : Text) :
    weigh urlWeight (percentEncode pathEncoded s) ≤ weigh urlWeight s :=
  weigh_percentEncode_le (by decide +kernel) s

theorem weigh_queryEncoded_le (s : Text) :
    weigh urlWeight (percentEncode queryEncoded s) ≤ weigh urlWeight s :=
  weigh_percentEncode_le (by decide +kernel) s

@[simp] theorem weigh_join_nil : weigh urlWeight (join []) = 0 := rfl

theorem weigh_join_cons (s : Text) (path : List Text) :
    weigh urlWeight (join (s :: path)) = 1 + weigh urlWeight s + weigh urlWeight (join path) := by
  have hslash : urlWeight 0x2F = 1 := by decide
  rw [join_cons, weigh_cons, weigh_append, hslash, Nat.add_assoc]

theorem weigh_join_append (path path' : List Text) : weigh urlWeight (join (path ++ path')) =
    weigh urlWeight (join path) + weigh urlWeight (join path') := by
  rw [join_append, weigh_append]

theorem weigh_join_dropLast_le (path : List Text) :
    weigh urlWeight (join path.dropLast) ≤ weigh urlWeight (join path) :=
  weigh_le_of_sublist ((List.dropLast_sublist path).flatMap _)

/-- Entering a segment adds no more than it weighs, with its slash. -/
theorem weigh_enter_le (path : List Text) (segment : Text) :
    weigh urlWeight (join (enter path segment)) ≤
      weigh urlWeight (join path) + (1 + weigh urlWeight segment) := by
  unfold enter
  split_ifs
  · exact (weigh_join_dropLast_le path).trans (Nat.le_add_right _ _)
  · exact Nat.le_add_right _ _
  · have hencoded := weigh_pathEncoded_le segment
    rw [weigh_join_append, weigh_join_cons, weigh_join_nil]
    omega

theorem weigh_walk_le (path segments : List Text) :
    weigh urlWeight (join (walk path segments)) ≤
      weigh urlWeight (join path) + weigh urlWeight (join segments) := by
  fun_induction walk path segments with
  | case1 path => exact Nat.le_add_right _ _
  | case2 path last hdots =>
    have hkept : weigh urlWeight (join (enter path last)) ≤ weigh urlWeight (join path) := by
      unfold enter
      split_ifs with hup hstay
      · exact weigh_join_dropLast_le path
      · exact le_refl _
      · exact absurd hdots (by simp [hup, hstay])
    rw [weigh_join_append, weigh_join_cons, weigh_join_cons, weigh_join_nil, weigh_nil]
    omega
  | case3 path last hdots =>
    have henter := weigh_enter_le path last
    rw [weigh_join_cons, weigh_join_nil]
    omega
  | case4 path segment next rest ih =>
    have henter := weigh_enter_le path segment
    rw [weigh_join_cons segment]
    omega

theorem weigh_join_splitOnP_le (p : Text) :
    weigh urlWeight (join (p.splitOnP isSlash)) ≤ 1 + weigh urlWeight p := by
  induction p with
  | nil => decide
  | cons a p ih =>
    rw [List.splitOnP_cons_eq_if_modifyHead, weigh_cons]
    split
    next hslash =>
      have hpos := outweighs_urlWeight.pos a
      rw [weigh_join_cons, weigh_nil]
      omega
    next hslash =>
      obtain ⟨first, rest, hsplit⟩ := List.exists_cons_of_ne_nil (List.splitOnP_ne_nil isSlash p)
      rw [hsplit, weigh_join_cons] at ih
      rw [hsplit, List.modifyHead_cons, weigh_join_cons, weigh_cons]
      omega

theorem clean_sublist (link : Text) : (clean link).Sublist link :=
  List.filter_sublist.trans
    ((List.rdropWhile_prefix _ _).sublist.trans (List.dropWhile_suffix _).sublist)

theorem weigh_target_le (rest : Text) :
    weigh urlWeight (target rest) ≤ 1 + weigh urlWeight rest := by
  have hcut := weigh_le_of_sublist (w := urlWeight)
    (List.takeWhile_prefix (fun b => decide (b ≠ 0x23)) (l := rest)).sublist
  unfold target
  dsimp only
  set link := rest.takeWhile (· ≠ 0x23)
  have hwalk := weigh_walk_le [] ((link.takeWhile (· ≠ 0x3F)).splitOnP isSlash)
  have hsplit := weigh_join_splitOnP_le (link.takeWhile (· ≠ 0x3F))
  have hquery := weigh_queryEncoded_le (link.dropWhile (· ≠ 0x3F))
  have hparts : weigh urlWeight (link.takeWhile (· ≠ 0x3F)) +
      weigh urlWeight (link.dropWhile (· ≠ 0x3F)) = weigh urlWeight link := by
    rw [← weigh_append, List.takeWhile_append_dropWhile]
  rw [weigh_join_nil] at hwalk
  rw [weigh_append]
  omega

theorem followed_spec {link u : Text} (h : followed link = some u) :
    ∃ a rest, clean link = a :: rest ∧ isSlash a = true ∧
      (∀ b ∈ rest.head?, isSlash b = false) ∧ u = target rest := by
  unfold followed at h
  split at h
  · cases h
  next a rest hclean =>
    rw [Option.ite_none_right_eq_some, Option.some.injEq] at h
    exact ⟨a, rest, hclean, h.1.1, h.1.2, h.2.symm⟩

/-- A request weighs no more than its link. -/
theorem weigh_followed_le {link u : Text} (h : followed link = some u) :
    weigh urlWeight u ≤ weigh urlWeight link := by
  obtain ⟨a, rest, hclean, -, -, rfl⟩ := followed_spec h
  have hpos := outweighs_urlWeight.pos a
  have hsublist := weigh_le_of_sublist (w := urlWeight) (clean_sublist link)
  have htarget := weigh_target_le rest
  rw [hclean, weigh_cons] at hsublist
  omega

/-! ## What is asked for -/

theorem alwaysEncoded_of_pathEncoded {b : UInt8} (h : pathEncoded b = false) :
    alwaysEncoded b = false := by
  simp only [pathEncoded, Bool.or_eq_false_iff] at h
  exact h.1.1.1.1.1

theorem alwaysEncoded_of_queryEncoded {b : UInt8} (h : queryEncoded b = false) :
    alwaysEncoded b = false := by
  simp only [queryEncoded, Bool.or_eq_false_iff] at h
  exact h.1

theorem Encoded.bytes {u : Text} (h : Encoded u) : ∀ b ∈ u, alwaysEncoded b = false := by
  intro b hb
  rw [← List.takeWhile_append_dropWhile (p := fun b : UInt8 => decide (b ≠ 0x3F)) (l := u),
    List.mem_append] at hb
  rcases hb with hpath | hquery
  · exact alwaysEncoded_of_pathEncoded (h.path b hpath).1
  · exact alwaysEncoded_of_queryEncoded (h.query b hquery)

theorem encoded_join_append {path : List Text} {query : Text} (hpath : ∀ s ∈ path, IsSegment s)
    (hquery : ∀ b ∈ query, queryEncoded b = false) (hhead : ∀ b ∈ query.head?, b = 0x3F) :
    Encoded (join path ++ query) := by
  have hbytes : ∀ b ∈ join path, pathEncoded b = false ∧ b ≠ 0x5C := by
    intro b hb
    obtain ⟨s, hs, hb⟩ := List.mem_flatMap.mp hb
    rcases List.mem_cons.mp hb with rfl | hb
    · decide
    · obtain ⟨hliteral, hslash⟩ := (hpath s hs).1 b hb
      refine ⟨hliteral, ?_⟩
      rintro rfl
      cases hslash
  have hno : ∀ b ∈ join path, decide (b ≠ 0x3F) = true := by
    intro b hb
    rw [decide_eq_true_eq]
    rintro rfl
    exact absurd (hbytes _ hb).1 (by decide)
  have hstop : query.takeWhile (· ≠ 0x3F) = [] ∧ query.dropWhile (· ≠ 0x3F) = query := by
    cases query with
    | nil => exact ⟨rfl, rfl⟩
    | cons b query =>
      obtain rfl : b = 0x3F := hhead b rfl
      exact ⟨rfl, rfl⟩
  have htake : (join path ++ query).takeWhile (· ≠ 0x3F) = join path := by
    rw [List.takeWhile_append_of_pos hno, hstop.1, List.append_nil]
  have hdrop : (join path ++ query).dropWhile (· ≠ 0x3F) = query := by
    rw [List.dropWhile_append_of_pos hno, hstop.2]
  refine ⟨by rwa [htake], by rwa [hdrop], ?_⟩
  rw [htake, splitOn_join fun s hs hmem => by cases ((hpath s hs).1 _ hmem).2]
  intro s hs
  rcases List.mem_cons.mp hs with rfl | hs
  · exact ⟨rfl, rfl⟩
  · exact (hpath s hs).2

/-- What a browser asks for is encoded. -/
theorem encoded_target (rest : Text) : Encoded (target rest) := by
  unfold target
  dsimp only
  set link := rest.takeWhile (· ≠ 0x23)
  refine encoded_join_append ?_ ?_ ?_
  · exact isSegment_walk (fun s hs => by cases hs) fun s hs b hb => (mem_splitOnP_slash hs b hb).2
  · intro b hb
    rcases mem_percentEncode hb with hescape | ⟨-, hliteral⟩
    · exact (escape_not_encoded hescape).2.1
    · exact hliteral
  · cases hquery : link.dropWhile (· ≠ 0x3F) with
    | nil => exact fun b hb => by cases hb
    | cons c query =>
      have hc := List.head_dropWhile_not (p := fun b : UInt8 => decide (b ≠ 0x3F)) (l := link)
        (by rw [hquery]; exact List.cons_ne_nil _ _)
      simp only [hquery, List.head_cons] at hc
      obtain rfl : c = 0x3F := by simpa using hc
      rintro b ⟨⟩
      rfl

theorem followed_bytes {link u : Text} (h : followed link = some u) :
    ∀ b ∈ u, alwaysEncoded b = false := by
  obtain ⟨a, rest, -, -, -, rfl⟩ := followed_spec h
  exact (encoded_target rest).bytes

/-- The bytes that no URL has are not in a text that has only others. -/
theorem not_mem_of_bytes {u : Text} (h : ∀ b ∈ u, alwaysEncoded b = false) {c : UInt8}
    (hc : alwaysEncoded c = true) : c ∉ u := by
  intro hmem
  rw [h c hmem] at hc
  cases hc

/-- A link of such bytes has nothing to be cleaned of. -/
theorem clean_eq_self {link : Text} (h : ∀ b ∈ link, alwaysEncoded b = false) :
    clean link = link := by
  have hvisible : ∀ b : UInt8, alwaysEncoded b = false →
      decide (b ≤ 0x20) = false ∧ (b ≠ 0x09 && b ≠ 0x0A && b ≠ 0x0D) = true := by decide +kernel
  have hstrip : strip (fun b => decide (b ≤ 0x20)) link = link := by
    have hfront : link.dropWhile (fun b => decide (b ≤ 0x20)) = link := by
      refine List.dropWhile_eq_self_iff.mpr fun hl => ?_
      simp [(hvisible _ (h _ (List.getElem_mem hl))).1]
    rw [strip, hfront]
    refine List.rdropWhile_eq_self_iff.mpr fun hl => ?_
    simp [(hvisible _ (h _ (List.getLast_mem hl))).1]
  rw [clean, hstrip, List.filter_eq_self]
  exact fun b hb => (hvisible b (h b hb)).2

/-- Without backslashes only slashes separate segments. -/
theorem splitOnP_eq_splitOn {p : Text} (h : ∀ b ∈ p, b ≠ 0x5C) :
    p.splitOnP isSlash = p.splitOn 0x2F := by
  induction p with
  | nil => rfl
  | cons b p ih =>
    have hb : isSlash b = (b == 0x2F) := by
      simp [isSlash, h b List.mem_cons_self, beq_eq_decide]
    rw [List.splitOnP_cons_eq_if_modifyHead, List.splitOn_cons_eq_if_modifyHead, hb,
      ih fun c hc => h c (List.mem_cons_of_mem _ hc)]

theorem join_splitOn (p : Text) : join (p.splitOn 0x2F) = 0x2F :: p := by
  induction p with
  | nil => rfl
  | cons b p ih =>
    obtain ⟨first, rest, hsplit⟩ := List.exists_cons_of_ne_nil (List.splitOn_ne_nil 0x2F p)
    rw [List.splitOn_cons_eq_if_modifyHead]
    split
    next hb =>
      rw [join_cons, ih, List.nil_append, eq_of_beq hb]
    next hb =>
      rw [hsplit, join_cons] at ih
      rw [hsplit, List.modifyHead_cons, join_cons, List.cons_append, (List.cons.inj ih).2]

theorem Literal.target_eq {rest : Text} (h : Literal (0x2F :: rest)) :
    target rest = 0x2F :: rest := by
  have hhash : rest.takeWhile (· ≠ 0x23) = rest := by
    refine List.takeWhile_eq_self_iff.mpr fun b hb => decide_eq_true ?_
    rintro rfl
    exact not_mem_of_bytes h.bytes rfl (List.mem_cons_of_mem _ hb)
  have htake : (0x2F :: rest).takeWhile (· ≠ 0x3F) = 0x2F :: rest.takeWhile (· ≠ 0x3F) := rfl
  have hdrop : (0x2F :: rest).dropWhile (· ≠ 0x3F) = rest.dropWhile (· ≠ 0x3F) := rfl
  have hpath := h.path
  have hquery := h.query
  have hsegments := h.segments
  rw [htake] at hpath
  rw [hdrop] at hquery
  rw [htake, List.splitOn_cons_eq_if_modifyHead, if_pos (beq_self_eq_true _)] at hsegments
  have hsplit : (rest.takeWhile (· ≠ 0x3F)).splitOnP isSlash =
      (rest.takeWhile (· ≠ 0x3F)).splitOn 0x2F :=
    splitOnP_eq_splitOn fun b hb => (hpath b (List.mem_cons_of_mem _ hb)).2
  have hwalk : ∀ s ∈ (rest.takeWhile (· ≠ 0x3F)).splitOnP isSlash, IsSegment s := by
    intro s hs
    have hdots := hsegments s (List.mem_cons_of_mem _ (hsplit ▸ hs))
    refine ⟨fun b hb => ?_, hdots⟩
    obtain ⟨hmem, hslash⟩ := mem_splitOnP_slash hs b hb
    exact ⟨(hpath b (List.mem_cons_of_mem _ hmem)).1, hslash⟩
  unfold target
  dsimp only
  rw [hhash, walk_eq_append hwalk, List.nil_append, hsplit, join_splitOn,
    percentEncode_eq_self hquery, List.cons_append, List.takeWhile_append_dropWhile]

/-- **The links that are asked for as they are written.** -/
theorem followed_eq_self_iff {link : Text} : followed link = some link ↔ Literal link := by
  constructor
  · intro h
    have hclean := clean_eq_self (followed_bytes h)
    obtain ⟨a, rest, heq, ha, hrest, htarget⟩ := followed_spec h
    have hencoded : Encoded link := by
      rw [htarget]
      exact encoded_target rest
    rw [hclean] at heq
    refine ⟨hencoded, rest, ?_, fun hhead => by cases hrest _ hhead⟩
    have hfirst : a ≠ 0x5C := by
      rintro rfl
      refine (hencoded.path 0x5C ?_).2 rfl
      rw [heq]
      exact List.mem_cons_self
    simp only [isSlash, Bool.or_eq_true, decide_eq_true_eq] at ha
    rw [heq, ha.resolve_right hfirst]
  · intro h
    obtain ⟨rest, rfl, hhead⟩ := h.slash
    rw [followed, clean_eq_self h.bytes]
    dsimp only
    rw [if_pos, h.target_eq]
    refine ⟨rfl, fun b hb => ?_⟩
    obtain ⟨rest', rfl⟩ := List.head?_eq_some_iff.mp hb
    have hslash : b ≠ 0x2F := fun heq => hhead (congrArg some heq)
    have hback : b ≠ 0x5C := by
      rintro rfl
      exact (h.path 0x5C (List.mem_cons_of_mem _ List.mem_cons_self)).2 rfl
    simp [isSlash, hslash, hback]

end PpcaNetwork.Url
