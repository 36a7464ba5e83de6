import PpcaNetwork.Lib.Exec
import PpcaNetwork.Minicaddy.Files

/-!
# Ranges of a file

What `parse_range` makes of the value of a `Range` field, and the response that
`file_server` writes for it.

* `RangeSpec` — what the three forms of a value ask for; `RangeSpec.Selects` is the set of
  the bytes selected, and `Written` the values that are of these forms.
* `Checked.parseRange` — `parse_range` with subtractions that panic.
* `parseRange_eq` — the parser reads a form and intersects it with the file.
* `parseRange_exact_iff` — for which values and sizes the range is the right one.
-/

namespace PpcaNetwork.Minicaddy

open Http1

/-! ## What a value asks for -/

/-- `bytes=a-b`, `bytes=a-` and `bytes=-n`. -/
inductive RangeSpec where
  | between (first last : Nat)
  | starting (first : Nat)
  | suffix (n : Nat)
  deriving DecidableEq, Repr

/-- Digits that write a number of 64 bits. -/
structure IsNumeral (digits : Text) (n : Nat) : Prop where
  ne_nil : digits ≠ []
  value : parseDigits 10 0 digits = some n
  fits : n ≤ maxU64

namespace RangeSpec

/-- The byte at position `i` is one of those asked for, in a file of `size` bytes. -/
def Selects (size i : Nat) : RangeSpec → Prop
  | between first last => first ≤ i ∧ i ≤ last ∧ i < size
  | starting first => first ≤ i ∧ i < size
  | suffix n => size ≤ i + n ∧ i < size

/-- The values of the three forms. -/
inductive Written : RangeSpec → Text → Prop
  | between {s t : Text} {a b : Nat} (ha : IsNumeral s a) (hb : IsNumeral t b) :
      Written (between a b) (utf8 "bytes=" ++ (s ++ 0x2D :: t))
  | starting {s : Text} {a : Nat} (ha : IsNumeral s a) :
      Written (starting a) (utf8 "bytes=" ++ (s ++ [0x2D]))
  | suffix {t : Text} {n : Nat} (hn : IsNumeral t n) :
      Written (suffix n) (utf8 "bytes=" ++ 0x2D :: t)

/-- The first and the last of the bytes asked for, as `parse_range` computes them. -/
def resolve (fileSize : Nat) : RangeSpec → Option (Nat × Nat)
  | between first last =>
    if first < fileSize ∧ first ≤ last then some (first, min last (fileSize - 1)) else none
  | starting first => if first < fileSize then some (first, fileSize - 1) else none
  | suffix n => suffixRange n fileSize

end RangeSpec

/-- The result is the first and the last position of a set that has no gaps, or the set is
empty. -/
def IsSpan (p : Nat → Prop) : Option (Nat × Nat) → Prop
  | none => ∀ i, ¬ p i
  | some (start, last) => start ≤ last ∧ ∀ i, p i ↔ start ≤ i ∧ i ≤ last

/-- The text on both sides of the hyphen. -/
def rangeParts (val : Text) : Option (Text × Text) :=
  (stripPrefix (utf8 "bytes=") val).bind (splitOnce 0x2D)

/-- What the value asks for, if both of its texts can be read. -/
def rangeSpec (val : Text) : Option RangeSpec :=
  match rangeParts val with
  | none => none
  | some (startStr, endStr) =>
    if trim startStr = [] then (parseUint 10 maxU64 (trim endStr)).map .suffix
    else
      match parseUint 10 maxU64 (trim startStr) with
      | none => none
      | some start =>
        if trim endStr = [] then some (.starting start)
        else (parseUint 10 maxU64 (trim endStr)).map (.between start)

/-- The parser intersects what the value asks for with the file. -/
theorem parseRange_eq (val : Text) (fileSize : Nat) :
    parseRange val fileSize = (rangeSpec val).bind (·.resolve fileSize) := by
  rw [parseRange, rangeSpec, rangeParts]
  cases (stripPrefix (utf8 "bytes=") val).bind (splitOnce 0x2D) with
  | none => rfl
  | some parts =>
    obtain ⟨startStr, endStr⟩ := parts
    by_cases hsuffix : trim startStr = []
    · simp only [if_pos hsuffix]
      cases parseUint 10 maxU64 (trim endStr) with
      | none => rfl
      | some n => rfl
    · simp only [if_neg hsuffix]
      cases parseUint 10 maxU64 (trim startStr) with
      | none => rfl
      | some start =>
        by_cases hend : trim endStr = []
        · simp only [rangeEnd, if_pos hend, Option.bind_some, RangeSpec.resolve]
          split_ifs <;> first | rfl | omega
        · simp only [rangeEnd, if_neg hend]
          cases parseUint 10 maxU64 (trim endStr) with
          | none => simp
          | some n =>
            simp only [Option.map_some, Option.bind_some, RangeSpec.resolve]
            split_ifs <;> first | rfl | omega

/-- A suffix range, in the text of the value: nothing but blanks before the hyphen. -/
theorem rangeSpec_suffix_iff {val : Text} {n : Nat} :
    rangeSpec val = some (.suffix n) ↔ ∃ startStr endStr, rangeParts val = some (startStr, endStr) ∧
      trim startStr = [] ∧ parseUint 10 maxU64 (trim endStr) = some n := by
  constructor
  · intro h
    unfold rangeSpec at h
    split at h
    · exact absurd h (by simp)
    · rename_i startStr endStr hparts
      by_cases hblank : trim startStr = []
      · rw [if_pos hblank] at h
        obtain ⟨m, hm, hmn⟩ := Option.map_eq_some_iff.mp h
        obtain rfl := RangeSpec.suffix.inj hmn
        exact ⟨startStr, endStr, hparts, hblank, hm⟩
      · rw [if_neg hblank] at h
        cases hstart : parseUint 10 maxU64 (trim startStr) with
        | none => simp [hstart] at h
        | some start => by_cases hend : trim endStr = [] <;> simp [hstart, hend] at h
  · rintro ⟨startStr, endStr, hparts, hblank, hn⟩
    rw [rangeSpec, hparts]
    simp only [hblank, if_true, hn, Option.map_some]

/-! ## Values of the three forms -/

/-- Digits are neither blank nor a hyphen. -/
theorem IsNumeral.visible {digits : Text} {n : Nat} (h : IsNumeral digits n) :
    ∀ b ∈ digits, IsVisible b ∧ b ≠ 0x2D := by
  intro b hb
  obtain ⟨d, hd⟩ := exists_digitValue_of_parseDigits h.value b hb
  refine ⟨(visible_of_digitValue hd).1, ?_⟩
  rintro rfl
  exact absurd (visible_of_digitValue hd).2 (by decide)

theorem IsNumeral.trim_eq {digits : Text} {n : Nat} (h : IsNumeral digits n) :
    trim digits = digits := by
  have htrim : trim (digits ++ []) = digits :=
    trim_append_blanks (fun b hb => (h.visible b hb).1) h.ne_nil (by simp)
  rwa [List.append_nil] at htrim

theorem IsNumeral.parse {digits : Text} {n : Nat} (h : IsNumeral digits n) :
    parseUint 10 maxU64 digits = some n :=
  parseUint_of_parseDigits h.ne_nil h.value h.fits

/-- The first hyphen is the one behind the first number. -/
theorem rangeParts_of_forall_ne {startStr : Text} (h : ∀ b ∈ startStr, b ≠ 0x2D)
    (endStr : Text) :
    rangeParts (utf8 "bytes=" ++ (startStr ++ 0x2D :: endStr)) = some (startStr, endStr) := by
  have hstrip : stripPrefix (utf8 "bytes=") (utf8 "bytes=" ++ (startStr ++ 0x2D :: endStr)) =
      some (startStr ++ 0x2D :: endStr) := by
    rw [stripPrefix, if_pos (by simp), List.drop_left]
  have hall : ∀ b ∈ startStr, decide (b ≠ 0x2D) = true := by
    simpa using h
  rw [rangeParts, hstrip, Option.bind_some, splitOnce, List.dropWhile_append_of_pos hall,
    List.takeWhile_append_of_pos hall]
  simp

/-- Values of the three forms are read as what they are. -/
theorem RangeSpec.Written.read {val : Text} {spec : RangeSpec} (h : spec.Written val) :
    rangeSpec val = some spec := by
  cases h with
  | @between s t a b ha hb =>
    rw [rangeSpec, rangeParts_of_forall_ne fun x hx => (ha.visible x hx).2]
    simp only [ha.trim_eq, hb.trim_eq, ha.parse, hb.parse, if_neg ha.ne_nil, if_neg hb.ne_nil,
      Option.map_some]
  | @starting s a ha =>
    rw [rangeSpec, rangeParts_of_forall_ne fun x hx => (ha.visible x hx).2]
    have hblank : trim [] = [] := rfl
    simp only [ha.trim_eq, ha.parse, if_neg ha.ne_nil, hblank, if_true]
  | @suffix t n hn =>
    have hparts : rangeParts (utf8 "bytes=" ++ ([] ++ 0x2D :: t)) = some ([], t) :=
      rangeParts_of_forall_ne (by simp) t
    rw [List.nil_append] at hparts
    rw [rangeSpec, hparts]
    have hblank : trim [] = [] := rfl
    simp only [hn.trim_eq, hn.parse, hblank, if_true, Option.map_some]

/-! ## Arithmetic that panics -/

namespace Checked

open Exec

/-- The bytes of a suffix range; the subtraction may overflow. -/
def suffixRange (n fileSize : Nat) : Exec (Option (Nat × Nat)) :=
  if n = 0 ∨ fileSize = 0 then return none
  else return some (← sub fileSize n, ← sub fileSize 1)

/-- The last byte that a range asks for. -/
def rangeEnd (endStr : Text) (fileSize : Nat) : Exec (Option Nat) :=
  if trim endStr = [] then return some (← sub fileSize 1)
  else
    match parseUint 10 maxU64 (trim endStr) with
    | none => return none
    | some n => return some (min n (← sub fileSize 1))

/-- `parse_range`. -/
def parseRange (val : Text) (fileSize : Nat) : Exec (Option (Nat × Nat)) :=
  match rangeParts val with
  | none => return none
  | some (startStr, endStr) =>
    if trim startStr = [] then
      match parseUint 10 maxU64 (trim endStr) with
      | none => return none
      | some n => suffixRange n fileSize
    else
      match parseUint 10 maxU64 (trim startStr) with
      | none => return none
      | some start =>
        if fileSize = 0 ∨ fileSize ≤ start then return none
        else do
          match ← rangeEnd endStr fileSize with
          | none => return none
          | some last => return if start ≤ last then some (start, last) else none

theorem rangeEnd_eq (endStr : Text) {fileSize : Nat} (hpos : fileSize ≠ 0) :
    rangeEnd endStr fileSize = .returns (Minicaddy.rangeEnd endStr fileSize) := by
  have hsub : sub fileSize 1 = .returns (fileSize - 1) := if_pos (by omega)
  rw [rangeEnd, Minicaddy.rangeEnd]
  split_ifs
  · rw [hsub]
    rfl
  · cases parseUint 10 maxU64 (trim endStr) with
    | none => rfl
    | some n =>
      rw [hsub]
      rfl

/-- A suffix range subtracts from the size without asking. -/
theorem parseRange_of_suffix {val : Text} {n : Nat} (h : rangeSpec val = some (.suffix n))
    (fileSize : Nat) : parseRange val fileSize = suffixRange n fileSize := by
  obtain ⟨startStr, endStr, hparts, hblank, hn⟩ := rangeSpec_suffix_iff.mp h
  rw [parseRange, hparts]
  simp only [hblank, if_true, hn]

/-- Nothing else can panic. -/
theorem parseRange_of_not_suffix {val : Text} (h : ∀ n, rangeSpec val ≠ some (.suffix n))
    (fileSize : Nat) :
    parseRange val fileSize = .returns (Minicaddy.parseRange val fileSize) := by
  rw [parseRange, Minicaddy.parseRange, ← rangeParts]
  cases hparts : rangeParts val with
  | none => rfl
  | some parts =>
    obtain ⟨startStr, endStr⟩ := parts
    by_cases hblank : trim startStr = []
    · simp only [if_pos hblank]
      cases hn : parseUint 10 maxU64 (trim endStr) with
      | none => rfl
      | some n =>
        exact absurd (rangeSpec_suffix_iff.mpr ⟨startStr, endStr, hparts, hblank, hn⟩) (h n)
    · simp only [if_neg hblank]
      cases parseUint 10 maxU64 (trim startStr) with
      | none => rfl
      | some start =>
        by_cases hout : fileSize = 0 ∨ fileSize ≤ start
        · simp only [if_pos hout]
          rfl
        · simp only [if_neg hout]
          rw [rangeEnd_eq endStr (not_or.mp hout).1, returns_bind]
          cases Minicaddy.rangeEnd endStr fileSize with
          | none => rfl
          | some last => rfl

end Checked

/-! ## The bytes selected -/

/-- A suffix that fits into the file. -/
theorem suffixRange_of_le {n fileSize : Nat} (hle : n ≤ fileSize) (hsize : fileSize ≤ maxU64) :
    suffixRange n fileSize =
      if n = 0 ∨ fileSize = 0 then none else some (fileSize - n, fileSize - 1) := by
  have hwrap : (fileSize + 2 ^ 64 - n) % 2 ^ 64 = fileSize - n := by
    rw [maxU64] at hsize
    rw [show fileSize + 2 ^ 64 - n = (fileSize - n) + 2 ^ 64 by omega, Nat.add_mod_right]
    exact Nat.mod_eq_of_lt (by omega)
  rw [suffixRange, hwrap]

/-- A suffix longer than the file starts beyond its end. -/
theorem suffixRange_of_lt {n fileSize : Nat} (hpos : 0 < fileSize) (hlt : fileSize < n) :
    suffixRange n fileSize = some (fileSize + 2 ^ 64 - n, fileSize - 1) := by
  have hwrap : (fileSize + 2 ^ 64 - n) % 2 ^ 64 = fileSize + 2 ^ 64 - n :=
    Nat.mod_eq_of_lt (by omega)
  rw [suffixRange, hwrap, if_neg (by omega)]

/-- A suffix that fits is subtracted safely. -/
theorem Checked.suffixRange_eq {n fileSize : Nat} (h : fileSize = 0 ∨ n ≤ fileSize)
    (hsize : fileSize ≤ maxU64) :
    Checked.suffixRange n fileSize = .returns (Minicaddy.suffixRange n fileSize) := by
  rw [Checked.suffixRange]
  by_cases hempty : n = 0 ∨ fileSize = 0
  · rw [if_pos hempty, Minicaddy.suffixRange, if_pos hempty]
    rfl
  · have hle : n ≤ fileSize := h.resolve_left (not_or.mp hempty).2
    have hsub : Exec.sub fileSize n = .returns (fileSize - n) := if_pos hle
    have hlast : Exec.sub fileSize 1 = .returns (fileSize - 1) := if_pos (by omega)
    rw [if_neg hempty, suffixRange_of_le hle hsize, if_neg hempty, hsub, hlast]
    rfl

/-- What a form resolves to are the bytes that it selects, unless it is a suffix longer than
the file. -/
theorem RangeSpec.isSpan_resolve {spec : RangeSpec} {fileSize : Nat} (hsize : fileSize ≤ maxU64)
    (h : ∀ n, spec = .suffix n → fileSize = 0 ∨ n ≤ fileSize) :
    IsSpan (spec.Selects fileSize) (spec.resolve fileSize) := by
  cases spec with
  | between first last =>
    simp only [resolve, Selects]
    split_ifs
    · exact ⟨by omega, fun i => by omega⟩
    · exact fun i => by omega
  | starting first =>
    simp only [resolve, Selects]
    split_ifs
    · exact ⟨by omega, fun i => by omega⟩
    · exact fun i => by omega
  | suffix n =>
    simp only [resolve, Selects]
    rcases h n rfl with rfl | hle
    · rw [suffixRange, if_pos (.inr rfl)]
      exact fun i => by omega
    · rw [suffixRange_of_le hle hsize]
      split_ifs
      · exact fun i => by omega
      · exact ⟨by omega, fun i => by omega⟩

/-- What a range can be: inside the file, or one whose start has wrapped around. -/
theorem parseRange_cases {val : Text} {fileSize start last : Nat} (hsize : fileSize < 2 ^ 63)
    (h : parseRange val fileSize = some (start, last)) :
    last < fileSize ∧ (start ≤ last ∨ last + 1 = fileSize ∧ fileSize < start ∧ start < 2 ^ 64) := by
  rw [parseRange_eq] at h
  obtain ⟨spec, hspec, hresolve⟩ := Option.bind_eq_some_iff.mp h
  have hmax : fileSize ≤ maxU64 := le_maxU64 hsize
  cases spec with
  | between first stop =>
    simp only [RangeSpec.resolve] at hresolve
    split_ifs at hresolve
    obtain ⟨rfl, rfl⟩ := Prod.mk.inj (Option.some.inj hresolve)
    omega
  | starting first =>
    simp only [RangeSpec.resolve] at hresolve
    split_ifs at hresolve
    obtain ⟨rfl, rfl⟩ := Prod.mk.inj (Option.some.inj hresolve)
    omega
  | suffix n =>
    obtain ⟨_, _, -, -, hread⟩ := rangeSpec_suffix_iff.mp hspec
    have hn : n ≤ maxU64 := parseUint_le hread
    rw [maxU64] at hn
    rw [RangeSpec.resolve] at hresolve
    by_cases hle : n ≤ fileSize
    · rw [suffixRange_of_le hle hmax] at hresolve
      split_ifs at hresolve
      obtain ⟨rfl, rfl⟩ := Prod.mk.inj (Option.some.inj hresolve)
      omega
    · rcases Nat.eq_zero_or_pos fileSize with rfl | hpos
      · rw [suffixRange, if_pos (.inr rfl)] at hresolve
        exact absurd hresolve (by simp)
      · rw [suffixRange_of_lt hpos (by omega)] at hresolve
        obtain ⟨rfl, rfl⟩ := Prod.mk.inj (Option.some.inj hresolve)
        omega

/-! ## The response -/

theorem rangeLen_of_le {start last : Nat} (hle : start ≤ last) (hlast : last < maxU64) :
    rangeLen start last = last - start + 1 := by
  rw [maxU64] at hlast
  rw [rangeLen, show last + 2 ^ 64 - start + 1 = (last - start + 1) + 2 ^ 64 by omega,
    Nat.add_mod_right]
  exact Nat.mod_eq_of_lt (by omega)

theorem rangeLen_of_wrapped {start last : Nat} (hlt : last + 1 < start) (hmax : start < 2 ^ 64) :
    rangeLen start last = last + 1 + 2 ^ 64 - start := by
  rw [rangeLen, show last + 2 ^ 64 - start + 1 = last + 1 + 2 ^ 64 - start by omega]
  exact Nat.mod_eq_of_lt (by omega)

/-- The length that the response to a range announces is the number of bytes
copied, unless the start has wrapped around. -/
theorem rangeLen_eq_length_iff {file : File} {start last : Nat} (hlast : last < file.size)
    (hcases : start ≤ last ∨
      last + 1 = file.size ∧ file.size < start ∧ start < 2 ^ 64) :
    rangeLen start last ≠ 0 ∧
      (rangeLen start last = ((file.contents.drop start).take (rangeLen start last)).length ↔
        start ≤ last) := by
  have hsize : file.size < 2 ^ 63 := file.size_lt
  have hmax : file.size ≤ maxU64 := le_maxU64 hsize
  rw [List.length_take, List.length_drop, ← File.size]
  rcases hcases with hle | ⟨hend, hlt, hstart⟩
  · rw [rangeLen_of_le hle (by omega)]
    omega
  · rw [rangeLen_of_wrapped (by omega) hstart]
    omega

/-- The head of the response to a range, announcing a length. -/
def partialHead (req : FileRequest) (file : File) (ct etag : Text) (start last len : Nat) :
    List UInt8 :=
  renderHead (utf8 "HTTP/1.1 206 Partial Content")
    [⟨utf8 "Content-Range",
        utf8 "bytes " ++ decimal start ++ utf8 "-" ++ decimal last ++ utf8 "/" ++
          decimal file.size⟩,
      ⟨utf8 "Content-Length", decimal len⟩, ⟨utf8 "Content-Type", ct⟩,
      ⟨utf8 "ETag", etag⟩, ⟨utf8 "Connection", req.conn⟩]

/-- A range inside the file is answered with as many bytes as the head announces. -/
theorem serveRange_of_le {file : File} {start last : Nat} (hle : start ≤ last)
    (hlast : last < file.size) (req : FileRequest) (ct etag : Text) :
    ∃ body, body.length = last - start + 1 ∧
      serveRange req file ct etag start last =
        ⟨partialHead req file ct etag start last (last - start + 1) ++
          (if req.isHead then [] else body), .done⟩ := by
  have hsize : file.size < 2 ^ 63 := file.size_lt
  have hmax : file.size ≤ maxU64 := le_maxU64 hsize
  have hlen : rangeLen start last = last - start + 1 := rangeLen_of_le hle (by omega)
  refine ⟨(file.contents.drop start).take (last - start + 1), ?_, ?_⟩
  · rw [List.length_take, List.length_drop, ← File.size]
    omega
  · rw [serveRange, hlen, if_neg (by omega)]
    rfl

/-! ## Safe and exact -/

/-- The parser neither overflows nor underflows, what it returns lies inside the file, the
values of the three forms select what they ask for, and the response to a range has as many
bytes as it announces. -/
structure RangeExact (val : Text) (fileSize : Nat) : Prop where
  safe : Checked.parseRange val fileSize = .returns (parseRange val fileSize)
  inside : ∀ start last, parseRange val fileSize = some (start, last) →
    start ≤ last ∧ last < fileSize
  selected : ∀ spec, RangeSpec.Written spec val →
    IsSpan (spec.Selects fileSize) (parseRange val fileSize)
  answered : ∀ (file : File) start last req ct etag, file.size = fileSize →
    parseRange val fileSize = some (start, last) →
      ∃ body, body.length = last - start + 1 ∧
        serveRange req file ct etag start last =
          ⟨partialHead req file ct etag start last (last - start + 1) ++
            (if req.isHead then [] else body), .done⟩

/-- Nothing but blanks before the hyphen, and behind it the length of a suffix that is longer
than the file; the file is not empty. -/
def OverlongSuffix (val : Text) (fileSize : Nat) : Prop :=
  ∃ startStr endStr n, rangeParts val = some (startStr, endStr) ∧ trim startStr = [] ∧
    parseUint 10 maxU64 (trim endStr) = some n ∧ 0 < fileSize ∧ fileSize < n

/-- **When a range is the right one.**  For all values and all sizes of 64 bits: exactly if it
is not a suffix longer than a file that is not empty. -/
theorem parseRange_exact_iff (val : Text) (fileSize : UInt64) :
    RangeExact val fileSize.toNat ↔ ¬ OverlongSuffix val fileSize.toNat := by
  have hmax : fileSize.toNat ≤ maxU64 := by
    have hlt := fileSize.toNat_lt
    rw [maxU64]
    omega
  constructor
  · rintro hexact ⟨startStr, endStr, n, hparts, hblank, hn, hpos, hlt⟩
    have hspec := rangeSpec_suffix_iff.mpr ⟨startStr, endStr, hparts, hblank, hn⟩
    -- the subtraction goes below zero
    have hpanics : Checked.suffixRange n fileSize.toNat = .panics := by
      rw [Checked.suffixRange, if_neg (by omega), Exec.sub, if_neg (by omega)]
      rfl
    have hsafe := hexact.safe
    rw [Checked.parseRange_of_suffix hspec, hpanics] at hsafe
    exact absurd hsafe (by simp)
  · intro hfits
    have hshort : ∀ spec, rangeSpec val = some spec → ∀ n, spec = .suffix n →
        fileSize.toNat = 0 ∨ n ≤ fileSize.toNat := by
      rintro spec hspec n rfl
      obtain ⟨startStr, endStr, hparts, hblank, hn⟩ := rangeSpec_suffix_iff.mp hspec
      by_contra hlong
      exact hfits ⟨startStr, endStr, n, hparts, hblank, hn, by omega, by omega⟩
    have hspan : ∀ spec, rangeSpec val = some spec →
        IsSpan (spec.Selects fileSize.toNat) (parseRange val fileSize.toNat) := by
      intro spec hspec
      rw [parseRange_eq, hspec, Option.bind_some]
      exact RangeSpec.isSpan_resolve hmax (hshort spec hspec)
    have hinside : ∀ start last, parseRange val fileSize.toNat = some (start, last) →
        start ≤ last ∧ last < fileSize.toNat := by
      intro start last hparse
      obtain ⟨spec, hspec, -⟩ := Option.bind_eq_some_iff.mp ((parseRange_eq ..).symm.trans hparse)
      have hsel := hspan spec hspec
      rw [hparse] at hsel
      refine ⟨hsel.1, ?_⟩
      have hlast : spec.Selects fileSize.toNat last := (hsel.2 last).mpr ⟨hsel.1, le_refl _⟩
      cases spec with
      | between => exact hlast.2.2
      | starting => exact hlast.2
      | suffix => exact hlast.2
    refine ⟨?_, hinside, fun spec hwritten => hspan spec hwritten.read, ?_⟩
    · by_cases hsuffix : ∃ n, rangeSpec val = some (.suffix n)
      · obtain ⟨n, hspec⟩ := hsuffix
        rw [Checked.parseRange_of_suffix hspec, parseRange_eq, hspec]
        exact Checked.suffixRange_eq (hshort _ hspec n rfl) hmax
      · exact Checked.parseRange_of_not_suffix (fun n hspec => hsuffix ⟨n, hspec⟩) _
    · intro file start last req ct etag hsize hparse
      obtain ⟨hle, hlast⟩ := hinside start last hparse
      exact serveRange_of_le hle (hsize ▸ hlast) req ct etag

/-- **The last five bytes of three.**  The value is well formed and asks for the whole file;
the subtraction panics, and when it wraps around the range starts beyond its end. -/
theorem demo_overlong_suffix :
    RangeSpec.Written (.suffix 5) (utf8 "bytes=-5") ∧
      Checked.parseRange (utf8 "bytes=-5") 3 = .panics ∧
      parseRange (utf8 "bytes=-5") 3 = some (2 ^ 64 - 2, 2) ∧
      ¬ RangeExact (utf8 "bytes=-5") 3 := by
  have hparse : parseRange (utf8 "bytes=-5") 3 = some (2 ^ 64 - 2, 2) := by decide +kernel
  have hnumeral : IsNumeral (utf8 "5") 5 := ⟨by decide, by decide, by decide⟩
  refine ⟨.suffix hnumeral, by decide +kernel, hparse, fun hexact => ?_⟩
  have hinside := hexact.inside _ _ hparse
  omega

end PpcaNetwork.Minicaddy
