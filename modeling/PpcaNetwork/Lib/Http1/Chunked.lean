import PpcaNetwork.Lib.Numerals
import PpcaNetwork.Lib.Search

/-!
# Lines and the chunked coding of HTTP/1.1

The syntax that requests, responses and chunked bodies share, and the chunked
coding itself, once as a sender writes it and once as a receiver takes it apart.

* `takeLine` and `headLines` — lines with CRLF ends, one at a time and up to an
  empty line.
* `ChunkedMessage` — chunks with extensions, and trailers.
* `decodeChunked` — the decoder.
* `CodedMessage` and `decodeChunked_eq_some_iff` — what the decoder accepts.
* `decodeChunked_bytes` — the round trip.
* `decodeChunked_append` — what has been decoded stays decoded when more arrives.
-/

namespace PpcaNetwork.Http1

/-! ## Lines -/

/-- The first line, and what stands behind its end. -/
def takeLine (s : List UInt8) : Option (List UInt8 × List UInt8) :=
  (findSub crlf s).map fun i => (s.take i, s.drop (i + 2))

/-- The lines up to an empty line, and what stands behind it; `line` is the
beginning of the first line, reversed. -/
def headLines (line : List UInt8) : List UInt8 → Option (List (List UInt8) × List UInt8)
  | [] => none
  | [_] => none
  | b :: c :: s =>
    if b = 0x0D ∧ c = 0x0A then
      if line = [] then some ([], s)
      else (headLines [] s).map fun r => (line.reverse :: r.1, r.2)
    else headLines (b :: line) (c :: s)

theorem findSub_crlf {line : List UInt8} (h : 0x0D ∉ line) (rest : List UInt8) :
    findSub crlf (line ++ crlf ++ rest) = some line.length := by
  rw [List.append_assoc, crlf, findSub_append h, findSub_of_isPrefix (List.prefix_append ..)]
  simp

theorem takeLine_append {s line rest : List UInt8} (h : takeLine s = some (line, rest))
    (t : List UInt8) : takeLine (s ++ t) = some (line, rest ++ t) := by
  obtain ⟨i, hi, heq⟩ := Option.map_eq_some_iff.mp h
  obtain ⟨rfl, rfl⟩ := Prod.mk.inj heq
  have hle : i + 2 ≤ s.length := findSub_length_le (show crlf ≠ [] by decide) hi
  rw [takeLine, findSub_append_right hi, Option.map_some, List.take_append_of_le_length (by omega),
    List.drop_append_of_le_length hle]

theorem headLines_line {line : List UInt8} (h : 0x0D ∉ line) (start rest : List UInt8) :
    headLines start (line ++ crlf ++ rest) =
      if start.reverse ++ line = [] then some ([], rest)
      else (headLines [] rest).map fun r => ((start.reverse ++ line) :: r.1, r.2) := by
  induction line generalizing start with
  | nil =>
    show headLines start (0x0D :: 0x0A :: rest) = _
    rw [headLines, if_pos ⟨rfl, rfl⟩]
    simp
  | cons b line ih =>
    obtain ⟨hb, hline⟩ := not_or.mp (fun hmem => h (List.mem_cons.mpr hmem))
    have hcons : ∃ c s, line ++ crlf ++ rest = c :: s := by
      cases line with
      | nil => exact ⟨_, _, rfl⟩
      | cons c line => exact ⟨_, _, rfl⟩
    obtain ⟨c, s, hcs⟩ := hcons
    have hnot : ¬ (b = 0x0D ∧ c = 0x0A) := fun hc => hb hc.1.symm
    rw [List.cons_append, List.cons_append, hcs, headLines, if_neg hnot, ← hcs, ih hline]
    simp

/-- Lines and the empty line behind them are taken apart again. -/
theorem headLines_lines {lines : List (List UInt8)} (h : ∀ line ∈ lines, line ≠ [] ∧ 0x0D ∉ line)
    (rest : List UInt8) :
    headLines [] (lines.flatMap (· ++ crlf) ++ crlf ++ rest) = some (lines, rest) := by
  induction lines with
  | nil =>
    have hempty := headLines_line (List.not_mem_nil (a := (0x0D : UInt8))) [] rest
    simpa using hempty
  | cons line lines ih =>
    obtain ⟨hne, hcr⟩ := h line (by simp)
    have hsplit : (line :: lines).flatMap (· ++ crlf) ++ crlf ++ rest =
        line ++ crlf ++ (lines.flatMap (· ++ crlf) ++ crlf ++ rest) := by
      simp
    rw [hsplit, headLines_line hcr, List.reverse_nil, List.nil_append, if_neg hne,
      ih fun x hx => h x (List.mem_cons_of_mem _ hx)]
    rfl

theorem headLines_append {line s rest : List UInt8} {lines : List (List UInt8)}
    (h : headLines line s = some (lines, rest)) (t : List UInt8) :
    headLines line (s ++ t) = some (lines, rest ++ t) := by
  induction line, s using headLines.induct generalizing lines with
  | case1 line => exact absurd h (by simp [headLines])
  | case2 line b => exact absurd h (by simp [headLines])
  | case3 b c s hcrlf =>
    rw [headLines, if_pos hcrlf, if_pos rfl] at h
    obtain ⟨rfl, rfl⟩ := Prod.mk.inj (Option.some.inj h)
    rw [List.cons_append, List.cons_append, headLines, if_pos hcrlf, if_pos rfl]
  | case4 line b c s hcrlf hline ih =>
    rw [headLines, if_pos hcrlf, if_neg hline] at h
    obtain ⟨⟨ls, r⟩, hr, heq⟩ := Option.map_eq_some_iff.mp h
    obtain ⟨rfl, rfl⟩ := Prod.mk.inj heq
    rw [List.cons_append, List.cons_append, headLines, if_pos hcrlf, if_neg hline, ih hr]
    rfl
  | case5 line b c s hcrlf ih =>
    rw [headLines, if_neg hcrlf] at h
    rw [List.cons_append, List.cons_append, headLines, if_neg hcrlf, ← List.cons_append]
    exact ih h

/-! ## Messages in chunked coding -/

/-- The extensions behind a chunk size: nothing, or something that starts with
blanks and a semicolon.  Neither holds a line break. -/
structure IsChunkExt (e : List UInt8) : Prop where
  cr : 0x0D ∉ e
  lf : 0x0A ∉ e
  start : e = [] ∨ ∃ bws rest, e = bws ++ 0x3B :: rest ∧ ∀ b ∈ bws, b = 0x20 ∨ b = 0x09

theorem isChunkExt_nil : IsChunkExt [] := ⟨by simp, by simp, .inl rfl⟩

/-- A chunk and its extensions. -/
structure Chunk where
  data : List UInt8
  chunkExt : List UInt8
  data_ne : data ≠ []
  /-- The data is a slice of memory. -/
  data_lt : data.length < 2 ^ 63
  isExt : IsChunkExt chunkExt

/-- A chunk on the wire. -/
def Chunk.bytes (c : Chunk) : List UInt8 :=
  (formatRadix 16 c.data.length ++ c.chunkExt) ++ crlf ++ (c.data ++ crlf)

/-- A trailer line. -/
structure Trailer where
  line : List UInt8
  line_ne : line ≠ []
  cr : 0x0D ∉ line
  lf : 0x0A ∉ line

/-- The trailer lines with their line ends. -/
def trailerBytes (trailers : List Trailer) : List UInt8 := trailers.flatMap fun t => t.line ++ crlf

/-- A message in chunked coding. -/
structure ChunkedMessage where
  chunks : List Chunk
  /-- The extensions of the zero chunk. -/
  lastExt : List UInt8
  isExt : IsChunkExt lastExt
  trailers : List Trailer

namespace ChunkedMessage

/-- The line of the zero chunk and everything behind it. -/
def lastBytes (m : ChunkedMessage) : List UInt8 :=
  (formatRadix 16 0 ++ m.lastExt) ++ crlf ++ (trailerBytes m.trailers ++ crlf)

/-- The message on the wire. -/
def bytes (m : ChunkedMessage) : List UInt8 := m.chunks.flatMap Chunk.bytes ++ m.lastBytes

/-- The body that the chunks carry. -/
def body (m : ChunkedMessage) : List UInt8 := m.chunks.flatMap Chunk.data

/-- All extensions of the message. -/
def exts (m : ChunkedMessage) : List (List UInt8) := m.chunks.map Chunk.chunkExt ++ [m.lastExt]

end ChunkedMessage

/-- A message with one chunk. -/
def ChunkedMessage.single (data : List UInt8) (hne : data ≠ []) (hlt : data.length < 2 ^ 63) :
    ChunkedMessage where
  chunks := [⟨data, [], hne, hlt, isChunkExt_nil⟩]
  lastExt := []
  isExt := isChunkExt_nil
  trailers := []

theorem visible_hex (n : Nat) : ∀ b ∈ formatRadix 16 n, IsVisible b :=
  visible_formatRadix (by decide) (by decide)

theorem cr_not_mem_sizeLine {n : Nat} {e : List UInt8} (h : IsChunkExt e) :
    0x0D ∉ formatRadix 16 n ++ e := by
  rw [List.mem_append]
  rintro (hmem | hmem)
  · exact absurd (visible_hex n _ hmem) (by decide)
  · exact h.cr hmem

/-! ## The decoder -/

/-- Optional white space. -/
def isOws (b : UInt8) : Bool := b = 0x20 || b = 0x09

/-- A hexadecimal digit. -/
def isHexDigit (b : UInt8) : Bool := (digitValue 16 b).isSome

/-- The size in a size line: hexadecimal digits, and extensions behind them. -/
def sizeOfLine (line : List UInt8) : Option Nat :=
  let e := line.dropWhile isHexDigit
  if line.takeWhile isHexDigit ≠ [] ∧ (e = [] ∨ (e.dropWhile isOws).head? = some 0x3B) then
    parseDigits 16 0 (line.takeWhile isHexDigit)
  else none

/-- The body in at most `fuel - 1` chunks and the zero chunk, and what stands
behind the message. -/
def decodeChunks : (fuel : Nat) → List UInt8 → Option (List UInt8 × List UInt8)
  | 0, _ => none
  | fuel + 1, s =>
    match takeLine s with
    | none => none
    | some (line, s) =>
      match sizeOfLine line with
      | none => none
      | some 0 => (headLines [] s).map fun r => ([], r.2)
      | some size =>
        if crlf.isPrefixOf (s.drop size) then
          (decodeChunks fuel (s.drop (size + 2))).map fun r => (s.take size ++ r.1, r.2)
        else none

/-- The body of the chunked message that `s` starts with, and what stands behind
it.  A chunk has at least one byte, so there is fuel enough. -/
def decodeChunked (s : List UInt8) : Option (List UInt8 × List UInt8) :=
  decodeChunks (s.length + 1) s

theorem isHexDigit_formatRadix (n : Nat) : ∀ b ∈ formatRadix 16 n, isHexDigit b = true := by
  obtain ⟨ds, hds, -, hlt, -⟩ := formatRadix_eq_map (n := n) (show 2 ≤ 16 by decide)
  intro b hb
  rw [hds] at hb
  obtain ⟨d, hd, rfl⟩ := List.mem_map.mp hb
  rw [isHexDigit, digitValue_digitChar (le_refl 16) (hlt d hd)]
  rfl

theorem sizeOfLine_sizeLine {n : Nat} {e : List UInt8} (h : IsChunkExt e) :
    sizeOfLine (formatRadix 16 n ++ e) = some n := by
  have hdigits := isHexDigit_formatRadix n
  have hext : e.takeWhile isHexDigit = [] ∧ e.dropWhile isHexDigit = e ∧
      (e = [] ∨ (e.dropWhile isOws).head? = some 0x3B) := by
    rcases h.start with rfl | ⟨bws, rest, rfl, hbws⟩
    · exact ⟨rfl, rfl, .inl rfl⟩
    · have hows : ∀ b ∈ bws, isOws b = true := by
        intro b hb
        simpa [isOws] using hbws b hb
      have hfirst : ∃ b s, bws ++ 0x3B :: rest = b :: s ∧ isHexDigit b = false := by
        cases bws with
        | nil => exact ⟨_, _, rfl, by decide⟩
        | cons b bws =>
          refine ⟨b, _, rfl, ?_⟩
          rcases hbws b (by simp) with rfl | rfl
          · rfl
          · rfl
      obtain ⟨b, s, hbs, hb⟩ := hfirst
      refine ⟨?_, ?_, .inr ?_⟩
      · rw [hbs, List.takeWhile_cons_of_neg (by simp [hb])]
      · rw [hbs, List.dropWhile_cons_of_neg (by simp [hb])]
      · rw [List.dropWhile_append_of_pos hows, List.dropWhile_cons_of_neg (by decide)]
        rfl
  obtain ⟨htake, hdrop, hstart⟩ := hext
  rw [sizeOfLine, List.takeWhile_append_of_pos hdigits, List.dropWhile_append_of_pos hdigits,
    htake, hdrop, List.append_nil, if_pos ⟨formatRadix_ne_nil (by decide), hstart⟩]
  exact parseDigits_formatRadix (by decide) (by decide) n

/-! ## What the decoder accepts -/

/-- A chunk as it may stand on the wire, however its size line is written. -/
structure CodedChunk where
  line : List UInt8
  data : List UInt8
  line_end : findSub crlf (line ++ crlf) = some line.length
  size : sizeOfLine line = some data.length
  data_ne : data ≠ []

/-- The chunk on the wire. -/
def CodedChunk.bytes (c : CodedChunk) : List UInt8 := c.line ++ crlf ++ (c.data ++ crlf)

/-- A message as it may stand on the wire. -/
structure CodedMessage where
  chunks : List CodedChunk
  /-- The size line of the zero chunk. -/
  lastLine : List UInt8
  line_end : findSub crlf (lastLine ++ crlf) = some lastLine.length
  size : sizeOfLine lastLine = some 0
  /-- The trailers and the empty line. -/
  tail : List UInt8
  tail_end : ∃ lines, headLines [] tail = some (lines, [])

namespace CodedMessage

/-- The last chunk on the wire, and what follows it. -/
def lastBytes (m : CodedMessage) : List UInt8 := m.lastLine ++ crlf ++ m.tail

/-- The message on the wire. -/
def bytes (m : CodedMessage) : List UInt8 := m.chunks.flatMap CodedChunk.bytes ++ m.lastBytes

def body (m : CodedMessage) : List UInt8 := m.chunks.flatMap CodedChunk.data

/-- All size lines of the message. -/
def lines (m : CodedMessage) : List (List UInt8) := m.chunks.map CodedChunk.line ++ [m.lastLine]

end CodedMessage

theorem takeLine_of_lineEnd {line : List UInt8}
    (h : findSub crlf (line ++ crlf) = some line.length) (rest : List UInt8) :
    takeLine (line ++ crlf ++ rest) = some (line, rest) := by
  rw [takeLine, findSub_append_right h, Option.map_some, List.append_assoc, List.take_left' rfl,
    ← List.append_assoc, List.drop_left' (by simp [crlf])]

theorem lineEnd_of_takeLine {s line rest : List UInt8} (h : takeLine s = some (line, rest)) :
    s = line ++ crlf ++ rest ∧ findSub crlf (line ++ crlf) = some line.length := by
  obtain ⟨i, hi, heq⟩ := Option.map_eq_some_iff.mp h
  obtain ⟨rfl, rfl⟩ := Prod.mk.inj heq
  have hne : crlf ≠ [] := by decide
  have hlen : i + 2 ≤ s.length := findSub_length_le hne hi
  obtain ⟨u, hu⟩ := prefix_drop_of_findSub hi
  have hrest : s.drop (i + 2) = u := by
    rw [← List.drop_drop, ← hu]
    exact List.drop_left' rfl
  have hsplit : s = s.take i ++ crlf ++ s.drop (i + 2) := by
    rw [hrest, List.append_assoc, hu, List.take_append_drop]
  have htake : (s.take i).length = i := List.length_take_of_le (by omega)
  refine ⟨hsplit, ?_⟩
  rw [findSub_prefix_eq hne hi ⟨_, hsplit.symm⟩, if_pos, htake]
  rw [List.length_append, htake]

/-- The lines of a head end where the head does. -/
theorem headLines_consumed {line s t : List UInt8} {ls : List (List UInt8)}
    (h : headLines line s = some (ls, t)) :
    ∃ u, s = u ++ t ∧ headLines line u = some (ls, []) := by
  induction line, s using headLines.induct generalizing ls with
  | case1 line => exact absurd h (by simp [headLines])
  | case2 line b => exact absurd h (by simp [headLines])
  | case3 b c s hcrlf =>
    rw [headLines, if_pos hcrlf, if_pos rfl] at h
    obtain ⟨rfl, rfl⟩ := Prod.mk.inj (Option.some.inj h)
    exact ⟨[b, c], rfl, by rw [headLines, if_pos hcrlf, if_pos rfl]⟩
  | case4 line b c s hcrlf hline ih =>
    rw [headLines, if_pos hcrlf, if_neg hline] at h
    obtain ⟨⟨ls', r⟩, hr, heq⟩ := Option.map_eq_some_iff.mp h
    obtain ⟨rfl, rfl⟩ := Prod.mk.inj heq
    obtain ⟨u, rfl, hu⟩ := ih hr
    exact ⟨b :: c :: u, rfl, by rw [headLines, if_pos hcrlf, if_neg hline, hu]; rfl⟩
  | case5 line b c s hcrlf ih =>
    rw [headLines, if_neg hcrlf] at h
    obtain ⟨u, hs, hu⟩ := ih h
    cases u with
    | nil => exact absurd hu (by simp [headLines])
    | cons d u =>
      obtain ⟨rfl, rfl⟩ := List.cons.inj hs
      exact ⟨b :: c :: u, rfl, by rw [headLines, if_neg hcrlf, hu]⟩

/-- CRLF CRLF does not start where no line ends. -/
theorem findSub_end_cons {b c : UInt8} (h : ¬ (b = 0x0D ∧ c = 0x0A)) (s : List UInt8) :
    findSub (crlf ++ crlf) (b :: c :: s) = (findSub (crlf ++ crlf) (c :: s)).map (· + 1) := by
  refine findSub_cons ?_
  rintro ⟨u, hu⟩
  simp only [crlf, List.cons_append, List.cons.injEq] at hu
  exact h ⟨hu.1.symm, hu.2.1.symm⟩

/-- CRLF CRLF does not start where the next line is not empty. -/
theorem findSub_end_crlf {s : List UInt8} (h : ¬ crlf <+: s) :
    findSub (crlf ++ crlf) (0x0D :: 0x0A :: s) = (findSub (crlf ++ crlf) s).map (· + 2) := by
  have hnot : ¬ crlf ++ crlf <+: 0x0D :: 0x0A :: s := by
    rintro ⟨u, hu⟩
    have hrest : crlf ++ (crlf ++ u) = crlf ++ s := by
      rw [← List.append_assoc]
      exact hu
    exact h ⟨u, List.append_cancel_left hrest⟩
  rw [findSub_cons hnot, crlf, List.cons_append, findSub_cons_of_ne (by decide),
    ← List.cons_append, ← crlf, Option.map_map]
  rfl

/-- Behind a first line, the head ends at the first CRLF CRLF. -/
theorem findSub_of_headLines {line s t : List UInt8} {ls : List (List UInt8)}
    (h : headLines line s = some (ls, t)) (hline : line ≠ [] ∨ ¬ crlf <+: s) :
    ∃ i, findSub (crlf ++ crlf) s = some i ∧ s.drop (i + 4) = t := by
  induction line, s using headLines.induct generalizing ls with
  | case1 line => exact absurd h (by simp [headLines])
  | case2 line b => exact absurd h (by simp [headLines])
  | case3 b c s hcrlf =>
    obtain ⟨rfl, rfl⟩ := hcrlf
    exact absurd (List.prefix_append crlf s) (hline.resolve_left (not_not.mpr rfl))
  | case4 line b c s hcrlf hline' ih =>
    rw [headLines, if_pos hcrlf, if_neg hline'] at h
    obtain ⟨⟨ls', r⟩, hr, heq⟩ := Option.map_eq_some_iff.mp h
    obtain ⟨-, rfl⟩ := Prod.mk.inj heq
    obtain ⟨rfl, rfl⟩ := hcrlf
    by_cases hempty : crlf <+: s
    · -- the line end is followed by the empty line
      obtain ⟨s, rfl⟩ := hempty
      rw [show crlf ++ s = 0x0D :: 0x0A :: s from rfl, headLines, if_pos ⟨rfl, rfl⟩,
        if_pos rfl] at hr
      obtain ⟨-, rfl⟩ := Prod.mk.inj (Option.some.inj hr)
      exact ⟨0, findSub_of_isPrefix ⟨s, rfl⟩, rfl⟩
    · obtain ⟨i, hi, hdrop⟩ := ih hr (.inr hempty)
      refine ⟨i + 2, ?_, hdrop⟩
      rw [findSub_end_crlf hempty, hi]
      rfl
  | case5 line b c s hcrlf ih =>
    rw [headLines, if_neg hcrlf] at h
    obtain ⟨i, hi, hdrop⟩ := ih h (.inl (List.cons_ne_nil _ _))
    exact ⟨i + 1, by rw [findSub_end_cons hcrlf, hi]; rfl, hdrop⟩

/-- Behind a first line, a head that holds CRLF CRLF ends. -/
theorem exists_headLines_of_findSub {line s : List UInt8} {i : Nat}
    (h : findSub (crlf ++ crlf) s = some i) (hline : line ≠ [] ∨ ¬ crlf <+: s) :
    ∃ lines t, headLines line s = some (lines, t) := by
  induction line, s using headLines.induct generalizing i with
  | case1 line => exact absurd h (by simp [findSub, crlf])
  | case2 line b => exact absurd h (by simp [findSub, crlf])
  | case3 b c s hcrlf =>
    obtain ⟨rfl, rfl⟩ := hcrlf
    exact absurd (List.prefix_append crlf s) (hline.resolve_left (not_not.mpr rfl))
  | case4 line b c s hcrlf hline' ih =>
    obtain ⟨rfl, rfl⟩ := hcrlf
    rw [headLines, if_pos ⟨rfl, rfl⟩, if_neg hline']
    by_cases hempty : crlf <+: s
    · obtain ⟨s, rfl⟩ := hempty
      rw [show crlf ++ s = 0x0D :: 0x0A :: s from rfl, headLines, if_pos ⟨rfl, rfl⟩, if_pos rfl]
      exact ⟨_, _, rfl⟩
    · rw [findSub_end_crlf hempty] at h
      obtain ⟨j, hj, -⟩ := Option.map_eq_some_iff.mp h
      obtain ⟨lines, t, hlines⟩ := ih hj (.inr hempty)
      exact ⟨_, t, by rw [hlines]; rfl⟩
  | case5 line b c s hcrlf ih =>
    rw [findSub_end_cons hcrlf] at h
    obtain ⟨j, hj, -⟩ := Option.map_eq_some_iff.mp h
    rw [headLines, if_neg hcrlf]
    exact ih hj (.inl (List.cons_ne_nil _ _))

/-- Behind a first line, the head up to the first CRLF CRLF is a whole one. -/
theorem headLines_take_of_findSub {s : List UInt8} {i : Nat}
    (h : findSub (crlf ++ crlf) s = some i) (hstart : ¬ crlf <+: s) :
    ∃ lines, headLines [] (s.take (i + 4)) = some (lines, []) := by
  obtain ⟨lines, t, hlines⟩ : ∃ lines t, headLines [] s = some (lines, t) :=
    exists_headLines_of_findSub h (.inr hstart)
  obtain ⟨j, hj, hdrop⟩ := findSub_of_headLines hlines (.inr hstart)
  obtain rfl : i = j := Option.some.inj (h.symm.trans hj)
  obtain ⟨u, hu, hwhole⟩ := headLines_consumed hlines
  have htake : s.take (i + 4) = u := by
    have hsplit := List.take_append_drop (i + 4) s
    rw [hdrop, hu] at hsplit
    rw [hu]
    exact List.append_cancel_right hsplit
  exact ⟨lines, htake ▸ hwhole⟩

/-- The digits and the extensions of a size line. -/
theorem exists_of_sizeOfLine {line : List UInt8} {n : Nat} (h : sizeOfLine line = some n) :
    ∃ hex e, line = hex ++ e ∧ hex ≠ [] ∧ (∀ b ∈ hex, isHexDigit b = true) ∧
      parseDigits 16 0 hex = some n ∧
      (e = [] ∨ ∃ bws rest, e = bws ++ 0x3B :: rest ∧ ∀ b ∈ bws, isOws b = true) := by
  unfold sizeOfLine at h
  simp only at h
  split at h
  · rename_i hline
    obtain ⟨hne, hext⟩ := hline
    refine ⟨line.takeWhile isHexDigit, line.dropWhile isHexDigit,
      List.takeWhile_append_dropWhile.symm, hne, fun b hb => List.mem_takeWhile_imp hb, h, ?_⟩
    refine hext.imp id ?_
    intro hsemi
    obtain ⟨rest, hrest⟩ := List.head?_eq_some_iff.mp hsemi
    refine ⟨(line.dropWhile isHexDigit).takeWhile isOws, rest, ?_,
      fun b hb => List.mem_takeWhile_imp hb⟩
    rw [← hrest, List.takeWhile_append_dropWhile]
  · exact absurd h (by simp)

theorem visible_of_isHexDigit {b : UInt8} (h : isHexDigit b = true) : IsVisible b := by
  obtain ⟨d, hd⟩ := Option.isSome_iff_exists.mp h
  exact (visible_of_digitValue hd).1

theorem decodeChunks_chunk (c : CodedChunk) (fuel : Nat) (rest : List UInt8) :
    decodeChunks (fuel + 1) (c.bytes ++ rest) =
      (decodeChunks fuel rest).map fun r => (c.data ++ r.1, r.2) := by
  have hpos : c.data.length ≠ 0 := by simpa using c.data_ne
  have htail : c.data ++ crlf ++ rest = c.data ++ (crlf ++ rest) := List.append_assoc ..
  rw [CodedChunk.bytes, List.append_assoc, decodeChunks, takeLine_of_lineEnd c.line_end]
  simp only [c.size]
  obtain ⟨n, hn⟩ := Nat.exists_eq_succ_of_ne_zero hpos
  rw [hn]
  simp only [← hn]
  rw [htail, List.drop_left' rfl, List.take_left' rfl,
    if_pos (List.isPrefixOf_iff_prefix.mpr (List.prefix_append ..)), ← htail,
    List.drop_left' (by simp [crlf])]

theorem decodeChunks_chunks (chunks : List CodedChunk) (fuel : Nat) (rest : List UInt8) :
    decodeChunks (chunks.length + fuel) (chunks.flatMap CodedChunk.bytes ++ rest) =
      (decodeChunks fuel rest).map fun r => (chunks.flatMap CodedChunk.data ++ r.1, r.2) := by
  induction chunks with
  | nil => simp
  | cons c chunks ih =>
    rw [List.length_cons, Nat.add_right_comm, List.flatMap_cons, List.append_assoc,
      decodeChunks_chunk, ih, Option.map_map]
    simp [Function.comp_def]

theorem length_le_flatMap_bytes (chunks : List CodedChunk) :
    chunks.length ≤ (chunks.flatMap CodedChunk.bytes).length := by
  induction chunks with
  | nil => simp
  | cons c chunks ih =>
    have hpos : 1 ≤ c.bytes.length := by
      simp only [CodedChunk.bytes, List.length_append, crlf, List.length_cons, List.length_nil]
      omega
    rw [List.flatMap_cons, List.length_append, List.length_cons]
    omega

/-- The body is a part of the message. -/
theorem CodedMessage.length_body_lt (m : CodedMessage) : m.body.length < m.bytes.length := by
  have hle : ∀ chunks : List CodedChunk,
      (chunks.flatMap CodedChunk.data).length ≤ (chunks.flatMap CodedChunk.bytes).length := by
    intro chunks
    induction chunks with
    | nil => exact le_refl _
    | cons c chunks ih =>
      simp only [List.flatMap_cons, List.length_append, CodedChunk.bytes]
      omega
  have hchunks := hle m.chunks
  simp only [CodedMessage.body, CodedMessage.bytes, CodedMessage.lastBytes, List.length_append,
    crlf, List.length_cons, List.length_nil]
  omega

theorem CodedMessage.length_data_le {m : CodedMessage} {c : CodedChunk} (hc : c ∈ m.chunks) :
    c.data.length ≤ m.body.length :=
  (List.sublist_flatten_of_mem (List.mem_map_of_mem hc)).length_le

theorem decodeChunked_coded (m : CodedMessage) (t : List UInt8) :
    decodeChunked (m.bytes ++ t) = some (m.body, t) := by
  have hlast : ∀ fuel, decodeChunks (fuel + 1) (m.lastBytes ++ t) = some ([], t) := by
    intro fuel
    obtain ⟨lines, hlines⟩ := m.tail_end
    rw [CodedMessage.lastBytes, List.append_assoc, decodeChunks, takeLine_of_lineEnd m.line_end]
    simp only [m.size, headLines_append hlines]
    rfl
  obtain ⟨fuel, hfuel⟩ : ∃ fuel, (m.bytes ++ t).length + 1 = m.chunks.length + (fuel + 1) := by
    have hle := length_le_flatMap_bytes m.chunks
    refine ⟨(m.bytes ++ t).length - m.chunks.length, ?_⟩
    simp only [CodedMessage.bytes, List.length_append]
    omega
  rw [decodeChunked, hfuel, CodedMessage.bytes, List.append_assoc, decodeChunks_chunks, hlast]
  simp [CodedMessage.body]

/-- Where a line end stands behind `n` bytes, there are `n` bytes. -/
theorem exists_data_of_crlf {s : List UInt8} {n : Nat} (h : crlf <+: s.drop n) :
    ∃ data u, data.length = n ∧ s = data ++ (crlf ++ u) := by
  obtain ⟨u, hu⟩ := h
  have hlen : n ≤ s.length := by
    by_contra hlt
    rw [List.drop_of_length_le (by omega)] at hu
    exact absurd hu (by simp [crlf])
  exact ⟨s.take n, u, List.length_take_of_le hlen, by rw [hu, List.take_append_drop]⟩

/-! ## Coded messages, from their first line -/

/-- A message starts with its zero chunk or with another one. -/
theorem CodedMessage.bytes_cases {m : CodedMessage} {line rest : List UInt8}
    (hend : findSub crlf (line ++ crlf) = some line.length)
    (h : m.bytes = line ++ crlf ++ rest) :
    (m.lastLine = line ∧ m.tail = rest) ∨
      ∃ c m', CodedChunk.line c = line ∧ rest = c.data ++ (crlf ++ CodedMessage.bytes m') := by
  have hline := takeLine_of_lineEnd hend rest
  rw [← h] at hline
  cases hchunks : m.chunks with
  | nil =>
    rw [CodedMessage.bytes, hchunks, List.flatMap_nil, List.nil_append, CodedMessage.lastBytes,
      takeLine_of_lineEnd m.line_end] at hline
    obtain ⟨hlast, htail⟩ := Prod.mk.inj (Option.some.inj hline)
    exact .inl ⟨hlast, htail⟩
  | cons c cs =>
    have hbytes : m.bytes = c.line ++ crlf ++
        (c.data ++ (crlf ++ { m with chunks := cs : CodedMessage }.bytes)) := by
      simp [CodedMessage.bytes, hchunks, CodedChunk.bytes, CodedMessage.lastBytes]
    rw [hbytes, takeLine_of_lineEnd c.line_end] at hline
    obtain ⟨hfirst, hrest⟩ := Prod.mk.inj (Option.some.inj hline)
    exact .inr ⟨c, _, hfirst, hrest.symm⟩

/-- Behind a line that announces nothing but 0. -/
theorem coded_last_iff {line tail : List UInt8}
    (hend : findSub crlf (line ++ crlf) = some line.length)
    (hsize : ∀ n, sizeOfLine line = some n → n = 0) :
    (∃ m : CodedMessage, m.bytes = line ++ crlf ++ tail) ↔
      (sizeOfLine line).isSome = true ∧ ∃ lines, headLines [] tail = some (lines, []) := by
  constructor
  · rintro ⟨m, hm⟩
    rcases CodedMessage.bytes_cases hend hm with ⟨rfl, rfl⟩ | ⟨c, m', rfl, -⟩
    · exact ⟨by rw [m.size]; rfl, m.tail_end⟩
    · exact absurd (List.length_eq_zero_iff.mp (hsize _ c.size)) c.data_ne
  · rintro ⟨hsome, htail⟩
    obtain ⟨n, hn⟩ := Option.isSome_iff_exists.mp hsome
    obtain rfl := hsize n hn
    exact ⟨⟨[], line, hend, hn, tail, htail⟩, by simp [CodedMessage.bytes, CodedMessage.lastBytes]⟩

/-- Behind a line that announces nothing but the length of the data. -/
theorem coded_chunk_iff {line data sep rest : List UInt8}
    (hend : findSub crlf (line ++ crlf) = some line.length)
    (hsize : ∀ n, sizeOfLine line = some n → n = data.length) (hne : data ≠ [])
    (hsep : sep.length = 2) :
    (∃ m : CodedMessage, m.bytes = line ++ crlf ++ (data ++ (sep ++ rest))) ↔
      (sizeOfLine line).isSome = true ∧ sep = crlf ∧ ∃ m : CodedMessage, m.bytes = rest := by
  constructor
  · rintro ⟨m, hm⟩
    rcases CodedMessage.bytes_cases hend hm with ⟨rfl, -⟩ | ⟨c, m', rfl, hrest⟩
    · exact absurd (List.length_eq_zero_iff.mp (hsize _ m.size).symm) hne
    · obtain ⟨rfl, htail⟩ := List.append_inj hrest (hsize _ c.size).symm
      obtain ⟨rfl, rfl⟩ := List.append_inj htail hsep
      exact ⟨by rw [c.size]; rfl, rfl, m', rfl⟩
  · rintro ⟨hsome, rfl, m, rfl⟩
    obtain ⟨n, hn⟩ := Option.isSome_iff_exists.mp hsome
    obtain rfl := hsize n hn
    refine ⟨{ m with chunks := ⟨line, data, hend, hn, hne⟩ :: m.chunks }, ?_⟩
    simp [CodedMessage.bytes, CodedMessage.lastBytes, CodedChunk.bytes]

theorem exists_of_decodeChunks {fuel : Nat} {s body t : List UInt8}
    (h : decodeChunks fuel s = some (body, t)) :
    ∃ m : CodedMessage, s = m.bytes ++ t ∧ m.body = body := by
  induction fuel generalizing s body with
  | zero => exact absurd h (by simp [decodeChunks])
  | succ fuel ih =>
    rw [decodeChunks] at h
    cases hline : takeLine s with
    | none =>
      rw [hline] at h
      exact absurd h (by simp)
    | some line =>
      obtain ⟨line, s'⟩ := line
      obtain ⟨rfl, hend⟩ := lineEnd_of_takeLine hline
      rw [hline] at h
      simp only at h
      match hsize : sizeOfLine line with
      | none =>
        rw [hsize] at h
        exact absurd h (by simp)
      | some 0 =>
        rw [hsize] at h
        obtain ⟨⟨ls, r⟩, hr, heq⟩ := Option.map_eq_some_iff.mp h
        obtain ⟨rfl, rfl⟩ := Prod.mk.inj heq
        obtain ⟨u, rfl, hu⟩ := headLines_consumed hr
        refine ⟨⟨[], line, hend, hsize, u, ls, hu⟩, ?_, rfl⟩
        simp [CodedMessage.bytes, CodedMessage.lastBytes]
      | some (size + 1) =>
        rw [hsize] at h
        simp only at h
        by_cases hcrlf : crlf.isPrefixOf (s'.drop (size + 1)) = true
        · rw [if_pos hcrlf] at h
          obtain ⟨⟨b, r⟩, hr, heq⟩ := Option.map_eq_some_iff.mp h
          obtain ⟨rfl, rfl⟩ := Prod.mk.inj heq
          obtain ⟨m, hm, rfl⟩ := ih hr
          obtain ⟨data, u, hdata, rfl⟩ := exists_data_of_crlf (List.isPrefixOf_iff_prefix.mp hcrlf)
          have hsucc : size.succ = data.length := hdata.symm
          rw [hsucc] at hm hsize ⊢
          rw [← List.drop_drop, List.drop_left' rfl] at hm
          obtain rfl : u = m.bytes ++ r := hm
          refine ⟨{ m with chunks := ⟨line, data, hend, hsize, ?_⟩ :: m.chunks }, ?_, ?_⟩
          · exact List.ne_nil_of_length_pos (by omega)
          · simp [CodedMessage.bytes, CodedMessage.lastBytes, CodedChunk.bytes]
          · simp [CodedMessage.body]
        · rw [if_neg hcrlf] at h
          exact absurd h (by simp)

/-- **What the decoder accepts.** -/
theorem decodeChunked_eq_some_iff {s body t : List UInt8} :
    decodeChunked s = some (body, t) ↔ ∃ m : CodedMessage, s = m.bytes ++ t ∧ m.body = body := by
  constructor
  · intro h
    exact exists_of_decodeChunks h
  · rintro ⟨m, rfl, rfl⟩
    exact decodeChunked_coded m t

/-! ## The round trip -/

/-- A chunk as the decoder sees it. -/
def Chunk.coded (c : Chunk) : CodedChunk where
  line := formatRadix 16 c.data.length ++ c.chunkExt
  data := c.data
  line_end := by
    have hline := findSub_crlf (cr_not_mem_sizeLine (n := c.data.length) c.isExt) []
    rwa [List.append_nil] at hline
  size := sizeOfLine_sizeLine c.isExt
  data_ne := c.data_ne

/-- A message as the decoder sees it. -/
def ChunkedMessage.coded (m : ChunkedMessage) : CodedMessage where
  chunks := m.chunks.map Chunk.coded
  lastLine := formatRadix 16 0 ++ m.lastExt
  line_end := by
    have hline := findSub_crlf (cr_not_mem_sizeLine (n := 0) m.isExt) []
    rwa [List.append_nil] at hline
  size := sizeOfLine_sizeLine m.isExt
  tail := trailerBytes m.trailers ++ crlf
  tail_end := by
    have hvalid : ∀ line ∈ m.trailers.map Trailer.line, line ≠ [] ∧ 0x0D ∉ line := by
      intro line hline
      obtain ⟨x, -, rfl⟩ := List.mem_map.mp hline
      exact ⟨x.line_ne, x.cr⟩
    have hlines := headLines_lines hvalid []
    rw [List.flatMap_map, List.append_nil] at hlines
    exact ⟨_, hlines⟩

@[simp] theorem ChunkedMessage.coded_bytes (m : ChunkedMessage) : m.coded.bytes = m.bytes := by
  have hchunks : (m.chunks.map Chunk.coded).flatMap CodedChunk.bytes =
      m.chunks.flatMap Chunk.bytes := by
    rw [List.flatMap_map]
    rfl
  rw [CodedMessage.bytes, ChunkedMessage.bytes, ← hchunks]
  rfl

@[simp] theorem ChunkedMessage.coded_body (m : ChunkedMessage) : m.coded.body = m.body := by
  rw [CodedMessage.body, ChunkedMessage.coded, List.flatMap_map]
  rfl

/-- **A message in chunked coding is decoded.** -/
theorem decodeChunked_bytes (m : ChunkedMessage) (t : List UInt8) :
    decodeChunked (m.bytes ++ t) = some (m.body, t) := by
  have h := decodeChunked_coded m.coded t
  rwa [m.coded_bytes, m.coded_body] at h

theorem decodeChunks_append {fuel fuel' : Nat} {s body rest : List UInt8}
    (h : decodeChunks fuel s = some (body, rest)) (hle : fuel ≤ fuel') (t : List UInt8) :
    decodeChunks fuel' (s ++ t) = some (body, rest ++ t) := by
  induction fuel generalizing fuel' s body with
  | zero => exact absurd h (by simp [decodeChunks])
  | succ fuel ih =>
    obtain ⟨fuel', rfl⟩ : ∃ k, fuel' = k + 1 := ⟨fuel' - 1, by omega⟩
    rw [decodeChunks] at h
    rw [decodeChunks]
    cases hline : takeLine s with
    | none =>
      rw [hline] at h
      exact absurd h (by simp)
    | some line =>
      obtain ⟨line, s⟩ := line
      rw [takeLine_append hline]
      rw [hline] at h
      simp only at h ⊢
      match hsize : sizeOfLine line with
      | none =>
        rw [hsize] at h
        exact absurd h (by simp)
      | some 0 =>
        rw [hsize] at h
        obtain ⟨⟨ls, r⟩, hr, heq⟩ := Option.map_eq_some_iff.mp h
        obtain ⟨rfl, rfl⟩ := Prod.mk.inj heq
        show (headLines [] (s ++ t)).map _ = _
        rw [headLines_append hr]
        rfl
      | some (size + 1) =>
        rw [hsize] at h
        simp only at h ⊢
        by_cases hcrlf : crlf.isPrefixOf (s.drop (size + 1)) = true
        · rw [if_pos hcrlf] at h
          obtain ⟨⟨b, r⟩, hr, heq⟩ := Option.map_eq_some_iff.mp h
          obtain ⟨rfl, rfl⟩ := Prod.mk.inj heq
          have hprefix := List.isPrefixOf_iff_prefix.mp hcrlf
          have hlen : size + 1 + 2 ≤ s.length := by
            have hle := hprefix.length_le
            simp only [crlf, List.length_cons, List.length_nil, List.length_drop] at hle
            omega
          have hcrlf' : crlf.isPrefixOf ((s ++ t).drop (size + 1)) = true := by
            rw [List.drop_append_of_le_length (by omega), List.isPrefixOf_iff_prefix]
            exact hprefix.trans (List.prefix_append _ _)
          rw [if_pos hcrlf', List.drop_append_of_le_length hlen,
            List.take_append_of_le_length (by omega), ih hr (by omega)]
          rfl
        · rw [if_neg hcrlf] at h
          exact absurd h (by simp)

/-- What has been decoded stays decoded when more arrives. -/
theorem decodeChunked_append {s body rest : List UInt8} (h : decodeChunked s = some (body, rest))
    (t : List UInt8) : decodeChunked (s ++ t) = some (body, rest ++ t) := by
  apply decodeChunks_append h
  simp

end PpcaNetwork.Http1
