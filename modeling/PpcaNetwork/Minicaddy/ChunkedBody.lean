import PpcaNetwork.Lib.Http1.Chunked
import PpcaNetwork.Minicaddy.ReadBody

/-!
# Chunked decoding and the cut between the reads

A message in chunked coding arrives in reads that may be cut anywhere.  The
decoder finds the same body for every cut but one kind: when the last two bytes
of a message without trailers are not buffered together with the line of the
zero chunk, it looks for an empty line behind them, in bytes that belong to what
follows.

* `chunkRound_chunk` — one chunk is decoded in one round, whatever the cut.
* `DecodesInTime` — the decoder finds the body and leaves the rest, and takes no
  read after the message has arrived.
* `leaves_readChunkedBody_iff` — which messages are decoded, however they are written.
* `decodesInTime_iff` — for which messages of `write_chunk` and which cuts that holds.
-/

namespace PpcaNetwork.Minicaddy

open Http1

/-! ## One size line -/

/-- The number in front of the extensions of a size line. -/
theorem trim_sizeLine {hex e : List UInt8} (hhex : ∀ b ∈ hex, isHexDigit b = true)
    (hne : hex ≠ [])
    (h : e = [] ∨ ∃ bws rest, e = bws ++ 0x3B :: rest ∧ ∀ b ∈ bws, isOws b = true) :
    trim (((hex ++ e).splitOn 0x3B).headD []) = hex := by
  have hvisible : ∀ b ∈ hex, IsVisible b := fun b hb => visible_of_isHexDigit (hhex b hb)
  have hsemi : 0x3B ∉ hex := by
    intro hmem
    exact absurd (hhex _ hmem) (by decide)
  rcases h with rfl | ⟨bws, rest, rfl, hbws⟩
  · have htrim : trim (hex ++ []) = hex := trim_append_blanks hvisible hne (by simp)
    rw [List.append_nil, List.splitOn_eq_singleton hsemi]
    simpa using htrim
  · have hblank : 0x3B ∉ hex ++ bws := by
      rw [List.mem_append]
      rintro (hmem | hmem)
      · exact hsemi hmem
      · exact absurd (hbws _ hmem) (by decide)
    rw [← List.append_assoc, List.splitOn_append_cons_self_of_not_mem hblank]
    refine trim_append_blanks hvisible hne ?_
    intro b hb
    have hows := hbws b hb
    simp only [isOws, Bool.or_eq_true, decide_eq_true_eq] at hows
    rcases hows with rfl | rfl
    · rfl
    · rfl

/-- The size that a size line announces, if the line is text. -/
theorem chunkSize_line {line : List UInt8} {n : Nat} (h : sizeOfLine line = some n)
    (hn : n ≤ maxU64) :
    chunkSize line =
      if isUtf8 line then .ok n else .error (.httpInvalidRequest (utf8 "non-utf8 chunk size")) := by
  obtain ⟨hex, e, rfl, hne, hhex, hdigits, hext⟩ := exists_of_sizeOfLine h
  rw [chunkSize, trim_sizeLine hhex hne hext, parseUint_of_parseDigits hne hdigits hn]

/-! ## One round -/

/-- The size line of the next chunk is found, whatever the cut. -/
theorem fill_sizeLine {s : ChunkState} {line rest : List UInt8}
    (hline : findSub crlf (line ++ crlf) = some line.length)
    (h : s.buf ++ s.stream.bytes = (line ++ crlf) ++ rest) :
    ∃ w reads', s.stream.fill (containsSub crlf) s.buf =
        .full ((line ++ crlf) ++ w) ⟨reads', s.stream.ending⟩ ∧
      w ++ packetBytes reads' = rest ∧ Stream.Needed rest.length s.stream.reads reads' := by
  refine Stream.fill_until (by decide) hline ?_ h
  rw [List.length_append]

/-- The line is cut off the buffer, and what stands behind its end. -/
theorem take_sizeLine (line w : List UInt8) : ((line ++ crlf) ++ w).take line.length = line := by
  rw [List.append_assoc, List.take_left']
  rfl

theorem drop_sizeLine (line w : List UInt8) :
    ((line ++ crlf) ++ w).drop (line.length + 2) = w := by
  apply List.drop_left'
  rw [List.length_append]
  rfl

/-- A round on a size line goes on with the size it announces. -/
theorem chunkRound_sizeLine {s : ChunkState} {line rest : List UInt8} {n : Nat}
    (hline : findSub crlf (line ++ crlf) = some line.length) (hsize : sizeOfLine line = some n)
    (hn : n ≤ maxU64) (h : s.buf ++ s.stream.bytes = line ++ crlf ++ rest) :
    ∃ w reads', w ++ packetBytes reads' = rest ∧
      Stream.Needed rest.length s.stream.reads reads' ∧
      chunkRound s =
        if isUtf8 line then
          if n = 0 then .done (finishChunks w s.body ⟨reads', s.stream.ending⟩)
          else chunkData n ⟨w, s.body, ⟨reads', s.stream.ending⟩⟩
        else .done (.error (.httpInvalidRequest (utf8 "non-utf8 chunk size"))) := by
  obtain ⟨w, reads', hfill, hw, hneeded⟩ := fill_sizeLine hline h
  refine ⟨w, reads', hw, hneeded, ?_⟩
  unfold chunkRound
  rw [hfill]
  simp only [findSub_append_right hline, Option.getD_some, take_sizeLine, drop_sizeLine,
    chunkSize_line hsize hn]
  split
  · rename_i e hsize
    split at hsize
    · exact absurd hsize (by simp)
    · rename_i hutf
      rw [if_neg hutf, Except.error.inj hsize]
  · rename_i size hsize
    split at hsize
    · rename_i hutf
      obtain rfl := Except.ok.inj hsize
      rw [if_pos hutf]
    · exact absurd hsize (by simp)

/-- The data of a chunk is taken with the two bytes behind it, whatever the cut. -/
theorem chunkData_next {s : ChunkState} {data sep rest : List UInt8}
    (hlen : data.length + 2 < 2 ^ 64) (hsep : sep.length = 2)
    (h : s.buf ++ s.stream.bytes = (data ++ sep) ++ rest) :
    ∃ w reads', chunkData data.length s =
        .next ⟨w, s.body ++ data, ⟨reads', s.stream.ending⟩⟩ ∧
      w ++ packetBytes reads' = rest ∧ Stream.Needed rest.length s.stream.reads reads' := by
  have hend : chunkEnd data.length = data.length + 2 := Nat.mod_eq_of_lt hlen
  have henough : ∀ b, b <+: (data ++ sep) ++ rest →
      (decide (data.length + 2 ≤ b.length) = true ↔ (data ++ sep).length ≤ b.length) := by
    intro b hb
    simp [hsep]
  obtain ⟨w, reads', hfill, hw, hneeded⟩ := Stream.fill_of_threshold h henough
  refine ⟨w, reads', ?_, hw, hneeded⟩
  have hslice : ¬ ((data ++ sep) ++ w).length < data.length := by
    rw [List.length_append, List.length_append]
    omega
  rw [chunkData, hend, hfill]
  simp only [if_neg hslice, Round.next.injEq, ChunkState.mk.injEq, and_true]
  constructor
  · apply List.drop_left'
    simp [hsep]
  · rw [List.append_assoc, List.take_left']
    rfl

/-- One chunk is decoded in one round, whatever the cut. -/
theorem chunkRound_chunk {c : CodedChunk} (hutf : isUtf8 c.line = true)
    (hlen : c.data.length < 2 ^ 63) {s : ChunkState} {rest : List UInt8}
    (h : s.buf ++ s.stream.bytes = c.bytes ++ rest) :
    ∃ w reads', chunkRound s = .next ⟨w, s.body ++ c.data, ⟨reads', s.stream.ending⟩⟩ ∧
      w ++ packetBytes reads' = rest ∧ Stream.Needed rest.length s.stream.reads reads' := by
  have hpos : c.data.length ≠ 0 := by simpa using c.data_ne
  rw [CodedChunk.bytes, List.append_assoc _ (c.data ++ crlf) rest] at h
  obtain ⟨w₁, reads₁, hw₁, hneeded₁, hround⟩ :=
    chunkRound_sizeLine c.line_end c.size (le_maxU64 hlen) h
  rw [if_pos hutf, if_neg hpos] at hround
  obtain ⟨w, reads', hdata, hw, hneeded⟩ := chunkData_next (s := ⟨w₁, s.body,
    ⟨reads₁, s.stream.ending⟩⟩) (by omega) rfl hw₁
  refine ⟨w, reads', hround.trans hdata, hw, hneeded₁.trans hneeded ?_⟩
  rw [List.length_append]
  exact Nat.le_add_left ..

/-! ## All chunks -/

/-- The rounds for a list of chunks, whatever the cut. -/
theorem bounded_chunks {chunks : List CodedChunk}
    (hlen : ∀ c ∈ chunks, c.data.length < 2 ^ 63) (hutf : ∀ c ∈ chunks, isUtf8 c.line = true)
    (fuel : Nat) {s : ChunkState} {rest : List UInt8}
    (h : s.buf ++ s.stream.bytes = chunks.flatMap CodedChunk.bytes ++ rest) :
    ∃ w reads', Loop.bounded chunkRound (fun _ => .waiting) (chunks.length + fuel) s =
        Loop.bounded chunkRound (fun _ => .waiting) fuel
          ⟨w, s.body ++ chunks.flatMap CodedChunk.data, ⟨reads', s.stream.ending⟩⟩ ∧
      w ++ packetBytes reads' = rest ∧ Stream.Needed rest.length s.stream.reads reads' := by
  induction chunks generalizing s with
  | nil =>
    refine ⟨s.buf, s.stream.reads, ?_, h, Stream.Needed.refl _ _⟩
    simp
  | cons c chunks ih =>
    rw [List.flatMap_cons, List.append_assoc] at h
    obtain ⟨w₁, reads₁, hround, hw₁, hneeded₁⟩ :=
      chunkRound_chunk (hutf c (by simp)) (hlen c (by simp)) h
    obtain ⟨w, reads', hrun, hw, hneeded⟩ :=
      ih (s := ⟨w₁, s.body ++ c.data, ⟨reads₁, s.stream.ending⟩⟩)
        (fun x hx => hlen x (List.mem_cons_of_mem _ hx))
        (fun x hx => hutf x (List.mem_cons_of_mem _ hx)) hw₁
    refine ⟨w, reads', ?_, hw, hneeded₁.trans hneeded ?_⟩
    · rw [List.length_cons, Nat.add_right_comm, Loop.bounded, hround]
      simpa using hrun
    · rw [List.length_append]
      exact Nat.le_add_left ..

/-- A size line that is no text ends the decoding with an error. -/
theorem bounded_error {chunks : List CodedChunk}
    (hlen : ∀ c ∈ chunks, c.data.length < 2 ^ 63) (hbad : ∃ c ∈ chunks, isUtf8 c.line = false)
    (fuel : Nat) {s : ChunkState} {rest : List UInt8}
    (h : s.buf ++ s.stream.bytes = chunks.flatMap CodedChunk.bytes ++ rest) :
    ∃ e, Loop.bounded chunkRound (fun _ => .waiting) (chunks.length + fuel) s = .error e := by
  induction chunks generalizing s with
  | nil => simp at hbad
  | cons c chunks ih =>
    have hlt := hlen c (by simp)
    rw [List.flatMap_cons, List.append_assoc] at h
    rw [List.length_cons, Nat.add_right_comm, Loop.bounded]
    cases hutf : isUtf8 c.line with
    | true =>
      obtain ⟨w, reads', hround, hw, -⟩ := chunkRound_chunk hutf hlt h
      rw [hround]
      refine ih (fun x hx => hlen x (List.mem_cons_of_mem _ hx)) ?_
        (s := ⟨w, s.body ++ c.data, ⟨reads', s.stream.ending⟩⟩) hw
      obtain ⟨x, hx, hxbad⟩ := hbad
      rcases List.mem_cons.mp hx with rfl | hx
      · exact absurd (hutf.symm.trans hxbad) (by simp)
      · exact ⟨x, hx, hxbad⟩
    | false =>
      rw [CodedChunk.bytes, List.append_assoc _ (c.data ++ crlf) _] at h
      obtain ⟨w, reads', -, -, hround⟩ :=
        chunkRound_sizeLine c.line_end c.size (le_maxU64 hlt) h
      rw [hround, hutf]
      exact ⟨_, rfl⟩

/-- There are rounds enough for all chunks and the zero chunk. -/
theorem exists_fuel {chunks : List CodedChunk} {s : Stream} {buffered rest : List UInt8}
    (h : buffered ++ s.bytes = chunks.flatMap CodedChunk.bytes ++ rest) :
    ∃ fuel, buffered.length + s.bytes.length + 1 = chunks.length + (fuel + 1) := by
  have hlen := congrArg List.length h
  rw [List.length_append, List.length_append] at hlen
  have hle := length_le_flatMap_bytes chunks
  exact ⟨buffered.length + s.bytes.length - chunks.length, by omega⟩

/-! ## The end of the message -/

section Last

variable {m : CodedMessage} {t buffered : List UInt8} {reads : List Packet}

/-- A body is returned only if the size lines of all chunks are text. -/
theorem utf8_of_readChunkedBody (hlen : ∀ c ∈ m.chunks, c.data.length < 2 ^ 63)
    {ending : StreamEnd} {rest : Stream} {body : Body}
    (h : buffered ++ packetBytes reads = m.bytes ++ t)
    (hok : readChunkedBody ⟨reads, ending⟩ buffered = .ok body rest) :
    ∀ c ∈ m.chunks, isUtf8 c.line = true := by
  intro c hc
  by_contra hbad
  rw [CodedMessage.bytes, List.append_assoc] at h
  obtain ⟨fuel, hfuel⟩ := exists_fuel (s := ⟨reads, ending⟩) h
  obtain ⟨e, he⟩ := bounded_error hlen ⟨c, hc, by simpa using hbad⟩ (fuel + 1)
    (s := ⟨buffered, [], ⟨reads, ending⟩⟩) h
  rw [readChunkedBody, hfuel, he] at hok
  exact absurd hok (by simp)

/-- Up to the line of the zero chunk the cut makes no difference. -/
theorem readChunkedBody_last (hlen : ∀ c ∈ m.chunks, c.data.length < 2 ^ 63)
    (hutf : ∀ c ∈ m.chunks, isUtf8 c.line = true)
    (h : buffered ++ packetBytes reads = m.bytes ++ t) (ending : StreamEnd) :
    ∃ w reads', w ++ packetBytes reads' = m.tail ++ t ∧
      Stream.Needed (m.tail ++ t).length reads reads' ∧
      readChunkedBody ⟨reads, ending⟩ buffered =
        if isUtf8 m.lastLine then finishChunks w m.body ⟨reads', ending⟩
        else .error (.httpInvalidRequest (utf8 "non-utf8 chunk size")) := by
  rw [CodedMessage.bytes, List.append_assoc] at h
  obtain ⟨fuel, hfuel⟩ := exists_fuel (s := ⟨reads, ending⟩) h
  obtain ⟨w₁, reads₁, hrun, hw₁, hneeded₁⟩ :=
    bounded_chunks hlen hutf (fuel + 1) (s := ⟨buffered, [], ⟨reads, ending⟩⟩) h
  rw [CodedMessage.lastBytes, List.append_assoc] at hw₁
  obtain ⟨w, reads', hw, hneeded, hround⟩ := chunkRound_sizeLine
    (s := ⟨w₁, m.chunks.flatMap CodedChunk.data, ⟨reads₁, ending⟩⟩) m.line_end m.size
    (Nat.zero_le _) hw₁
  refine ⟨w, reads', hw, hneeded₁.trans hneeded ?_, ?_⟩
  · simp only [CodedMessage.lastBytes, List.length_append]
    omega
  · rw [readChunkedBody, hfuel, hrun, Loop.bounded, List.nil_append, hround]
    by_cases hlast : isUtf8 m.lastLine = true
    · rw [if_pos hlast, if_pos hlast, if_pos rfl]
      rfl
    · rw [if_neg hlast, if_neg hlast]

/-- Behind trailers the empty line is the first one. -/
theorem findSub_tail {tail : List UInt8} (htail : ∃ lines, headLines [] tail = some (lines, []))
    (hnot : ¬ crlf <+: tail) :
    ∃ i, findSub crlfcrlf tail = some i ∧ i + 4 = tail.length := by
  obtain ⟨lines, hlines⟩ := htail
  obtain ⟨i, hi, hdrop⟩ := findSub_of_headLines hlines (.inr hnot)
  have hle : i + 4 ≤ tail.length := findSub_length_le (by decide) hi
  exact ⟨i, hi, le_antisymm hle (List.drop_eq_nil_iff.mp hdrop)⟩

/-- A tail that starts with the empty line is nothing else. -/
theorem tail_eq_crlf {tail : List UInt8} (htail : ∃ lines, headLines [] tail = some (lines, []))
    (h : crlf <+: tail) : tail = crlf := by
  obtain ⟨lines, hlines⟩ := htail
  obtain ⟨u, rfl⟩ := h
  have hempty : headLines [] (crlf ++ u) = some ([], u) := by
    rw [show crlf ++ u = 0x0D :: 0x0A :: u from rfl, headLines, if_pos ⟨rfl, rfl⟩, if_pos rfl]
  rw [hempty] at hlines
  rw [(Prod.mk.inj (Option.some.inj hlines)).2, List.append_nil]

/-- Behind trailers the end is where CRLF CRLF is found, whatever the cut. -/
theorem finishChunks_found {tail w body : List UInt8} {ending : StreamEnd} {i : Nat}
    (hfind : findSub crlfcrlf tail = some i) (hlen : tail.length = i + 4)
    (hw : w ++ packetBytes reads = tail ++ t) (hnot : ¬ crlf <+: w) :
    ∃ leftover reads', finishChunks w body ⟨reads, ending⟩ =
        .ok (body, leftover) ⟨reads', ending⟩ ∧
      leftover ++ packetBytes reads' = t ∧ Stream.Needed t.length reads reads' := by
  obtain ⟨v, reads', hfill, hv, hneeded⟩ :=
    Stream.fill_until (s := ⟨reads, ending⟩) (by decide) hfind hlen hw
  refine ⟨v, reads', ?_, hv, hneeded⟩
  rw [finishChunks, if_neg (by rwa [List.isPrefixOf_iff_prefix]), hfill]
  simp only [findSub_append_right hfind, Option.getD_some]
  rw [List.drop_left' hlen]

/-- With trailers, the message ends where it should, whatever the cut. -/
theorem finishChunks_trailers {tail : List UInt8}
    (htail : ∃ lines, headLines [] tail = some (lines, [])) (hne : tail ≠ crlf)
    {w body : List UInt8} {ending : StreamEnd} (hw : w ++ packetBytes reads = tail ++ t) :
    ∃ leftover reads', finishChunks w body ⟨reads, ending⟩ =
        .ok (body, leftover) ⟨reads', ending⟩ ∧
      leftover ++ packetBytes reads' = t ∧ Stream.Needed t.length reads reads' := by
  have hstart : ¬ crlf <+: tail := fun h => hne (tail_eq_crlf htail h)
  obtain ⟨i, hi, hlen⟩ := findSub_tail htail hstart
  refine finishChunks_found hi hlen.symm hw fun hprefix => ?_
  have hwhole : crlf <+: tail ++ t := hw ▸ hprefix.trans (List.prefix_append ..)
  exact hstart (List.prefix_of_prefix_length_le hwhole (List.prefix_append ..)
    (by simp only [crlf, List.length_cons, List.length_nil]; omega))

/-- Without trailers, the message ends where it should if its last two bytes are
buffered. -/
theorem finishChunks_buffered {w body : List UInt8} {ending : StreamEnd}
    (hw : w ++ packetBytes reads = crlf ++ t) (hle : (packetBytes reads).length ≤ t.length) :
    ∃ leftover, finishChunks w body ⟨reads, ending⟩ = .ok (body, leftover) ⟨reads, ending⟩ ∧
      leftover ++ packetBytes reads = t := by
  have hlen := congrArg List.length hw
  rw [List.length_append, List.length_append] at hlen
  obtain ⟨v, rfl, hv⟩ := Stream.exists_append_of_le hw (by omega)
  refine ⟨v, ?_, hv⟩
  rw [finishChunks, if_pos (List.isPrefixOf_iff_prefix.mpr (List.prefix_append ..))]
  rfl

/-- Without trailers, and with the last two bytes of the message not both
buffered, what is returned is not all that follows the message, unless nothing does. -/
theorem finishChunks_unbuffered {w body leftover : List UInt8} {ending : StreamEnd} {rest : Stream}
    (hw : w ++ packetBytes reads = crlf ++ t) (hlt : t.length < (packetBytes reads).length)
    (h : finishChunks w body ⟨reads, ending⟩ = .ok (body, leftover) rest)
    (hleft : leftover ++ rest.bytes = t) : t = [] ∧ ending = .closed := by
  have hlen := congrArg List.length hw
  rw [List.length_append, List.length_append] at hlen
  have hnot : ¬ crlf.isPrefixOf w = true := by
    rw [List.isPrefixOf_iff_prefix]
    intro hprefix
    have hle := hprefix.length_le
    omega
  rw [finishChunks, if_neg hnot] at h
  split at h
  · rename_i buf s hfill
    obtain ⟨henough, hbytes⟩ := Stream.fill_full hfill
    obtain ⟨hbody, rfl⟩ := ReadResult.ok.inj h
    obtain ⟨-, rfl⟩ := Prod.mk.inj hbody
    -- the empty line found lies behind the two bytes, in what follows the message
    obtain ⟨i, hi⟩ := Option.isSome_iff_exists.mp henough
    have hend : i + 4 ≤ buf.length := findSub_length_le (by decide) hi
    have htotal := congrArg List.length hbytes
    have htaken := congrArg List.length hleft
    simp only [Stream.bytes, hi, Option.getD_some, List.length_append, List.length_drop] at *
    simp only [crlf, List.length_cons, List.length_nil] at hlen
    omega
  · cases ending with
    | waiting => exact absurd h (by simp [ReadResult.atEnd])
    | failed => exact absurd h (by simp [ReadResult.atEnd])
    | closed =>
      obtain ⟨hbody, rfl⟩ := ReadResult.ok.inj h
      obtain ⟨-, rfl⟩ := Prod.mk.inj hbody
      exact ⟨hleft.symm, rfl⟩

/-- A connection that is closed before the end of the message ends it. -/
theorem finishChunks_closed {w body : List UInt8} (hw : w ++ packetBytes reads = crlf)
    (hlt : 0 < (packetBytes reads).length) :
    finishChunks w body ⟨reads, .closed⟩ = .ok (body, []) ⟨[], .closed⟩ := by
  have hlen := congrArg List.length hw
  rw [List.length_append] at hlen
  have hnot : ¬ crlf.isPrefixOf w = true := by
    rw [List.isPrefixOf_iff_prefix]
    intro hprefix
    have hle := hprefix.length_le
    omega
  rw [finishChunks, if_neg hnot]
  split
  · rename_i buf s hfill
    obtain ⟨henough, hbytes⟩ := Stream.fill_full hfill
    obtain ⟨i, hi⟩ := Option.isSome_iff_exists.mp henough
    have hend : i + 4 ≤ buf.length := findSub_length_le (by decide) hi
    have htotal := congrArg List.length hbytes
    simp only [Stream.bytes, List.length_append, crlf, List.length_cons, List.length_nil] at *
    omega
  · rfl

end Last

/-! ## Every cut -/

/-- However the connection goes on afterwards, the decoder returns the body of
the message and leaves `t`, and it has taken no read while at most `t` was
unread. -/
def DecodesInTime (m : ChunkedMessage) (t buffered : List UInt8) (reads : List Packet) : Prop :=
  ∀ ending, ∃ leftover reads',
    readChunkedBody ⟨reads, ending⟩ buffered = .ok (m.body, leftover) ⟨reads', ending⟩ ∧
      leftover ++ packetBytes reads' = t ∧ Stream.Needed t.length reads reads'

/-- At some moment all of the message but its last byte, or but its last two, has
arrived, and nothing behind it. -/
def CutBeforeEnd (t : List UInt8) (reads : List Packet) : Prop :=
  ∃ unread, unread <:+ reads ∧
    ((packetBytes unread).length = t.length + 1 ∨ (packetBytes unread).length = t.length + 2)

instance (t : List UInt8) (reads : List Packet) : Decidable (CutBeforeEnd t reads) :=
  decidable_of_iff (∃ unread ∈ reads.tails, (packetBytes unread).length = t.length + 1 ∨
    (packetBytes unread).length = t.length + 2) (by simp [CutBeforeEnd])

section Cuts

variable {m : CodedMessage} {t buffered : List UInt8}

theorem utf8_lines_iff : (∀ line ∈ m.lines, isUtf8 line = true) ↔
    (∀ c ∈ m.chunks, isUtf8 c.line = true) ∧ isUtf8 m.lastLine = true := by
  rw [CodedMessage.lines, List.forall_mem_append, List.forall_mem_map, List.forall_mem_singleton]

/-- A message that is text is decoded in time if it has trailers, or if its last two
bytes are not cut off. -/
theorem readChunkedBody_inTime {reads : List Packet}
    (hlen : ∀ c ∈ m.chunks, c.data.length < 2 ^ 63)
    (h : buffered ++ packetBytes reads = m.bytes ++ t)
    (hutf : ∀ line ∈ m.lines, isUtf8 line = true)
    (hend : m.tail ≠ crlf ∨ ¬ CutBeforeEnd t reads) (ending : StreamEnd) :
    ∃ leftover reads',
      readChunkedBody ⟨reads, ending⟩ buffered = .ok (m.body, leftover) ⟨reads', ending⟩ ∧
        leftover ++ packetBytes reads' = t ∧ Stream.Needed t.length reads reads' := by
  obtain ⟨hchunks, hlastLine⟩ := utf8_lines_iff.mp hutf
  obtain ⟨w, reads₁, hw, hneeded₁, hlast⟩ := readChunkedBody_last hlen hchunks h ending
  rw [if_pos hlastLine] at hlast
  by_cases htail : m.tail = crlf
  · have hcut := hend.resolve_left (not_not.mpr htail)
    rw [htail] at hw hneeded₁
    have hlen : (crlf ++ t).length = t.length + 2 := by simp [crlf]
    have htotal := congrArg List.length hw
    rw [hlen, List.length_append] at htotal
    have hbuffered : (packetBytes reads₁).length ≤ t.length := by
      by_contra hlt
      exact hcut ⟨reads₁, hneeded₁.suffix, by omega⟩
    obtain ⟨leftover, hfinish, hleft⟩ := finishChunks_buffered hw hbuffered
    refine ⟨leftover, reads₁, hlast.trans hfinish, hleft, hneeded₁.suffix, ?_⟩
    intro r hr
    have hneed := hneeded₁.needed r hr
    omega
  · obtain ⟨leftover, reads', hfinish, hleft, hneeded⟩ := finishChunks_trailers m.tail_end htail hw
    refine ⟨leftover, reads', hlast.trans hfinish, hleft, hneeded₁.trans hneeded ?_⟩
    rw [List.length_append]
    exact Nat.le_add_left ..

/-- The result is `body`, and what follows it on the connection is `t`. -/
def ReadResult.Leaves (r : ReadResult Body) (body t : List UInt8) : Prop :=
  ∃ leftover rest, r = .ok (body, leftover) rest ∧ leftover ++ rest.bytes = t

/-- A message that is text is decoded whatever the cut if nothing follows it and the
connection is closed. -/
theorem leaves_readChunkedBody_closed {reads : List Packet}
    (hlen : ∀ c ∈ m.chunks, c.data.length < 2 ^ 63)
    (h : buffered ++ packetBytes reads = m.bytes ++ [])
    (hutf : ∀ line ∈ m.lines, isUtf8 line = true) (htail : m.tail = crlf)
    (hcut : CutBeforeEnd [] reads) :
    (readChunkedBody ⟨reads, .closed⟩ buffered).Leaves m.body [] := by
  obtain ⟨hchunks, hlastLine⟩ := utf8_lines_iff.mp hutf
  obtain ⟨w, reads₁, hw, hneeded₁, hlast⟩ := readChunkedBody_last hlen hchunks h .closed
  rw [htail, List.append_nil] at hw hneeded₁
  rw [if_pos hlastLine] at hlast
  obtain ⟨unread, hsuffix, hunread⟩ := hcut
  rw [List.length_nil] at hunread
  have hcrlf : crlf.length = 2 := rfl
  have hle := hneeded₁.length_le hsuffix (by omega)
  exact ⟨[], ⟨[], .closed⟩, hlast.trans (finishChunks_closed hw (by omega)), rfl⟩

/-- **When a message in chunked coding is decoded**, whatever follows it and however
the bytes are cut into reads. -/
theorem leaves_readChunkedBody_iff (hlen : ∀ c ∈ m.chunks, c.data.length < 2 ^ 63) {s : Stream}
    (h : buffered ++ s.bytes = m.bytes ++ t) :
    (readChunkedBody s buffered).Leaves m.body t ↔
      (∀ line ∈ m.lines, isUtf8 line = true) ∧
        (m.tail ≠ crlf ∨ ¬ CutBeforeEnd t s.reads ∨ t = [] ∧ s.ending = .closed) := by
  obtain ⟨reads, ending⟩ := s
  constructor
  · rintro ⟨leftover, rest, hok, hleft⟩
    have hchunks := utf8_of_readChunkedBody hlen h hok
    obtain ⟨w, reads₁, hw, hneeded₁, hlast⟩ := readChunkedBody_last hlen hchunks h ending
    have hlastLine : isUtf8 m.lastLine = true := by
      by_contra hbad
      rw [hlast, if_neg hbad] at hok
      exact absurd hok (by simp)
    refine ⟨utf8_lines_iff.mpr ⟨hchunks, hlastLine⟩, ?_⟩
    by_cases htail : m.tail = crlf
    · refine .inr ?_
      by_cases hcut : CutBeforeEnd t reads
      · obtain ⟨unread, hsuffix, hunread⟩ := hcut
        rw [htail] at hw hneeded₁
        rw [hlast, if_pos hlastLine] at hok
        have hlen : (crlf ++ t).length = t.length + 2 := by simp [crlf]
        rw [hlen] at hneeded₁
        have hle := hneeded₁.length_le hsuffix (by omega)
        exact .inr (finishChunks_unbuffered hw (by omega) hok hleft)
      · exact .inl hcut
    · exact .inl htail
  · rintro ⟨hutf, hend⟩
    by_cases hinTime : m.tail ≠ crlf ∨ ¬ CutBeforeEnd t reads
    · obtain ⟨leftover, reads', hok, hleft, -⟩ := readChunkedBody_inTime hlen h hutf hinTime ending
      exact ⟨leftover, _, hok, hleft⟩
    · obtain ⟨htail, hcut⟩ := not_or.mp hinTime
      obtain ⟨rfl, rfl⟩ : t = [] ∧ ending = .closed := (hend.resolve_left htail).resolve_left hcut
      exact leaves_readChunkedBody_closed hlen h hutf (not_not.mp htail) (not_not.mp hcut)

end Cuts

/-- Of a message as `write_chunk` frames it, the size lines are text if the
extensions are. -/
theorem utf8_coded_lines_iff (m : ChunkedMessage) :
    (∀ line ∈ m.coded.lines, isUtf8 line = true) ↔ ∀ e ∈ m.exts, isUtf8 e = true := by
  have hline : ∀ n e, isUtf8 (formatRadix 16 n ++ e) = isUtf8 e := by
    intro n e
    exact isUtf8_append_of_ascii (fun b hb => (visible_hex n b hb).ascii) e
  simp [CodedMessage.lines, ChunkedMessage.coded, ChunkedMessage.exts, Chunk.coded, hline,
    or_imp, forall_and]

theorem coded_tail_iff (m : ChunkedMessage) : m.coded.tail ≠ crlf ↔ m.trailers ≠ [] := by
  apply not_congr
  show trailerBytes m.trailers ++ crlf = crlf ↔ _
  rw [List.append_left_eq_self]
  constructor
  · intro h
    cases hm : m.trailers with
    | nil => rfl
    | cons x trailers =>
      rw [hm, trailerBytes, List.flatMap_cons] at h
      exact absurd (List.append_eq_nil_iff.mp (List.append_eq_nil_iff.mp h).1).1 x.line_ne
  · intro h
    rw [h]
    rfl

/-- **When chunked decoding does not depend on the cut.**  For every message in
chunked coding, whatever follows it and however the bytes are cut into reads, the
decoder returns the body in time and leaves what follows exactly if all chunk
extensions are text and either the message has trailers or no cut separates its
last two bytes from what comes before them, or from each other. -/
theorem decodesInTime_iff (m : ChunkedMessage) (t buffered : List UInt8) (reads : List Packet)
    (h : buffered ++ packetBytes reads = m.bytes ++ t) :
    DecodesInTime m t buffered reads ↔
      (∀ e ∈ m.exts, isUtf8 e = true) ∧ (m.trailers ≠ [] ∨ ¬ CutBeforeEnd t reads) := by
  have hlen : ∀ c ∈ m.coded.chunks, c.data.length < 2 ^ 63 := by
    intro c hc
    obtain ⟨c, -, rfl⟩ := List.mem_map.mp hc
    exact c.data_lt
  rw [← m.coded_bytes] at h
  rw [← utf8_coded_lines_iff, ← coded_tail_iff]
  constructor
  · intro hdecodes
    obtain ⟨leftover, reads', hok, hleft, -⟩ := hdecodes .waiting
    have hleaves : (readChunkedBody ⟨reads, .waiting⟩ buffered).Leaves m.coded.body t :=
      ⟨leftover, ⟨reads', .waiting⟩, m.coded_body ▸ hok, hleft⟩
    obtain ⟨hutf, hend⟩ := (leaves_readChunkedBody_iff hlen h).mp hleaves
    exact ⟨hutf, hend.imp_right fun h => h.resolve_right (by simp)⟩
  · rintro ⟨hutf, hend⟩ ending
    obtain ⟨leftover, reads', hok, hrest⟩ := readChunkedBody_inTime hlen h hutf hend ending
    exact ⟨leftover, reads', m.coded_body ▸ hok, hrest⟩

/-! ## Two cuts of one message -/

/-- One chunk, `hello`. -/
def demoMessage : ChunkedMessage := .single (utf8 "hello") (by decide +kernel) (by decide +kernel)

/-- A request that is sent right behind the message. -/
def demoPipelined : List UInt8 := utf8 "GET / HTTP/1.1\r\n\r\n"

/-- Cut inside the data, the message is decoded in time. -/
theorem demo_decoded : DecodesInTime demoMessage demoPipelined (utf8 "5\r\nhel")
    [⟨utf8 "lo\r\n0\r\n\r\nGET / HTTP/1.1\r\n\r\n", by decide +kernel⟩] :=
  (decodesInTime_iff _ _ _ _ (by decide +kernel)).mpr
    ⟨by decide +kernel, .inr (by decide +kernel)⟩

/-- **Cut before its last two bytes, the message takes the next request with it.**
The decoder finds the body, but drops the request behind the message as if it
were a trailer. -/
theorem demo_pipelined_lost :
    utf8 "5\r\nhello\r\n0\r\n" ++ packetBytes
        [⟨utf8 "\r\nGET / HTTP/1.1\r\n\r\n", by decide +kernel⟩] =
      demoMessage.bytes ++ demoPipelined ∧
    readChunkedBody ⟨[⟨utf8 "\r\nGET / HTTP/1.1\r\n\r\n", by decide +kernel⟩], .waiting⟩
        (utf8 "5\r\nhello\r\n0\r\n") = .ok (demoMessage.body, []) ⟨[], .waiting⟩ ∧
    ¬ DecodesInTime demoMessage demoPipelined (utf8 "5\r\nhello\r\n0\r\n")
        [⟨utf8 "\r\nGET / HTTP/1.1\r\n\r\n", by decide +kernel⟩] := by
  have hrun : readChunkedBody
      ⟨[⟨utf8 "\r\nGET / HTTP/1.1\r\n\r\n", by decide +kernel⟩], .waiting⟩
      (utf8 "5\r\nhello\r\n0\r\n") = .ok (demoMessage.body, []) ⟨[], .waiting⟩ := by
    decide +kernel
  refine ⟨by decide +kernel, hrun, ?_⟩
  intro hdecodes
  obtain ⟨leftover, reads', hok, hleft, -⟩ := hdecodes .waiting
  rw [hrun] at hok
  obtain ⟨hbody, hstream⟩ := ReadResult.ok.inj hok
  obtain ⟨-, rfl⟩ := Prod.mk.inj hbody
  obtain ⟨rfl, -⟩ := Stream.mk.inj hstream
  exact absurd hleft (by decide +kernel)

end PpcaNetwork.Minicaddy
