import PpcaNetwork.Minicaddy.ChunkedBody

/-!
# Malformed chunked bodies

What `read_chunked_body` makes of bytes that are not in chunked coding.

* `Checked.readChunkedBody` — the decoder with an addition that panics.
* `walk` — the way through the bytes that the announced sizes prescribe, whatever the cut
  between the reads.
* `EndFound` and `EndsRight` — behind the zero chunk, an end is found, and it is the right
  one.
* `rejectsMalformed_iff` — when the decoder accepts nothing but chunked coding, and does
  not panic.
-/

namespace PpcaNetwork.Minicaddy

open Http1

/-! ## The addition -/

namespace Checked

/-- The data of a chunk, where `size + 2` must not overflow. -/
def chunkData (size : Nat) (st : ChunkState) : Round ChunkState (ReadResult Body) :=
  if 2 ^ 64 ≤ size + 2 then .done .panic else Minicaddy.chunkData size st

/-- One round of the loop of `read_chunked_body`. -/
def chunkRound (st : ChunkState) : Round ChunkState (ReadResult Body) :=
  match st.stream.fill (containsSub crlf) st.buf with
  | .full buf s =>
    let lineEnd := (findSub crlf buf).getD 0
    match chunkSize (buf.take lineEnd) with
    | .error e => .done (.error e)
    | .ok size =>
      let buf := buf.drop (lineEnd + 2)
      if size = 0 then .done (finishChunks buf st.body s)
      else chunkData size ⟨buf, st.body, s⟩
  | .ended _ => .done (.atEnd truncated st.stream.ending)

/-- `read_chunked_body`, with overflow checks. -/
def readChunkedBody (s : Stream) (buffered : List UInt8) : ReadResult Body :=
  Loop.bounded chunkRound (fun _ => .waiting) (buffered.length + s.bytes.length + 1)
    ⟨buffered, [], s⟩

theorem chunkRound_eq (st : ChunkState) :
    chunkRound st = .done .panic ∨ chunkRound st = Minicaddy.chunkRound st := by
  unfold chunkRound Minicaddy.chunkRound
  cases st.stream.fill (containsSub crlf) st.buf with
  | ended buf => exact .inr rfl
  | full buf s =>
    dsimp only
    cases chunkSize (buf.take ((findSub crlf buf).getD 0)) with
    | error e => exact .inr rfl
    | ok size =>
      dsimp only
      by_cases hzero : size = 0
      · rw [if_pos hzero, if_pos hzero]
        exact .inr rfl
      · rw [if_neg hzero, if_neg hzero, chunkData]
        split
        · exact .inl rfl
        · exact .inr rfl

/-- Overflow checks change nothing but that the code may panic. -/
theorem readChunkedBody_eq (s : Stream) (buffered : List UInt8) :
    readChunkedBody s buffered = .panic ∨
      readChunkedBody s buffered = Minicaddy.readChunkedBody s buffered := by
  have hbounded : ∀ n st, Loop.bounded chunkRound (fun _ => .waiting) n st = .panic ∨
      Loop.bounded chunkRound (fun _ => .waiting) n st =
        Loop.bounded Minicaddy.chunkRound (fun _ => .waiting) n st := by
    intro n
    induction n with
    | zero => exact fun st => .inr rfl
    | succ n ih =>
      intro st
      rw [Loop.bounded, Loop.bounded]
      rcases chunkRound_eq st with h | h
      · rw [h]
        exact .inl rfl
      · rw [h]
        cases Minicaddy.chunkRound st with
        | done result => exact .inr rfl
        | next st' => exact ih st'
  exact hbounded _ _

theorem readChunkedBody_of_ne_panic {s : Stream} {buffered : List UInt8} {r : ReadResult Body}
    (h : readChunkedBody s buffered = r) (hr : r ≠ .panic) :
    Minicaddy.readChunkedBody s buffered = r := by
  rcases readChunkedBody_eq s buffered with hpanic | heq
  · exact absurd (h.symm.trans hpanic) hr
  · exact heq.symm.trans h

end Checked

/-! ## The way through the bytes -/

/-- Where the announced sizes lead. -/
inductive Walk where
  /-- A line is missing or announces no size, or data is missing. -/
  | stops
  /-- A size to which 2 cannot be added. -/
  | overflows
  /-- The zero chunk, with what stands behind its line; up to there the bytes are in chunked
  coding or not. -/
  | ends (coded : Bool) (tail : List UInt8)

/-- What comes before is in chunked coding, or not. -/
def Walk.after (coded : Bool) : Walk → Walk
  | .ends coded' tail => .ends (coded && coded') tail
  | w => w

theorem Walk.exists_of_after {coded coded' : Bool} {w : Walk} {tail : List UInt8}
    (h : w.after coded = .ends coded' tail) :
    ∃ coded'', w = .ends coded'' tail ∧ coded' = (coded && coded'') := by
  cases w with
  | stops => exact absurd h (by simp [Walk.after])
  | overflows => exact absurd h (by simp [Walk.after])
  | ends coded'' tail' =>
    obtain ⟨hcoded, rfl⟩ := Walk.ends.inj h
    exact ⟨coded'', rfl, hcoded.symm⟩

/-- The way through at most `fuel - 1` chunks. -/
def walkChunks : (fuel : Nat) → List UInt8 → Walk
  | 0, _ => .stops
  | fuel + 1, s =>
    match takeLine s with
    | none => .stops
    | some (line, s) =>
      match chunkSize line with
      | .error _ => .stops
      | .ok size =>
        if size = 0 then .ends (sizeOfLine line).isSome s
        else if 2 ^ 64 ≤ size + 2 then .overflows
        else if s.length < size + 2 then .stops
        else
          (walkChunks fuel (s.drop (size + 2))).after
            ((sizeOfLine line).isSome && (s.drop size).take 2 = crlf)

/-- The way through the bytes.  A chunk has at least one byte, so there is fuel enough. -/
def walk (s : List UInt8) : Walk := walkChunks (s.length + 1) s

/-- The bytes behind the line of the zero chunk start with the empty line, and it has been
buffered together with that line. -/
def EmptyLineBuffered (tail : List UInt8) (s : Stream) : Prop :=
  crlf <+: tail ∧ ¬ CutBeforeEnd (tail.drop 2) s.reads

/-- Behind the line of the zero chunk an end of the body is found. -/
def EndFound (tail : List UInt8) (s : Stream) : Prop :=
  EmptyLineBuffered tail s ∨ containsSub crlfcrlf tail = true ∨ s.ending = .closed

/-- What is found is where the trailers and the empty line end. -/
def EndsRight (tail : List UInt8) (s : Stream) : Prop :=
  EmptyLineBuffered tail s ∨ (¬ crlf <+: tail ∧ containsSub crlfcrlf tail = true) ∨ tail = crlf

/-- The decoder does not panic, returns if the connection ends, and what it takes for a body is
in chunked coding. -/
structure RejectsMalformed (s : Stream) (buffered : List UInt8) : Prop where
  safe : Checked.readChunkedBody s buffered ≠ .panic
  returns : s.ending ≠ .waiting →
    (∃ body rest, readChunkedBody s buffered = .ok body rest) ∨
      ∃ e, readChunkedBody s buffered = .error e
  framed : ∀ body leftover rest, readChunkedBody s buffered = .ok (body, leftover) rest →
    ∃ m : CodedMessage, buffered ++ s.bytes = m.bytes ++ (leftover ++ rest.bytes)

/-! ## Sizes -/

/-- A line in the grammar announces the number in it. -/
theorem size_of_chunkSize {line : List UInt8} {n size : Nat} (h : sizeOfLine line = some n)
    (hsize : chunkSize line = .ok size) : n = size := by
  obtain ⟨hex, e, rfl, hne, hhex, hdigits, hext⟩ := exists_of_sizeOfLine h
  rw [chunkSize, trim_sizeLine hhex hne hext, parseUint, stripPlus_of_parseDigits hdigits,
    if_neg hne, hdigits] at hsize
  by_cases hn : n ≤ maxU64
  · split at hsize
    · simpa [Option.filter, hn] using hsize
    · exact absurd hsize (by simp)
  · split at hsize
    · simp [Option.filter, hn] at hsize
    · exact absurd hsize (by simp)

/-! ## What has been passed is in chunked coding -/

/-- The data of a chunk, the two bytes behind them, and the rest. -/
theorem chunk_parts {size : Nat} {s : List UInt8} (h : size + 2 ≤ s.length) :
    (s.take size).length = size ∧ ((s.drop size).take 2).length = 2 ∧
      s = s.take size ++ (s.drop size).take 2 ++ s.drop (size + 2) := by
  refine ⟨List.length_take_of_le (by omega), ?_, ?_⟩
  · rw [List.length_take, List.length_drop]
    omega
  · rw [List.append_assoc, ← List.drop_drop, List.take_append_drop, List.take_append_drop]

/-- The bytes up to the zero chunk, and which ends make a message of them. -/
theorem coded_of_walkChunks {fuel : Nat} {s tail : List UInt8} {coded : Bool}
    (h : walkChunks fuel s = .ends coded tail) :
    ∃ start, s = start ++ tail ∧ ∀ t, (∃ m : CodedMessage, m.bytes = start ++ t) ↔
      coded = true ∧ ∃ lines, headLines [] t = some (lines, []) := by
  induction fuel generalizing s coded with
  | zero => exact absurd h (by simp [walkChunks])
  | succ fuel ih =>
    rw [walkChunks] at h
    cases hline : takeLine s with
    | none =>
      rw [hline] at h
      exact absurd h (by simp)
    | some r =>
      obtain ⟨line, rest⟩ := r
      obtain ⟨rfl, hend⟩ := lineEnd_of_takeLine hline
      rw [hline] at h
      dsimp only at h
      cases hsize : chunkSize line with
      | error e =>
        rw [hsize] at h
        exact absurd h (by simp)
      | ok size =>
        have hagree : ∀ n, sizeOfLine line = some n → n = size :=
          fun n hn => size_of_chunkSize hn hsize
        rw [hsize] at h
        dsimp only at h
        split_ifs at h with hzero hover hshort
        · obtain ⟨rfl, rfl⟩ := Walk.ends.inj h
          subst hzero
          exact ⟨line ++ crlf, rfl, fun t => coded_last_iff hend hagree⟩
        · obtain ⟨coded', hwalk, rfl⟩ := Walk.exists_of_after h
          obtain ⟨start, hstart, hiff⟩ := ih hwalk
          obtain ⟨hdata, hsep, hrest⟩ := chunk_parts (Nat.le_of_not_lt hshort)
          rw [hstart] at hrest
          have hne : rest.take size ≠ [] := List.ne_nil_of_length_pos (by omega)
          refine ⟨line ++ crlf ++ (rest.take size ++ ((rest.drop size).take 2 ++ start)), ?_,
            fun t => ?_⟩
          · conv_lhs => rw [hrest]
            simp only [List.append_assoc]
          · have hchunk :=
              @coded_chunk_iff line _ _ (start ++ t) hend (hdata.symm ▸ hagree) hne hsep
            rw [hiff] at hchunk
            simp only [List.append_assoc] at hchunk ⊢
            rw [hchunk, Bool.and_eq_true, Bool.and_eq_true, decide_eq_true_eq]
            simp only [and_assoc]

/-! ## The rounds -/

/-- What an outcome of the decoder has to do with the way through the bytes. -/
def Follows (s : Stream) (r : ReadResult Body) : Walk → Prop
  | .stops => (∃ e, r = .error e) ∨ (r = .waiting ∧ s.ending = .waiting)
  | .overflows => r = .panic
  | .ends _ tail => ∃ w reads' body, r = finishChunks w body ⟨reads', s.ending⟩ ∧
      w ++ packetBytes reads' = tail ∧ Stream.Needed tail.length s.reads reads'

theorem follows_after {coded : Bool} {w : Walk} {s : Stream} {r : ReadResult Body} :
    Follows s r (w.after coded) ↔ Follows s r w := by
  cases w <;> exact Iff.rfl

/-- Where bytes are missing there is no body. -/
theorem follows_truncated (s : Stream) : Follows s (.atEnd truncated s.ending) .stops := by
  cases h : s.ending with
  | waiting => exact .inr ⟨rfl, h⟩
  | closed => exact .inl ⟨_, rfl⟩
  | failed => exact .inl ⟨_, rfl⟩

/-- Reads that have been taken already do not matter. -/
theorem Follows.of_needed {s : Stream} {reads : List Packet} {n : Nat} {r : ReadResult Body}
    {w : Walk} (h : Follows ⟨reads, s.ending⟩ r w) (hneeded : Stream.Needed n s.reads reads)
    (hn : ∀ coded tail, w = .ends coded tail → tail.length ≤ n) : Follows s r w := by
  cases w with
  | stops => exact h
  | overflows => exact h
  | ends coded tail =>
    obtain ⟨w, reads', body, hr, hw, hneeded'⟩ := h
    exact ⟨w, reads', body, hr, hw, hneeded.trans hneeded' (hn coded tail rfl)⟩

/-- A round on a line, whatever the cut. -/
theorem Checked.chunkRound_line {st : ChunkState} {line rest : List UInt8}
    (hend : findSub crlf (line ++ crlf) = some line.length)
    (h : st.buf ++ st.stream.bytes = line ++ crlf ++ rest) :
    ∃ w reads', w ++ packetBytes reads' = rest ∧
      Stream.Needed rest.length st.stream.reads reads' ∧
      Checked.chunkRound st =
        match chunkSize line with
        | .error e => .done (.error e)
        | .ok size =>
          if size = 0 then .done (finishChunks w st.body ⟨reads', st.stream.ending⟩)
          else Checked.chunkData size ⟨w, st.body, ⟨reads', st.stream.ending⟩⟩ := by
  obtain ⟨w, reads', hfill, hw, hneeded⟩ := fill_sizeLine hend h
  refine ⟨w, reads', hw, hneeded, ?_⟩
  unfold Checked.chunkRound
  rw [hfill]
  simp only [findSub_append_right hend, Option.getD_some, take_sizeLine, drop_sizeLine]

/-- Data that does not arrive is missed, whatever the cut. -/
theorem chunkData_missing {size : Nat} {st : ChunkState} (hover : size + 2 < 2 ^ 64)
    (h : (st.buf ++ st.stream.bytes).length < size + 2) :
    chunkData size st = .done (.atEnd truncated st.stream.ending) := by
  have hend : chunkEnd size = size + 2 := Nat.mod_eq_of_lt hover
  obtain ⟨buf, hfill⟩ : ∃ buf, st.stream.fill (fun buf => chunkEnd size ≤ buf.length) st.buf =
      .ended buf := by
    refine Stream.fill_ended fun b hb => decide_eq_false ?_
    have hle := hb.length_le
    omega
  rw [chunkData, hfill]

/-- Data that arrives with the two bytes behind it is taken, whatever the cut. -/
theorem chunkData_arrived {size : Nat} {st : ChunkState} {s : List UInt8}
    (hover : size + 2 < 2 ^ 64) (h : st.buf ++ st.stream.bytes = s) (hlen : size + 2 ≤ s.length) :
    ∃ w reads', chunkData size st =
        .next ⟨w, st.body ++ s.take size, ⟨reads', st.stream.ending⟩⟩ ∧
      w ++ packetBytes reads' = s.drop (size + 2) ∧
      Stream.Needed (s.drop (size + 2)).length st.stream.reads reads' := by
  obtain ⟨hsize, hsep, hs⟩ := chunk_parts hlen
  have hdata := chunkData_next (by omega) hsep (h.trans hs)
  rwa [hsize] at hdata

/-- A line that does not end is missed, whatever the cut. -/
theorem Checked.chunkRound_missing {st : ChunkState}
    (h : takeLine (st.buf ++ st.stream.bytes) = none) :
    Checked.chunkRound st = .done (.atEnd truncated st.stream.ending) := by
  rw [takeLine, Option.map_eq_none_iff] at h
  obtain ⟨buf, hfill⟩ := Stream.fill_missing h
  unfold Checked.chunkRound
  rw [hfill]

theorem length_tail_le {fuel : Nat} {s tail : List UInt8} {coded : Bool}
    (h : walkChunks fuel s = .ends coded tail) : tail.length ≤ s.length := by
  obtain ⟨start, rfl, -⟩ := coded_of_walkChunks h
  rw [List.length_append]
  exact Nat.le_add_left ..

/-- **The decoder goes the way through the bytes**, whatever the cut between the reads. -/
theorem Checked.bounded_walk {fuel : Nat} {st : ChunkState} {s : List UInt8}
    (h : st.buf ++ st.stream.bytes = s) (hfuel : s.length < fuel) :
    Follows st.stream (Loop.bounded Checked.chunkRound (fun _ => .waiting) fuel st)
      (walkChunks fuel s) := by
  induction fuel generalizing st s with
  | zero => exact absurd hfuel (Nat.not_lt_zero _)
  | succ fuel ih =>
    rw [Loop.bounded, walkChunks]
    cases hline : takeLine s with
    | none =>
      rw [Checked.chunkRound_missing (h ▸ hline)]
      exact follows_truncated _
    | some r =>
      obtain ⟨line, rest⟩ := r
      obtain ⟨rfl, hend⟩ := lineEnd_of_takeLine hline
      obtain ⟨w, reads', hw, hneeded, hround⟩ := Checked.chunkRound_line hend h
      rw [hround]
      dsimp only
      cases hsize : chunkSize line with
      | error e => exact .inl ⟨e, rfl⟩
      | ok size =>
        dsimp only
        by_cases hzero : size = 0
        · rw [if_pos hzero, if_pos hzero]
          exact ⟨w, reads', st.body, rfl, hw, hneeded⟩
        · rw [if_neg hzero, if_neg hzero]
          by_cases hover : 2 ^ 64 ≤ size + 2
          · rw [if_pos hover, Checked.chunkData, if_pos hover]
            exact rfl
          · rw [if_neg hover, Checked.chunkData, if_neg hover]
            by_cases hshort : rest.length < size + 2
            · rw [if_pos hshort, chunkData_missing (by omega) (hw.symm ▸ hshort)]
              exact follows_truncated _
            · rw [if_neg hshort, follows_after]
              obtain ⟨w', reads'', hdata, hw', hneeded'⟩ :=
                @chunkData_arrived _ ⟨w, st.body, ⟨reads', st.stream.ending⟩⟩ _ (by omega) hw
                  (Nat.le_of_not_lt hshort)
              rw [hdata]
              have hlen : (rest.drop (size + 2)).length ≤ rest.length := by
                rw [List.length_drop]
                exact Nat.sub_le ..
              have hfuel' : (rest.drop (size + 2)).length < fuel := by
                rw [List.length_drop]
                simp only [List.length_append] at hfuel
                omega
              have hfollows := @ih ⟨w', st.body ++ rest.take size, ⟨reads'', st.stream.ending⟩⟩ _
                hw' hfuel'
              exact hfollows.of_needed (hneeded.trans hneeded' hlen) fun coded tail hwalk =>
                length_tail_le hwalk

/-! ## Behind the zero chunk -/

/-- How the end is looked for, whatever the cut. -/
theorem finishChunks_cases {w body tail : List UInt8} {reads : List Packet} (ending : StreamEnd)
    (hw : w ++ packetBytes reads = tail) :
    (crlf <+: w ∧ ∃ leftover, finishChunks w body ⟨reads, ending⟩ =
          .ok (body, leftover) ⟨reads, ending⟩ ∧ tail = crlf ++ (leftover ++ packetBytes reads)) ∨
      (¬ crlf <+: w ∧ ∃ i leftover reads', findSub crlfcrlf tail = some i ∧
          finishChunks w body ⟨reads, ending⟩ = .ok (body, leftover) ⟨reads', ending⟩ ∧
          leftover ++ packetBytes reads' = tail.drop (i + 4)) ∨
      (¬ crlf <+: w ∧ findSub crlfcrlf tail = none ∧
        finishChunks w body ⟨reads, ending⟩ = .atEnd (.ok (body, []) ⟨[], ending⟩) ending) := by
  by_cases hcrlf : crlf <+: w
  · left
    obtain ⟨leftover, rfl⟩ := hcrlf
    refine ⟨List.prefix_append .., leftover, ?_, by rw [← hw, List.append_assoc]⟩
    rw [finishChunks, if_pos (List.isPrefixOf_iff_prefix.mpr (List.prefix_append ..))]
    rfl
  · right
    cases hfind : findSub crlfcrlf tail with
    | some i =>
      left
      have hlen : i + 4 ≤ tail.length := findSub_length_le (by decide) hfind
      obtain ⟨v, reads', hfinish, hv, -⟩ := finishChunks_found
        (findSub_take (by decide) hfind) (List.length_take_of_le hlen)
        (hw.trans (List.take_append_drop (i + 4) tail).symm) hcrlf
      exact ⟨hcrlf, i, v, reads', rfl, hfinish, hv⟩
    | none =>
      right
      rw [← hw] at hfind
      obtain ⟨buf, hfill⟩ := Stream.fill_missing (s := ⟨reads, ending⟩) hfind
      refine ⟨hcrlf, rfl, ?_⟩
      rw [finishChunks, if_neg (by rwa [List.isPrefixOf_iff_prefix]), hfill]

/-- The two bytes of the empty line are in the buffer with which the end is looked for. -/
theorem emptyLineBuffered_iff {w tail : List UInt8} {reads : List Packet} {s : Stream}
    (hw : w ++ packetBytes reads = tail) (hneeded : Stream.Needed tail.length s.reads reads) :
    EmptyLineBuffered tail s ↔ crlf <+: w := by
  have hlen := congrArg List.length hw
  rw [List.length_append] at hlen
  have htwo : crlf.length = 2 := rfl
  constructor
  · rintro ⟨hstarts, hcut⟩
    have hle := hstarts.length_le
    refine List.prefix_of_prefix_length_le hstarts ⟨_, hw⟩ ?_
    by_contra hshort
    refine hcut ⟨reads, hneeded.suffix, ?_⟩
    rw [List.length_drop]
    omega
  · intro hstarts
    have hle := hstarts.length_le
    refine ⟨hstarts.trans ⟨_, hw⟩, ?_⟩
    rintro ⟨unread, hsuffix, hunread⟩
    rw [List.length_drop] at hunread
    have hmore := hneeded.length_le hsuffix (by omega)
    omega

/-- The head of a message ends with the first CRLF CRLF only if it does not start with the
empty line. -/
theorem headLines_take_iff {tail : List UInt8} {i : Nat} (h : findSub crlfcrlf tail = some i) :
    (∃ lines, headLines [] (tail.take (i + 4)) = some (lines, [])) ↔ ¬ crlf <+: tail := by
  refine ⟨fun hlines hstarts => ?_, headLines_take_of_findSub h⟩
  have hlen : i + 4 ≤ tail.length := findSub_length_le (by decide) h
  have htake : (tail.take (i + 4)).length = i + 4 := List.length_take_of_le hlen
  have hstart : crlf <+: tail.take (i + 4) :=
    List.prefix_of_prefix_length_le hstarts (List.take_prefix _ _) (by rw [htake]; simp [crlf])
  rw [tail_eq_crlf hlines hstart] at htake
  simp [crlf] at htake

/-- Without CRLF CRLF only the empty line alone ends a message. -/
theorem headLines_iff_of_findSub_none {tail : List UInt8} (h : findSub crlfcrlf tail = none) :
    (∃ lines, headLines [] tail = some (lines, [])) ↔ tail = crlf := by
  constructor
  · rintro hlines
    by_cases hstart : crlf <+: tail
    · exact tail_eq_crlf hlines hstart
    · obtain ⟨i, hi, -⟩ := findSub_tail hlines hstart
      exact absurd (h.symm.trans hi) (by simp)
  · rintro rfl
    exact ⟨[], rfl⟩

/-! ## When malformed bodies are rejected -/

/-- What is returned is taken off the bytes; where it is no message, a malformed body has been
accepted. -/
theorem rejectsMalformed_of_ok {s rest : Stream} {buffered start t body leftover : List UInt8}
    (hresult : Checked.readChunkedBody s buffered = .ok (body, leftover) rest)
    (hbytes : buffered ++ s.bytes = start ++ t ++ (leftover ++ rest.bytes)) :
    RejectsMalformed s buffered ↔ ∃ m : CodedMessage, m.bytes = start ++ t := by
  have heq := Checked.readChunkedBody_of_ne_panic hresult (by simp)
  constructor
  · intro h
    obtain ⟨m, hm⟩ := h.framed body leftover rest heq
    rw [hbytes] at hm
    exact ⟨m, (List.append_cancel_right hm).symm⟩
  · rintro ⟨m, hm⟩
    refine ⟨by rw [hresult]; simp, fun _ => .inl ⟨_, _, heq⟩, fun body' leftover' rest' h => ?_⟩
    obtain ⟨hpair, rfl⟩ := ReadResult.ok.inj (heq.symm.trans h)
    obtain ⟨rfl, rfl⟩ := Prod.mk.inj hpair
    exact ⟨m, hm ▸ hbytes⟩

/-- An error rejects whatever there is, and so does waiting for more. -/
theorem rejectsMalformed_of_error {s : Stream} {buffered : List UInt8}
    (hresult : (∃ e, Checked.readChunkedBody s buffered = .error e) ∨
      (Checked.readChunkedBody s buffered = .waiting ∧ s.ending = .waiting)) :
    RejectsMalformed s buffered := by
  rcases hresult with ⟨e, he⟩ | ⟨hwaiting, hending⟩
  · have heq := Checked.readChunkedBody_of_ne_panic he (by simp)
    exact ⟨by rw [he]; simp, fun _ => .inr ⟨e, heq⟩,
      fun _ _ _ h => absurd (heq.symm.trans h) (by simp)⟩
  · have heq := Checked.readChunkedBody_of_ne_panic hwaiting (by simp)
    exact ⟨by rw [hwaiting]; simp, fun h => absurd hending h,
      fun _ _ _ h => absurd (heq.symm.trans h) (by simp)⟩

/-- Behind the zero chunk, the cases of `finishChunks`. -/
theorem rejectsMalformed_of_ends {s : Stream} {buffered start tail : List UInt8} {coded : Bool}
    (hbytes : buffered ++ s.bytes = start ++ tail)
    (hcoded : ∀ t, (∃ m : CodedMessage, m.bytes = start ++ t) ↔
      coded = true ∧ ∃ lines, headLines [] t = some (lines, []))
    (hfollows : Follows s (Checked.readChunkedBody s buffered) (.ends coded tail)) :
    RejectsMalformed s buffered ↔ (EndFound tail s → coded = true ∧ EndsRight tail s) := by
  obtain ⟨w, reads', body, hresult, hw, hneeded⟩ := hfollows
  have hempty := emptyLineBuffered_iff hw hneeded
  rcases finishChunks_cases s.ending hw with ⟨hcrlf, leftover, hfinish, htail⟩ |
    ⟨hcrlf, i, leftover, rest, hfind, hfinish, hrest⟩ | ⟨hcrlf, hfind, hfinish⟩
  · -- the empty line is buffered
    have hbuffered := hempty.mpr hcrlf
    have hsplit : buffered ++ s.bytes = start ++ crlf ++ (leftover ++ packetBytes reads') := by
      rw [hbytes, htail, List.append_assoc]
    rw [rejectsMalformed_of_ok (hresult.trans hfinish) hsplit, hcoded]
    have hend : ∃ lines, headLines [] crlf = some (lines, []) := ⟨[], rfl⟩
    simp [EndFound, EndsRight, hbuffered, hend]
  · -- CRLF CRLF is found
    have hnot := mt hempty.mp hcrlf
    have hne : tail ≠ crlf := by
      rintro rfl
      have hnone : findSub crlfcrlf crlf = none := by decide
      exact absurd (hnone.symm.trans hfind) (by simp)
    have hcontains : containsSub crlfcrlf tail = true := by rw [containsSub, hfind]; rfl
    have hsplit : buffered ++ s.bytes =
        start ++ tail.take (i + 4) ++ (leftover ++ packetBytes rest) := by
      rw [hbytes, hrest, List.append_assoc, List.take_append_drop]
    rw [rejectsMalformed_of_ok (hresult.trans hfinish) hsplit, hcoded, headLines_take_iff hfind]
    simp [EndFound, EndsRight, hnot, hne, hcontains]
  · have hnot := mt hempty.mp hcrlf
    have hcontains : containsSub crlfcrlf tail = false := by rw [containsSub, hfind]; rfl
    rw [hfinish] at hresult
    cases hending : s.ending with
    | closed =>
      -- everything up to the end of the connection is taken for trailers
      rw [hending] at hresult
      have hsplit : buffered ++ s.bytes = start ++ tail ++ ([] ++ packetBytes []) := by
        rw [hbytes, packetBytes_nil, List.append_nil, List.append_nil]
      rw [rejectsMalformed_of_ok hresult hsplit, hcoded, headLines_iff_of_findSub_none hfind]
      simp [EndFound, EndsRight, hnot, hcontains, hending]
    | waiting =>
      rw [hending] at hresult
      simp [EndFound, hnot, hcontains, hending,
        rejectsMalformed_of_error (.inr ⟨hresult, hending⟩)]
    | failed =>
      rw [hending] at hresult
      simp [EndFound, hnot, hcontains, hending, rejectsMalformed_of_error (.inl ⟨_, hresult⟩)]

/-- **When nothing but chunked coding is accepted**, and without a panic. -/
theorem rejectsMalformed_iff (s : Stream) (buffered : List UInt8) :
    RejectsMalformed s buffered ↔
      match walk (buffered ++ s.bytes) with
      | .stops => True
      | .overflows => False
      | .ends coded tail => EndFound tail s → coded = true ∧ EndsRight tail s := by
  have hfollows : Follows s (Checked.readChunkedBody s buffered) (walk (buffered ++ s.bytes)) := by
    have hlen : (buffered ++ s.bytes).length = buffered.length + s.bytes.length :=
      List.length_append ..
    rw [walk, hlen]
    exact @Checked.bounded_walk _ ⟨buffered, [], s⟩ _ rfl (by rw [hlen]; omega)
  cases hwalk : walk (buffered ++ s.bytes) with
  | stops =>
    rw [hwalk] at hfollows
    simp [rejectsMalformed_of_error hfollows]
  | overflows =>
    rw [hwalk] at hfollows
    exact ⟨fun h => h.safe hfollows, False.elim⟩
  | ends coded tail =>
    rw [hwalk] at hfollows
    obtain ⟨start, hbytes, hcoded⟩ := coded_of_walkChunks hwalk
    exact rejectsMalformed_of_ends hbytes hcoded hfollows

/-- **Any two bytes pass for the end of a chunk**, and the largest size panics. -/
theorem demo_malformed_accepted :
    readChunkedBody ⟨[], .closed⟩ (utf8 "5\r\nhelloXX0\r\n\r\n") =
        .ok (utf8 "hello", []) ⟨[], .closed⟩ ∧
      ¬ RejectsMalformed ⟨[], .closed⟩ (utf8 "5\r\nhelloXX0\r\n\r\n") ∧
      readChunkedBody ⟨[], .closed⟩ (utf8 "ffffffffffffffff\r\nab") = .panic := by
  have hok : readChunkedBody ⟨[], .closed⟩ (utf8 "5\r\nhelloXX0\r\n\r\n") =
      .ok (utf8 "hello", []) ⟨[], .closed⟩ := by decide +kernel
  refine ⟨hok, fun h => ?_, by decide +kernel⟩
  obtain ⟨m, hm⟩ := h.framed _ _ _ hok
  have hdecode := decodeChunked_coded m []
  have hnone : decodeChunked (utf8 "5\r\nhelloXX0\r\n\r\n") = none := by decide +kernel
  simp only [Stream.bytes, packetBytes_nil, List.append_nil] at hm hdecode
  rw [← hm, hnone] at hdecode
  exact absurd hdecode (by simp)

end PpcaNetwork.Minicaddy
