import PpcaNetwork.Minicaddy.ChunkedBody

/-!
# The framing of request bodies

`read_body` decides from the first field of a name, compares its value as a whole, and
takes a length that is no number for 0.  A recipient of HTTP/1.1 looks at all fields and
rejects what they leave open.

* `ReadsAsFramed` — the body that is read is the one that the fields define, and fields
  that define none are rejected.
* `FramedPlainly` — the fields, and what follows them, for which that holds.
* `readsAsFramed_iff` — it holds for nothing else.
-/

namespace PpcaNetwork.Minicaddy

open Http1

/-! ## The first field of a name -/

theorem getHeader_eq (headers : List Header) (name : Text) :
    getHeader headers name = (fieldValues headers name).head?.filter isUtf8 := by
  have hhead : (fieldValues headers name).head? =
      (headers.find? fun h => SameText h.name name).map Field.value := by
    rw [fieldValues, List.head?_map, List.head?_filter]
  rw [getHeader, hhead]
  cases headers.find? fun h => SameText h.name name with
  | none => rfl
  | some h =>
    rw [Option.map_some, Option.filter_some]

/-- The first `Transfer-Encoding` is `chunked`, and nothing else. -/
def StatesChunked (headers : List Header) : Prop :=
  ∃ v, (fieldValues headers (utf8 "Transfer-Encoding")).head? = some v ∧
    SameText v (utf8 "chunked")

/-- The first `Content-Length` is the number `n`, which is a `usize`; or there is no body. -/
def StatesLength (headers : List Header) (n : Nat) : Prop :=
  n = 0 ∨ n ≤ maxU64 ∧ ∃ v, (fieldValues headers (utf8 "Content-Length")).head? = some v ∧
    parseNumber v = some n

theorem isChunked_iff (headers : List Header) :
    isChunked headers = true ↔ StatesChunked headers := by
  rw [isChunked, getHeader_eq, StatesChunked]
  cases (fieldValues headers (utf8 "Transfer-Encoding")).head? with
  | none => simp
  | some v =>
    have hutf : SameText v (utf8 "chunked") → isUtf8 v = true := by
      intro h
      exact isUtf8_of_sameText h (by decide +kernel)
    by_cases h : isUtf8 v = true
    · simp [Option.filter_some, h]
    · have hnot : ¬ SameText v (utf8 "chunked") := fun hc => h (hutf hc)
      simp [Option.filter_some, h, hnot]

/-! ## The announced length -/

section Length

variable {headers : List Header} {n : Nat}

/-- A single number in a valid `Content-Length` is the length. -/
theorem eq_of_parseUint (h : contentLength headers = .length n) {v : List UInt8} {k : Nat}
    (hv : v ∈ fieldValues headers (utf8 "Content-Length"))
    (hk : parseUint 10 maxU64 v = some k) : k = n ∧ parseNumber v = some n := by
  unfold parseUint at hk
  split at hk
  · exact absurd hk (by simp)
  · rename_i hne
    have hdigits : parseDigits 10 0 (stripPlus v) = some k := (Option.filter_eq_some_iff.mp hk).1
    have hdigit := exists_digitValue_of_parseDigits hdigits
    have hplus : ∀ b ∈ v, b = 0x2B ∨ b ∈ stripPlus v := by
      intro b hb
      cases v with
      | nil => exact absurd hb (by simp)
      | cons c v =>
        by_cases hc : c = 0x2B
        · subst hc
          exact List.mem_cons.mp hb
        · rw [stripPlus, if_neg hc]
          exact .inr hb
    have hvisible : ∀ b ∈ v, IsVisible b ∧ b ≠ 0x2C := by
      intro b hb
      rcases hplus b hb with rfl | hb
      · exact ⟨by decide, by decide⟩
      · obtain ⟨d, hd⟩ := hdigit b hb
        obtain ⟨hvis, hge⟩ := visible_of_digitValue hd
        refine ⟨hvis, ?_⟩
        rintro rfl
        exact absurd hge (by decide)
    have hmember := mem_listMembers hv (by rintro rfl; exact hne rfl)
      (fun b hb => (hvisible b hb).1)
      (fun hmem => (hvisible _ hmem).2 rfl)
    have hnumber := parseNumber_of_contentLength h v hmember
    refine ⟨?_, hnumber⟩
    -- a number of `Content-Length` has no sign, so both read the same digits
    rw [parseNumber] at hnumber
    split at hnumber
    · exact absurd hnumber (by simp)
    · rw [stripPlus_of_parseDigits hnumber, hnumber] at hdigits
      exact (Option.some.inj hdigits).symm

theorem bodyLength_eq (headers : List Header) :
    bodyLength headers =
      (((fieldValues headers (utf8 "Content-Length")).head?.filter isUtf8).bind
        (parseUint 10 maxU64)).getD 0 := by
  rw [bodyLength, getHeader_eq]

/-- A number is read as it is. -/
theorem bodyLength_of_number {v : List UInt8}
    (hv : (fieldValues headers (utf8 "Content-Length")).head? = some v)
    (h : parseNumber v = some n) (hn : n ≤ maxU64) : bodyLength headers = n := by
  rw [parseNumber] at h
  split at h
  · exact absurd h (by simp)
  · rename_i hne
    have hutf : isUtf8 v = true := by
      refine isUtf8_of_ascii ?_
      intro b hb
      obtain ⟨d, hd⟩ := exists_digitValue_of_parseDigits h b hb
      exact IsVisible.ascii (visible_of_digitValue hd).1
    rw [bodyLength_eq, hv, Option.filter_some_pos hutf, Option.bind_some,
      parseUint_of_parseDigits hne h hn]
    rfl

/-- Where `Content-Length` is valid, it is read as the length or as 0. -/
theorem bodyLength_of_contentLength (h : contentLength headers = .length n) :
    bodyLength headers = n ∧ StatesLength headers n ∨
      bodyLength headers = 0 ∧ ¬ StatesLength headers n := by
  by_cases hzero : bodyLength headers = 0
  · by_cases hstates : StatesLength headers n
    · refine .inl ⟨?_, hstates⟩
      rcases hstates with rfl | ⟨hn, v, hv, hnumber⟩
      · exact hzero
      · exact bodyLength_of_number hv hnumber hn
    · exact .inr ⟨hzero, hstates⟩
  · left
    rw [bodyLength_eq] at hzero ⊢
    cases hparse : ((fieldValues headers (utf8 "Content-Length")).head?.filter isUtf8).bind
        (parseUint 10 maxU64) with
    | none =>
      rw [hparse] at hzero
      exact absurd rfl hzero
    | some k =>
      obtain ⟨v, hv, hk⟩ := Option.bind_eq_some_iff.mp hparse
      obtain ⟨hfirst, -⟩ := Option.filter_eq_some_iff.mp hv
      obtain ⟨rfl, hnumber⟩ := eq_of_parseUint h (List.mem_of_head? hfirst) hk
      exact ⟨rfl, .inr ⟨parseUint_le hk, v, hfirst, hnumber⟩⟩

/-- Where the fields define a length, it is read as that or as 0. -/
theorem bodyLength_of_rule (h : requestRule headers = .length n) :
    isChunked headers = false ∧ (bodyLength headers = n ∧ StatesLength headers n ∨
      bodyLength headers = 0 ∧ ¬ StatesLength headers n) := by
  unfold requestRule at h
  split at h
  · split at h <;> exact absurd h (by simp)
  · rename_i hcoding
    refine ⟨?_, ?_⟩
    · rw [← Bool.not_eq_true, isChunked_iff]
      rintro ⟨v, hv, -⟩
      rw [not_not.mp hcoding] at hv
      exact absurd hv (by simp)
    · split at h
      · rename_i habsent
        obtain rfl := BodyRule.length.inj h
        refine .inl ⟨?_, .inl rfl⟩
        unfold contentLength at habsent
        split at habsent
        · rename_i hnone
          rw [bodyLength_eq, hnone]
          rfl
        · split at habsent
          · split at habsent <;> exact absurd habsent (by simp)
          · exact absurd habsent (by simp)
      · exact absurd h (by simp)
      · rename_i hlength
        obtain rfl := BodyRule.length.inj h
        exact bodyLength_of_contentLength hlength

end Length

/-! ## Reading a body of announced length -/

section Read

variable {headers : List Header} {buffered : List UInt8} {s : Stream}

/-- A body of the announced length is read, whatever the cut. -/
theorem readBody_of_length (hchunked : isChunked headers = false) {body t : List UInt8}
    (hlen : body.length = bodyLength headers) (h : buffered ++ s.bytes = body ++ t) :
    ∃ leftover reads', readBody s buffered headers = .ok (body, leftover) ⟨reads', s.ending⟩ ∧
      leftover ++ packetBytes reads' = t ∧ Stream.Needed t.length s.reads reads' := by
  rw [readBody, hchunked, if_neg (by simp)]
  by_cases hzero : bodyLength headers = 0
  · obtain rfl : body = [] := List.length_eq_zero_iff.mp (hlen.trans hzero)
    rw [if_pos hzero]
    exact ⟨buffered, s.reads, rfl, h, Stream.Needed.refl _ _⟩
  · rw [if_neg hzero]
    have henough : ∀ b, b <+: body ++ t →
        (decide (bodyLength headers ≤ b.length) = true ↔ body.length ≤ b.length) := by
      intro b _
      rw [decide_eq_true_eq, hlen]
    obtain ⟨w, reads', hfill, hw, hneeded⟩ := Stream.fill_of_threshold h henough
    refine ⟨w, reads', ?_, hw, hneeded⟩
    rw [hfill]
    simp only [List.take_left' hlen, List.drop_left' hlen]

/-- A body that does not arrive is not returned. -/
theorem readBody_ne_ok (hchunked : isChunked headers = false)
    (hlt : (buffered ++ s.bytes).length < bodyLength headers) (b : Body) (rest : Stream) :
    readBody s buffered headers ≠ .ok b rest := by
  rw [readBody, hchunked, if_neg (by simp), if_neg (by omega)]
  cases hfill : s.fill (fun buf => bodyLength headers ≤ buf.length) buffered with
  | full buf s' =>
    obtain ⟨hfull, hbytes⟩ := Stream.fill_full hfill
    have hle : bodyLength headers ≤ buf.length := of_decide_eq_true hfull
    have htotal := congrArg List.length hbytes
    rw [List.length_append] at htotal
    omega
  | ended buf =>
    cases hend : s.ending with
    | waiting => simp [ReadResult.atEnd]
    | closed => simp [ReadResult.atEnd]
    | failed => simp [ReadResult.atEnd]

/-- What is read has the length that the first field announces, and nothing is lost. -/
theorem append_of_leaves (hchunked : isChunked headers = false) {body t : List UInt8}
    (h : (readBody s buffered headers).Leaves body t) :
    body.length = bodyLength headers ∧ body ++ t = buffered ++ s.bytes := by
  obtain ⟨leftover, rest, hok, hleft⟩ := h
  by_cases hle : bodyLength headers ≤ (buffered ++ s.bytes).length
  · obtain ⟨leftover', reads', hok', hleft', -⟩ := readBody_of_length hchunked
      (List.length_take_of_le hle) (List.take_append_drop ..).symm
    rw [hok'] at hok
    obtain ⟨hbody, hrest⟩ := ReadResult.ok.inj hok
    obtain ⟨rfl, rfl⟩ := Prod.mk.inj hbody
    obtain rfl : t = (buffered ++ s.bytes).drop (bodyLength headers) := by
      rw [← hleft, ← hrest]
      exact hleft'
    exact ⟨List.length_take_of_le hle, List.take_append_drop ..⟩
  · exact absurd hok (readBody_ne_ok hchunked (by omega) _ _)

end Read

/-! ## The framing that the fields define -/

/-- **The body that HTTP/1.1 defines**: the one of the defined length is returned, the
bytes behind it are left, and none is returned before it has arrived; a chunked one is
decoded, and the bytes behind it are left; and where the fields define no framing, there
is an error whatever follows. -/
def ReadsAsFramed (headers : List Header) (buffered : List UInt8) (s : Stream) : Prop :=
  match requestRule headers with
  | .length n =>
    if n ≤ (buffered ++ s.bytes).length then
      (readBody s buffered headers).Leaves ((buffered ++ s.bytes).take n)
        ((buffered ++ s.bytes).drop n)
    else ∀ b rest, readBody s buffered headers ≠ .ok b rest
  | .chunked => ∀ body t, decodeChunked (buffered ++ s.bytes) = some (body, t) →
    (readBody s buffered headers).Leaves body t
  | _ => ∀ buffered s, ∃ e, readBody s buffered headers = .error e

/-- **Fields that leave no choice**: the length is what the first `Content-Length` alone
says; or the first `Transfer-Encoding` is `chunked` alone, and what follows is a message
that is decoded whatever the cut. -/
def FramedPlainly (headers : List Header) (buffered : List UInt8) (s : Stream) : Prop :=
  match requestRule headers with
  | .length n => StatesLength headers n
  | .chunked => ∀ (m : CodedMessage) t, buffered ++ s.bytes = m.bytes ++ t →
    StatesChunked headers ∧ (∀ line ∈ m.lines, isUtf8 line = true) ∧
      (m.tail ≠ crlf ∨ ¬ CutBeforeEnd t s.reads ∨ t = [] ∧ s.ending = .closed)
  | _ => False

section Framed

variable {headers : List Header} {buffered : List UInt8} {s : Stream}

theorem readsLength_iff {n : Nat} (h : requestRule headers = .length n) :
    (if n ≤ (buffered ++ s.bytes).length then
        (readBody s buffered headers).Leaves ((buffered ++ s.bytes).take n)
          ((buffered ++ s.bytes).drop n)
      else ∀ b rest, readBody s buffered headers ≠ .ok b rest) ↔ StatesLength headers n := by
  obtain ⟨hchunked, hlength⟩ := bodyLength_of_rule h
  rcases hlength with ⟨rfl, hstates⟩ | ⟨hzero, hstates⟩
  · refine iff_of_true ?_ hstates
    split
    · rename_i hle
      obtain ⟨leftover, reads', hok, hleft, -⟩ := readBody_of_length hchunked
        (List.length_take_of_le hle) (List.take_append_drop ..).symm
      exact ⟨leftover, _, hok, hleft⟩
    · rename_i hlt
      exact readBody_ne_ok hchunked (by omega)
  · -- the length is read as 0, so an empty body is returned at once
    have hpos : n ≠ 0 := fun h0 => hstates (.inl h0)
    refine iff_of_false ?_ hstates
    split
    · rename_i hle
      intro hleaves
      have hlen := (append_of_leaves hchunked hleaves).1
      rw [List.length_take_of_le hle, hzero] at hlen
      exact hpos hlen
    · intro hnot
      have hempty : ([] : List UInt8).length = bodyLength headers := hzero.symm
      obtain ⟨leftover, reads', hok, -⟩ := readBody_of_length hchunked hempty
        (show buffered ++ s.bytes = [] ++ (buffered ++ s.bytes) from rfl)
      exact hnot _ _ hok

theorem leaves_readBody_iff {m : CodedMessage} {t : List UInt8}
    (hmem : m.body.length < 2 ^ 63) (h : buffered ++ s.bytes = m.bytes ++ t) :
    (readBody s buffered headers).Leaves m.body t ↔
      StatesChunked headers ∧ (∀ line ∈ m.lines, isUtf8 line = true) ∧
        (m.tail ≠ crlf ∨ ¬ CutBeforeEnd t s.reads ∨ t = [] ∧ s.ending = .closed) := by
  rw [← isChunked_iff]
  cases hchunked : isChunked headers with
  | true =>
    have hread : readBody s buffered headers = readChunkedBody s buffered := if_pos hchunked
    rw [hread, leaves_readChunkedBody_iff ?_ h]
    · simp
    · intro c hc
      exact lt_of_le_of_lt (CodedMessage.length_data_le hc) hmem
  | false =>
    refine iff_of_false ?_ (by simp)
    intro hleaves
    have hbytes := (append_of_leaves hchunked hleaves).2
    rw [h] at hbytes
    have hlen := congrArg List.length (List.append_cancel_right hbytes)
    exact absurd hlen (Nat.ne_of_lt m.length_body_lt)

/-- No header list is rejected whatever follows. -/
theorem not_rejected (headers : List Header) :
    ¬ ∀ buffered s, ∃ e, readBody s buffered headers = .error e := by
  intro hall
  cases hchunked : isChunked headers with
  | true =>
    obtain ⟨e, he⟩ := hall (utf8 "0\r\n\r\n") ⟨[], .waiting⟩
    rw [readBody, if_pos hchunked] at he
    have hempty : readChunkedBody ⟨[], .waiting⟩ (utf8 "0\r\n\r\n") =
        .ok ([], []) ⟨[], .waiting⟩ := by decide +kernel
    rw [hempty] at he
    exact absurd he (by simp)
  | false =>
    obtain ⟨e, he⟩ := hall (List.replicate (bodyLength headers) 0) ⟨[], .waiting⟩
    obtain ⟨leftover, reads', hok, -⟩ := readBody_of_length (s := ⟨[], .waiting⟩) hchunked
      (List.length_replicate (n := bodyLength headers) (a := 0)) (t := []) rfl
    rw [hok] at he
    exact absurd he (by simp)

/-- **When request bodies are read as they are framed.**  For every header list, whatever
follows it and however the bytes are cut into reads, the body is read as the fields define
it exactly if they leave no choice. -/
theorem readsAsFramed_iff (headers : List Header) (buffered : List UInt8) (s : Stream)
    (hmem : ∀ body t, decodeChunked (buffered ++ s.bytes) = some (body, t) →
      body.length < 2 ^ 63) :
    ReadsAsFramed headers buffered s ↔ FramedPlainly headers buffered s := by
  unfold ReadsAsFramed FramedPlainly
  cases hrule : requestRule headers with
  | length n => exact readsLength_iff hrule
  | chunked =>
    constructor
    · intro hreads m t h
      have hdecode : decodeChunked (buffered ++ s.bytes) = some (m.body, t) :=
        h ▸ decodeChunked_coded m t
      exact (leaves_readBody_iff (hmem _ _ hdecode) h).mp (hreads m.body t hdecode)
    · intro hplain body t hdecode
      obtain ⟨m, h, rfl⟩ := decodeChunked_eq_some_iff.mp hdecode
      exact (leaves_readBody_iff (hmem _ _ hdecode) h).mpr (hplain m t h)
  | untilClose => exact iff_of_false (not_rejected headers) (fun h => h)
  | tunnel => exact iff_of_false (not_rejected headers) (fun h => h)
  | invalid => exact iff_of_false (not_rejected headers) (fun h => h)

end Framed

/-! ## Two requests of the demo -/

/-- A head that announces five bytes. -/
def demoLength : List Header := [⟨utf8 "Content-Length", utf8 "5"⟩]

/-- A body of announced length, cut in two, is read as it is framed. -/
theorem demo_length_framed :
    decodeChunked (utf8 "hel" ++ packetBytes [⟨utf8 "lo", by decide +kernel⟩]) = none ∧
      ReadsAsFramed demoLength (utf8 "hel") ⟨[⟨utf8 "lo", by decide +kernel⟩], .closed⟩ := by
  have hnone : decodeChunked (utf8 "hel" ++ packetBytes [⟨utf8 "lo", by decide +kernel⟩]) =
      none := by decide +kernel
  refine ⟨hnone, (readsAsFramed_iff _ _ _ ?_).mpr ?_⟩
  · intro body t hdecode
    exact absurd (hnone.symm.trans hdecode) (by simp)
  · have hrule : requestRule demoLength = .length 5 := by decide +kernel
    rw [FramedPlainly, hrule]
    exact .inr ⟨by decide +kernel, utf8 "5", by decide +kernel, by decide +kernel⟩

/-- A length that is no number. -/
def demoBadLength : List Header := [⟨utf8 "Content-Length", utf8 "18 bytes"⟩]

/-- **A body is left for the next request.**  The fields define no framing; `read_body`
returns an empty body, and leaves what follows, here the bytes of another request. -/
theorem demo_body_left :
    requestRule demoBadLength = .invalid ∧
      readBody ⟨[], .waiting⟩ demoPipelined demoBadLength =
        .ok ([], demoPipelined) ⟨[], .waiting⟩ ∧
      ¬ ReadsAsFramed demoBadLength demoPipelined ⟨[], .waiting⟩ := by
  have hrule : requestRule demoBadLength = .invalid := by decide +kernel
  have hrun : readBody ⟨[], .waiting⟩ demoPipelined demoBadLength =
      .ok ([], demoPipelined) ⟨[], .waiting⟩ := by decide +kernel
  refine ⟨hrule, hrun, ?_⟩
  rw [ReadsAsFramed, hrule]
  intro hall
  obtain ⟨e, he⟩ := hall demoPipelined ⟨[], .waiting⟩
  exact absurd (hrun.symm.trans he) (by simp)

end PpcaNetwork.Minicaddy
