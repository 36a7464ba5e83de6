import PpcaNetwork.DnsResolver.Relay

/-!
# Matching responses

`build_response` copies the ID, the RD bit and the questions of the query, and
`encode_message` writes the questions again.  In between the names are strings in lower
case, with dots between the labels; and the number of answers, the length of each record's
data and the RCODE go into 16, 16 and 4 bits.

* `readsBack_of_decodeName`, `readsBack_of_decodeRr` — what is decoded as itself where it is
  written reads back everywhere.
* `questionSection` — the bytes of the question section.
* `Uncompressed` — the questions of a query, written out.
* `MatchingResponse` — a response that matches its query.
* `matching_response_iff` — when the response matches.
-/

namespace PpcaNetwork.Dns

/-! ## Names that read back -/

theorem IsReadable.toAsciiLowercase {label : Text} (h : IsReadable label) :
    IsReadable (toAsciiLowercase label) where
  ne_nil := by simpa [PpcaNetwork.toAsciiLowercase] using h.ne_nil
  length_le := by simpa [PpcaNetwork.toAsciiLowercase] using h.length_le
  utf8 := isUtf8_toAsciiLowercase h.utf8

/-- Whatever `decode_name` reads, and wherever a pointer leads it, the labels are readable. -/
theorem exists_nameOf_of_decodeName {msg : List UInt8} {offset end' : Nat} {name : Text}
    (hd : decodeName msg offset = some (name, end')) :
    ∃ labels, name = nameOf labels ∧ ∀ label ∈ labels, IsReadable label := by
  obtain ⟨labels, hwalk, rfl⟩ := decodeName_eq_some_iff.mp hd
  refine ⟨lowerName labels, rfl, ?_⟩
  intro label hlabel
  obtain ⟨l, hl, rfl⟩ := List.mem_map.mp hlabel
  exact (hwalk.readable l hl).toAsciiLowercase

/-- What stands between the dots of a text is text. -/
theorem isUtf8_of_mem_pieces {label : Text} (h : isUtf8 label = true) :
    ∀ piece ∈ pieces label, isUtf8 piece = true := by
  induction hlen : label.length using Nat.strong_induction_on generalizing label with
  | _ n ih =>
    have hfree : ∀ s : Text, dot ∉ s → isUtf8 s = true →
        ∀ piece ∈ pieces s, isUtf8 piece = true := by
      intro s hdot hs
      by_cases hne : s = []
      · subst hne
        simp
      · rw [pieces_of_undotted hne hdot]
        simpa using hs
    rcases undotted_or_append label with hdot | ⟨s, t, rfl, hdot⟩
    · exact hfree label hdot h
    · have hascii : dot < 0x80 := by decide
      obtain ⟨hs, hrest⟩ := isUtf8_of_append hascii h
      rw [← List.singleton_append, isUtf8_append_of_ascii (by simpa using hascii)] at hrest
      rw [pieces_append]
      intro piece hpiece
      rcases List.mem_append.mp hpiece with hpiece | hpiece
      · exact hfree s hdot hs piece hpiece
      · refine ih t.length ?_ hrest rfl piece hpiece
        rw [← hlen, List.length_append, List.length_cons]
        omega

/-- The pieces of readable labels are readable. -/
theorem readable_pieces {labels : List Text} (h : ∀ label ∈ labels, IsReadable label) :
    ∀ piece ∈ labels.flatMap pieces, IsReadable piece := by
  intro piece hpiece
  obtain ⟨label, hlabel, hpiece⟩ := List.mem_flatMap.mp hpiece
  have hroom := (length_le_length_flatMap hpiece).trans (pieces_spec label).2
  have hle := (h label hlabel).length_le
  simp only [length_wireLabel] at hroom
  exact ⟨((pieces_spec label).1 piece hpiece).1, by omega,
    isUtf8_of_mem_pieces (h label hlabel).utf8 piece hpiece⟩

/-- Labels that are written out are decoded, in lower case. -/
theorem decodeName_wireName {msg : List UInt8} {labels : List Text} {offset : Nat}
    (hlabels : ∀ label ∈ labels, IsReadable label) (h : StandsAt msg offset (wireName labels)) :
    decodeName msg offset =
      some (nameOf (lowerName labels), offset + (wireName labels).length) :=
  decodeName_labels hlabels h

/-- Where a name is written whose pieces are readable, these are what is decoded. -/
theorem decodeName_pieces {msg : List UInt8} {name : Text} {offset : Nat}
    (hpieces : ∀ piece ∈ pieces name, IsReadable piece)
    (h : StandsAt msg offset (encodeName name)) :
    decodeName msg offset =
      some (nameOf (lowerName (pieces name)), offset + (encodeName name).length) := by
  rw [encodeName_eq_wireName] at h ⊢
  exact decodeName_wireName hpieces h

/-- A name that is decoded as itself where it is written reads back, and the decoder has ended
behind it. -/
theorem readsBack_of_decodeName {msg : List UInt8} {name : Text} {offset end' : Nat}
    (h : StandsAt msg offset (encodeName name))
    (hd : decodeName msg offset = some (name, end')) :
    NameReadsBack name ∧ end' = offset + (encodeName name).length := by
  obtain ⟨labels, hname, hlabels⟩ := exists_nameOf_of_decodeName hd
  have hpieces : ∀ piece ∈ pieces name, IsReadable piece := by
    rw [hname, pieces_nameOf]
    exact readable_pieces hlabels
  rw [decodeName_pieces hpieces h] at hd
  obtain ⟨heq, hend⟩ := Prod.mk.inj (Option.some.inj hd)
  refine ⟨⟨?_, lowerName (pieces name), heq.symm, ?_⟩, hend.symm⟩
  · rw [← heq, toAsciiLowercase_nameOf]
    simp [lowerName, Function.comp_def]
  · intro label hlabel
    obtain ⟨piece, hpiece, rfl⟩ := List.mem_map.mp hlabel
    refine ⟨(hpieces piece hpiece).toAsciiLowercase, ?_⟩
    rw [dot_mem_toAsciiLowercase]
    exact ((pieces_spec name).1 piece hpiece).2

/-! ## Records that read back -/

theorem namesReadBack_of_decodeSoa {msg : List UInt8} {mname rname : Text}
    {serial refresh retry expire minimum : UInt32} {start len : Nat}
    {hle : start + len ≤ msg.length}
    (h : StandsAt msg start
      (encodeRdata (.soa mname rname serial refresh retry expire minimum)))
    (hd : decodeSoa msg start len hle =
      some (.soa mname rname serial refresh retry expire minimum)) :
    NameReadsBack mname ∧ NameReadsBack rname := by
  obtain ⟨h, -⟩ := h.append
  obtain ⟨h, -⟩ := h.append
  obtain ⟨h, -⟩ := h.append
  obtain ⟨h, -⟩ := h.append
  obtain ⟨h, -⟩ := h.append
  obtain ⟨hfirst, hsecond⟩ := h.append
  obtain ⟨mname', o1, rname', o2, hmname, hrname, _, heq⟩ := decodeSoa_spec hd
  obtain ⟨rfl, rfl, -⟩ := RData.soa.inj heq
  obtain ⟨hmback, rfl⟩ := readsBack_of_decodeName hfirst hmname
  exact ⟨hmback, (readsBack_of_decodeName hsecond hrname).1⟩

/-- Data that is decoded as itself where it is written has names that read back. -/
theorem namesReadBack_of_decodeRdata {msg : List UInt8} {rtype : UInt16} {start len : Nat}
    {rdata : RData} {hle : start + len ≤ msg.length} (h : StandsAt msg start (encodeRdata rdata))
    (hd : decodeRdata msg rtype start len hle = some rdata) : rdata.NamesReadBack := by
  have htyped := decodeRdata_typed hd [] 0 0
  cases rdata with
  | a ip => trivial
  | aaaa ip => trivial
  | unknown data => trivial
  | ns target =>
    obtain rfl : rtype = typeNs := htyped
    rw [decodeRdata_ns] at hd
    obtain ⟨⟨name, off⟩, hname, heq⟩ := Option.map_eq_some_iff.mp hd
    obtain rfl := RData.ns.inj heq
    exact (readsBack_of_decodeName h hname).1
  | cname target =>
    obtain rfl : rtype = typeCname := htyped
    rw [decodeRdata_cname] at hd
    obtain ⟨⟨name, off⟩, hname, heq⟩ := Option.map_eq_some_iff.mp hd
    obtain rfl := RData.cname.inj heq
    exact (readsBack_of_decodeName h hname).1
  | mx preference exchange =>
    obtain rfl : rtype = typeMx := htyped
    rw [decodeRdata_mx] at hd
    split at hd
    · obtain ⟨⟨name, off⟩, hname, heq⟩ := Option.map_eq_some_iff.mp hd
      obtain ⟨-, rfl⟩ := RData.mx.inj heq
      exact (readsBack_of_decodeName h.append.2 hname).1
    · exact absurd hd (by simp)
  | soa mname rname serial refresh retry expire minimum =>
    obtain rfl : rtype = typeSoa := htyped
    rw [decodeRdata_soa] at hd
    exact namesReadBack_of_decodeSoa h hd

/-- A record that is decoded as itself where it is written reads back, unless its data is too
long for the length field. -/
theorem readsBack_of_decodeRr {msg : List UInt8} {rr : DnsRR} {offset end' : Nat}
    (hlen : (encodeRdata rr.rdata).length ≤ 65535) (h : StandsAt msg offset (encodeRr rr))
    (hd : decodeRr msg offset = some (rr, end')) : rr.ReadsBack := by
  have htyped := decodeRr_typed hd
  obtain ⟨hs, hrdata⟩ := h.append
  obtain ⟨hs, hrdlength⟩ := hs.append
  obtain ⟨hs, httl⟩ := hs.append
  obtain ⟨hs, hcls⟩ := hs.append
  obtain ⟨hname, hrtype⟩ := hs.append
  simp only [List.length_append, length_beBytes16, length_beBytes32, ← Nat.add_assoc]
    at hrdlength hrdata
  obtain ⟨off, _, _, hdecode, -, -, -, hrd, -⟩ := decodeRr_spec hd
  obtain ⟨hback, rfl⟩ := readsBack_of_decodeName hname hdecode
  exact ⟨hback, htyped, namesReadBack_of_decodeRdata hrdata hrd, hlen⟩

/-- Records that are decoded as themselves where they are written read back. -/
theorem readBack_of_decodeMany {msg : List UInt8} {rrs : List DnsRR} {offset end' : Nat}
    (hlen : ∀ rr ∈ rrs, (encodeRdata rr.rdata).length ≤ 65535)
    (h : StandsAt msg offset (rrs.flatMap encodeRr))
    (hd : decodeMany (decodeRr msg) rrs.length offset = some (rrs, end')) :
    ∀ rr ∈ rrs, rr.ReadsBack := by
  induction rrs generalizing offset with
  | nil => simp
  | cons rr rrs ih =>
    rw [List.flatMap_cons] at h
    obtain ⟨rr', next, rest, hcons, hrr, hrest⟩ := decodeMany_succ_spec hd
    obtain ⟨rfl, rfl⟩ := List.cons.inj hcons
    have hback := readsBack_of_decodeRr (hlen rr (by simp)) h.append.1 hrr
    rw [decodeRr_standing hback h.append.1] at hrr
    obtain ⟨-, rfl⟩ := Prod.mk.inj (Option.some.inj hrr)
    intro x hx
    rcases List.mem_cons.mp hx with rfl | hx
    · exact hback
    · exact ih (fun x hx => hlen x (List.mem_cons_of_mem _ hx)) h.append.2 hrest x hx

/-- A loop of `decode_message` makes as many items as it is asked for. -/
theorem length_of_decodeMany {α : Type} {decode : Nat → Option (α × Nat)} {count offset end' : Nat}
    {items : List α} (hd : decodeMany decode count offset = some (items, end')) :
    items.length = count := by
  induction count generalizing offset items end' with
  | zero =>
    obtain ⟨rfl, -⟩ := Prod.mk.inj (Option.some.inj hd)
    rfl
  | succ count ih =>
    obtain ⟨item, next, rest, rfl, -, hrest⟩ := decodeMany_succ_spec hd
    rw [List.length_cons, ih hrest]

/-! ## Question sections -/

/-- The bytes of the question section, which begins behind the header. -/
def questionSection (msg : List UInt8) : Option (List UInt8) := do
  let header ← decodeHeader msg
  let (_, off) ← decodeMany (decodeQuestion msg) header.qdcount.toNat 12
  return (msg.drop 12).take (off - 12)

theorem questionSection_eq {msg bytes : List UInt8} {header : DnsHeader}
    {questions : List DnsQuestion} (hheader : decodeHeader msg = some header)
    (hquestions : decodeMany (decodeQuestion msg) header.qdcount.toNat 12 =
      some (questions, 12 + bytes.length))
    (h : StandsAt msg 12 bytes) : questionSection msg = some bytes := by
  simp only [questionSection, hheader, Option.bind_eq_bind, Option.bind_some, hquestions,
    Nat.add_sub_cancel_left]
  exact congrArg some h.take_drop

/-- A question as it is written. -/
structure WrittenQuestion where
  labels : List Label
  qtype : UInt16
  qclass : UInt16

namespace WrittenQuestion

/-- The question on the wire, without pointers. -/
def bytes (q : WrittenQuestion) : List UInt8 :=
  wireName q.labels ++ beBytes16 q.qtype ++ beBytes16 q.qclass

/-- What `decode_question` makes of it. -/
def decoded (q : WrittenQuestion) : DnsQuestion := ⟨nameOf (lowerName q.labels), q.qtype, q.qclass⟩

/-- The labels are as `encode_name` writes them: in lower case and without dots. -/
def Plain (q : WrittenQuestion) : Prop := lowerName q.labels = q.labels ∧ Undotted q.labels

instance (q : WrittenQuestion) : Decidable q.Plain := inferInstanceAs (Decidable (_ ∧ _))

end WrittenQuestion

/-- The question section of the datagram is written without pointers.  The first byte of a
pointer has both high bits set, so the labels have at most 191 bytes. -/
structure Uncompressed (data : List UInt8) (query : DnsMessage)
    (questions : List WrittenQuestion) : Prop where
  stands : StandsAt data 12 (questions.flatMap WrittenQuestion.bytes)
  labels : ∀ q ∈ questions, ∀ label ∈ q.labels, label ≠ [] ∧ label.length ≤ 191
  qdcount : query.header.qdcount.toNat = questions.length

/-! ## Reading the query -/

section

variable {msg : List UInt8} {offset end' : Nat}

/-- A question of the query, where it is written. -/
theorem decodeQuestion_written {q : WrittenQuestion} {question : DnsQuestion}
    (hlabels : ∀ label ∈ q.labels, label ≠ [] ∧ label.length ≤ 191)
    (h : StandsAt msg offset q.bytes) (hd : decodeQuestion msg offset = some (question, end')) :
    question = q.decoded ∧ end' = offset + q.bytes.length ∧
      ∀ label ∈ q.labels, IsReadable label := by
  obtain ⟨⟨hname, hqtype⟩, hqclass⟩ := And.imp_left StandsAt.append h.append
  simp only [List.length_append, length_beBytes16, ← Nat.add_assoc] at hqclass
  obtain ⟨off, _, hdecode, hqtype', hqclass', rfl⟩ := decodeQuestion_spec hd
  have hread : ∀ label ∈ q.labels, IsReadable label := by
    obtain ⟨labels, hwalk, -⟩ := decodeName_eq_some_iff.mp hdecode
    obtain ⟨rfl, -⟩ := hwalk.eq_of_wireName hlabels hname
    exact hwalk.readable
  rw [decodeName_wireName hread hname] at hdecode
  obtain ⟨hqname, rfl⟩ := Prod.mk.inj (Option.some.inj hdecode)
  rw [u16At_standing hqtype] at hqtype'
  rw [u16At_standing hqclass] at hqclass'
  refine ⟨?_, ?_, hread⟩
  · cases question
    simp only at hqname hqtype' hqclass'
    subst hqname hqtype' hqclass'
    rfl
  · simp only [WrittenQuestion.bytes, List.length_append, length_beBytes16, ← Nat.add_assoc]

/-- The questions of the query, where they are written. -/
theorem decodeMany_written {written : List WrittenQuestion} {questions : List DnsQuestion}
    {last : Nat} (hlabels : ∀ q ∈ written, ∀ label ∈ q.labels, label ≠ [] ∧ label.length ≤ 191)
    (h : StandsAt msg offset (written.flatMap WrittenQuestion.bytes))
    (hd : decodeMany (decodeQuestion msg) written.length offset = some (questions, last)) :
    questions = written.map WrittenQuestion.decoded ∧
      last = offset + (written.flatMap WrittenQuestion.bytes).length ∧
      ∀ q ∈ written, ∀ label ∈ q.labels, IsReadable label := by
  induction written generalizing offset questions with
  | nil =>
    obtain ⟨rfl, rfl⟩ := Prod.mk.inj (Option.some.inj hd)
    exact ⟨rfl, rfl, by simp⟩
  | cons q written ih =>
    rw [List.flatMap_cons] at h
    obtain ⟨question, next, rest, rfl, hquestion, hrest⟩ := decodeMany_succ_spec hd
    obtain ⟨rfl, rfl, hread⟩ := decodeQuestion_written (hlabels q (by simp)) h.append.1 hquestion
    obtain ⟨rfl, rfl, hreads⟩ :=
      ih (fun q hq => hlabels q (List.mem_cons_of_mem _ hq)) h.append.2 hrest
    refine ⟨rfl, ?_, ?_⟩
    · rw [List.flatMap_cons, List.length_append, Nat.add_assoc]
    · intro q' hq'
      rcases List.mem_cons.mp hq' with rfl | hq'
      · exact hread
      · exact hreads q' hq'

/-! ## The questions of the response -/

/-- A question that has been read is read again, perhaps as another one. -/
theorem exists_decodeQuestion {q : WrittenQuestion}
    (hread : ∀ label ∈ q.labels, IsReadable label)
    (h : StandsAt msg offset (encodeQuestion q.decoded)) :
    ∃ question, decodeQuestion msg offset =
      some (question, offset + (encodeQuestion q.decoded).length) := by
  have hle := h.length_le
  obtain ⟨⟨hname, -⟩, -⟩ := And.imp_left StandsAt.append h.append
  have hlower : ∀ label ∈ lowerName q.labels, IsReadable label := by
    intro label hlabel
    obtain ⟨l, hl, rfl⟩ := List.mem_map.mp hlabel
    exact (hread l hl).toAsciiLowercase
  have hpieces : ∀ piece ∈ pieces q.decoded.qname, IsReadable piece := by
    rw [WrittenQuestion.decoded, pieces_nameOf]
    exact readable_pieces hlower
  simp only [encodeQuestion, List.length_append, length_beBytes16, ← Nat.add_assoc] at hle ⊢
  rw [decodeQuestion, decodeName_pieces hpieces hname]
  simp only
  rw [dif_pos (by omega)]
  exact ⟨_, rfl⟩

/-- Where each item can be read and the reader ends behind it, the whole loop can. -/
theorem exists_decodeMany {α β : Type} {encode : β → List UInt8}
    {decode : Nat → Option (α × Nat)} {items : List β}
    (hitem : ∀ item ∈ items, ∀ offset, StandsAt msg offset (encode item) →
      ∃ item', decode offset = some (item', offset + (encode item).length))
    (h : StandsAt msg offset (items.flatMap encode)) :
    ∃ items', decodeMany decode items.length offset =
      some (items', offset + (items.flatMap encode).length) := by
  induction items generalizing offset with
  | nil => exact ⟨[], rfl⟩
  | cons item items ih =>
    rw [List.flatMap_cons] at h
    obtain ⟨item', hfirst⟩ := hitem item (by simp) offset h.append.1
    obtain ⟨items', hrest⟩ := ih (fun i hi => hitem i (List.mem_cons_of_mem _ hi)) h.append.2
    refine ⟨item' :: items', ?_⟩
    rw [List.length_cons, decodeMany, hfirst]
    simp only [hrest, Option.map_some, List.flatMap_cons, List.length_append, Nat.add_assoc]

end

/-- `encode_name` and `decode_name` leave labels as they are if they are plain. -/
theorem pieces_lowerName_eq_self_iff {labels : List Label} (h : ∀ l ∈ labels, l ≠ []) :
    (lowerName labels).flatMap pieces = labels ↔ lowerName labels = labels ∧ Undotted labels := by
  have hlower : ∀ l ∈ lowerName labels, l ≠ [] := by
    intro l hl
    obtain ⟨l', hl', rfl⟩ := List.mem_map.mp hl
    simpa [toAsciiLowercase] using h l' hl'
  constructor
  · intro heq
    have hdot : Undotted labels := by
      intro l hl
      rw [← heq] at hl
      obtain ⟨l', -, hpiece⟩ := List.mem_flatMap.mp hl
      exact ((pieces_spec l').1 l hpiece).2
    rw [(pieces_eq_self_iff hlower).mpr (undotted_lowerName.mpr hdot)] at heq
    exact ⟨heq, hdot⟩
  · rintro ⟨heq, hdot⟩
    rw [heq]
    exact (pieces_eq_self_iff h).mpr hdot

/-- The bytes of the questions are written again exactly when the questions are plain. -/
theorem flatMap_bytes_eq_iff {written : List WrittenQuestion}
    (hlabels : ∀ q ∈ written, ∀ label ∈ q.labels, label ≠ [] ∧ label.length ≤ 191) :
    written.flatMap WrittenQuestion.bytes =
      (written.map WrittenQuestion.decoded).flatMap encodeQuestion ↔ ∀ q ∈ written, q.Plain := by
  have hencode : ∀ q : WrittenQuestion, encodeQuestion q.decoded =
      wireName ((lowerName q.labels).flatMap pieces) ++ beBytes16 q.qtype ++
        beBytes16 q.qclass := by
    intro q
    rw [encodeQuestion, WrittenQuestion.decoded, encodeName_nameOf_pieces]
  induction written with
  | nil => simp
  | cons q written ih =>
    have hrest : written.flatMap WrittenQuestion.bytes =
        (written.map WrittenQuestion.decoded).flatMap encodeQuestion ↔ ∀ q ∈ written, q.Plain :=
      ih fun q hq => hlabels q (List.mem_cons_of_mem _ hq)
    have hq := hlabels q (by simp)
    have hplain : (lowerName q.labels).flatMap pieces = q.labels ↔ q.Plain :=
      pieces_lowerName_eq_self_iff fun l hl => (hq l hl).1
    rw [List.map_cons, List.flatMap_cons, List.flatMap_cons, List.forall_mem_cons, ← hrest,
      ← hplain, hencode, WrittenQuestion.bytes]
    constructor
    · intro heq
      simp only [List.append_assoc] at heq
      have hfit : ∀ l ∈ q.labels, l ≠ [] ∧ l.length ≤ 255 := fun l hl =>
        ⟨(hq l hl).1, (hq l hl).2.trans (by decide)⟩
      have hfit' : ∀ l ∈ (lowerName q.labels).flatMap pieces, l ≠ [] ∧ l.length ≤ 255 := by
        intro piece hpiece
        obtain ⟨lower, hlower, hpiece⟩ := List.mem_flatMap.mp hpiece
        obtain ⟨l, hl, rfl⟩ := List.mem_map.mp hlower
        have hroom := (length_le_length_flatMap hpiece).trans (pieces_spec _).2
        simp only [length_wireLabel, toAsciiLowercase, List.length_map] at hroom
        have hmax := (hq l hl).2
        exact ⟨((pieces_spec _).1 piece hpiece).1, by omega⟩
      obtain ⟨hnames, hback⟩ := wireName_append_inj hfit hfit' heq
      exact ⟨hnames.symm, List.append_cancel_left (List.append_cancel_left hback)⟩
    · rintro ⟨hnames, hback⟩
      rw [hnames, hback]

/-! ## Matching responses -/

/-- The response matches the query that came in `data`: it can be decoded, it has the ID and the
RD bit of the query, the QR bit and the RCODE that it was given, the bytes of the question section
of the query, and the answers that it was given. -/
structure MatchingResponse (data : List UInt8) (query : DnsMessage) (answers : List DnsRR)
    (rcode : UInt8) (wire : List UInt8) (response : DnsMessage) : Prop where
  decodes : decodeMessage wire = some response
  id : response.header.id = query.header.id
  rd : response.header.flags &&& 0x0100 = query.header.flags &&& 0x0100
  qr : response.header.isResponse = true
  rcode : response.header.rcode = rcode
  questions : questionSection wire = questionSection data
  answers : response.answers = answers

theorem and_eq_zero_of_octet (b : UInt8) {i : Nat} (h : 8 ≤ i) :
    b.toNat &&& 2 ^ i = 0 := by
  have hlt : b.toNat < 2 ^ i := Nat.lt_of_lt_of_le b.toNat_lt (Nat.pow_le_pow_right (by decide) h)
  rw [Nat.and_two_pow, Nat.testBit_lt_two_pow hlt, Bool.toNat_false, Nat.zero_mul]

theorem or_and_distrib (a b mask : UInt16) : (a ||| b) &&& mask = a &&& mask ||| b &&& mask := by
  apply UInt16.eq_of_toBitVec_eq
  simp only [UInt16.toBitVec_and, UInt16.toBitVec_or, BitVec.and_or_distrib_right]

/-- The flags of the response: the RD bit of the query, and QR. -/
theorem flags_buildResponse (query : DnsMessage) (answers : List DnsRR) (rcode : UInt8) :
    (buildResponse query answers rcode).header.flags &&& 0x0100 = query.header.flags &&& 0x0100 ∧
      (buildResponse query answers rcode).header.isResponse = true := by
  have hrd : rcode.toUInt16 &&& 0x0100 = 0 := by
    apply UInt16.toNat_inj.mp
    rw [UInt16.toNat_and, UInt8.toNat_toUInt16]
    exact and_eq_zero_of_octet rcode (i := 8) (by decide)
  have hqr : rcode.toUInt16 &&& 0x8000 = 0 := by
    apply UInt16.toNat_inj.mp
    rw [UInt16.toNat_and, UInt8.toNat_toUInt16]
    exact and_eq_zero_of_octet rcode (i := 15) (by decide)
  have hconst : (0x8000 ||| 0x0080 : UInt16) &&& 0x0100 = 0 := by decide
  have hconst' : (0x8000 ||| 0x0080 : UInt16) &&& 0x8000 = 0x8000 := by decide
  have hmasks : (0x0100 : UInt16) &&& 0x8000 = 0 := by decide
  constructor
  · show (0x8000 ||| 0x0080 ||| (query.header.flags &&& 0x0100) ||| rcode.toUInt16) &&& 0x0100 =
      query.header.flags &&& 0x0100
    rw [or_and_distrib, or_and_distrib, hrd, UInt16.and_assoc, hconst]
    simp
  · show ((0x8000 ||| 0x0080 ||| (query.header.flags &&& 0x0100) ||| rcode.toUInt16) &&& 0x8000 !=
      0) = true
    rw [or_and_distrib, or_and_distrib, hqr, UInt16.and_assoc, hconst', hmasks]
    simp

section

variable {data : List UInt8} {query : DnsMessage} {written : List WrittenQuestion}
  {answers : List DnsRR} {rcode : UInt8}

/-- What the query says of its questions. -/
theorem Uncompressed.decoded (h : Uncompressed data query written)
    (hquery : decodeMessage data = some query) :
    query.questions = written.map WrittenQuestion.decoded ∧
      questionSection data = some (written.flatMap WrittenQuestion.bytes) ∧
      ∀ q ∈ written, ∀ label ∈ q.labels, IsReadable label := by
  obtain ⟨hheader, off, hquestions, -⟩ := decodeMessage_spec hquery
  have hcount := hquestions
  rw [h.qdcount] at hcount
  obtain ⟨heq, rfl, hread⟩ := decodeMany_written h.labels h.stands hcount
  exact ⟨heq, questionSection_eq hheader hquestions h.stands, hread⟩

/-- Where the parts of the response stand. -/
theorem standsAt_buildResponse (query : DnsMessage) (answers : List DnsRR) (rcode : UInt8) :
    StandsAt (encodeMessage (buildResponse query answers rcode)) 12
        (query.questions.flatMap encodeQuestion) ∧
      StandsAt (encodeMessage (buildResponse query answers rcode))
        (12 + (query.questions.flatMap encodeQuestion).length) (answers.flatMap encodeRr) := by
  have hstands := StandsAt.self (encodeMessage (buildResponse query answers rcode))
  rw [encodeMessage_buildResponse query answers rcode] at hstands ⊢
  obtain ⟨hfront, hanswers⟩ := hstands.append
  have htwelve : (encodeHeader (buildResponse query answers rcode).header).length = 12 := rfl
  simp only [List.length_append, htwelve, Nat.zero_add] at hanswers
  refine ⟨?_, hanswers⟩
  have hquestions := hfront.append.2
  simpa only [htwelve, Nat.zero_add] using hquestions

/-- The questions of the response can be read. -/
theorem Uncompressed.exists_questions (h : Uncompressed data query written)
    (hquery : decodeMessage data = some query) (answers : List DnsRR) (rcode : UInt8) :
    ∃ questions, decodeMany (decodeQuestion (encodeMessage (buildResponse query answers rcode)))
      query.header.qdcount.toNat 12 =
        some (questions, 12 + (query.questions.flatMap encodeQuestion).length) := by
  obtain ⟨heq, -, hread⟩ := h.decoded hquery
  have hstands := (standsAt_buildResponse query answers rcode).1
  rw [heq, List.flatMap_map] at hstands ⊢
  rw [h.qdcount]
  exact exists_decodeMany (fun q hq _ hat => exists_decodeQuestion (hread q hq) hat) hstands

/-- The question section of the response is what is written for the questions that were read. -/
theorem Uncompressed.questionSection_response (h : Uncompressed data query written)
    (hquery : decodeMessage data = some query) (answers : List DnsRR) (rcode : UInt8) :
    questionSection (encodeMessage (buildResponse query answers rcode)) =
      some ((written.map WrittenQuestion.decoded).flatMap encodeQuestion) := by
  obtain ⟨questions, hquestions⟩ := h.exists_questions hquery answers rcode
  rw [← (h.decoded hquery).1]
  exact questionSection_eq (decodeHeader_encodeMessage _) hquestions
    (standsAt_buildResponse query answers rcode).1

/-- The question section is echoed exactly when every question is plain. -/
theorem Uncompressed.echoed_iff (h : Uncompressed data query written)
    (hquery : decodeMessage data = some query) (answers : List DnsRR) (rcode : UInt8) :
    questionSection (encodeMessage (buildResponse query answers rcode)) = questionSection data ↔
      ∀ q ∈ written, q.Plain := by
  rw [h.questionSection_response hquery, (h.decoded hquery).2.1, Option.some.injEq, eq_comm]
  exact flatMap_bytes_eq_iff h.labels

/-- The number of answers fits into its field. -/
theorem ancount_buildResponse (query : DnsMessage) (answers : List DnsRR) (rcode : UInt8) :
    (buildResponse query answers rcode).header.ancount.toNat = answers.length ↔
      answers.length ≤ 65535 := by
  show (UInt16.ofNat answers.length).toNat = answers.length ↔ _
  rw [UInt16.toNat_ofNat']
  omega

/-- A response with answers that read back can be decoded, and has these answers. -/
theorem Uncompressed.exists_response (h : Uncompressed data query written)
    (hquery : decodeMessage data = some query) (hcount : answers.length ≤ 65535)
    (hback : ∀ rr ∈ answers, rr.ReadsBack) (rcode : UInt8) :
    ∃ response, decodeMessage (encodeMessage (buildResponse query answers rcode)) = some response ∧
      response.header = (buildResponse query answers rcode).header ∧
      response.answers = answers := by
  obtain ⟨questions, hquestions⟩ := h.exists_questions hquery answers rcode
  have hanswers := decodeMany_standing (fun rr hrr _ => decodeRr_standing (hback rr hrr))
    (standsAt_buildResponse query answers rcode).2
  rw [← (ancount_buildResponse query answers rcode).mpr hcount] at hanswers
  refine ⟨⟨(buildResponse query answers rcode).header, questions, answers, [], []⟩, ?_, rfl, rfl⟩
  simp only [decodeMessage, decodeHeader_encodeMessage, Option.bind_eq_bind, Option.bind_some]
  rw [show (buildResponse query answers rcode).header.qdcount = query.header.qdcount from rfl,
    hquestions]
  simp only [Option.bind_some, hanswers]
  rfl

/-- The answers of a response that is decoded with the answers it was built with read back,
unless the data of one is too long for its length field. -/
theorem Uncompressed.readBack (h : Uncompressed data query written)
    (hquery : decodeMessage data = some query) {response : DnsMessage}
    (hd : decodeMessage (encodeMessage (buildResponse query answers rcode)) = some response)
    (hanswers : response.answers = answers)
    (hlen : ∀ rr ∈ answers, (encodeRdata rr.rdata).length ≤ 65535) :
    answers.length ≤ 65535 ∧ ∀ rr ∈ answers, rr.ReadsBack := by
  obtain ⟨hheader, off, hquestions, off', hrecords⟩ := decodeMessage_spec hd
  rw [decodeHeader_encodeMessage] at hheader
  obtain ⟨questions, hwritten⟩ := h.exists_questions hquery answers rcode
  rw [← Option.some.inj hheader] at hquestions hrecords
  obtain ⟨-, rfl⟩ := Prod.mk.inj (Option.some.inj (hquestions.symm.trans hwritten))
  have hcount := length_of_decodeMany hrecords
  rw [hanswers] at hcount hrecords
  rw [← hcount] at hrecords
  exact ⟨(ancount_buildResponse query answers rcode).mp hcount.symm,
    readBack_of_decodeMany hlen (standsAt_buildResponse query answers rcode).2 hrecords⟩

/-- **Matching responses.**  Take any datagram without compression pointers that is decoded as a
query, any answers and any RCODE.  That the response matches, and the data of each answer fits into
the length field of its record: it holds if and only if every label of the query is in lower
case and has no dots, the RCODE has four bits, there are at most 65535 answers, and each of them
reads back. -/
theorem matching_response_iff (hquery : decodeMessage data = some query)
    (h : Uncompressed data query written) (answers : List DnsRR) (rcode : UInt8) :
    ((∃ response, MatchingResponse data query answers rcode
        (encodeMessage (buildResponse query answers rcode)) response) ∧
      ∀ rr ∈ answers, (encodeRdata rr.rdata).length ≤ 65535) ↔
    (∀ q ∈ written, q.Plain) ∧ rcode < 16 ∧ answers.length ≤ 65535 ∧
      ∀ rr ∈ answers, rr.ReadsBack := by
  constructor
  · rintro ⟨⟨response, hm⟩, hlen⟩
    obtain ⟨hheader, -⟩ := decodeMessage_spec hm.decodes
    rw [decodeHeader_encodeMessage] at hheader
    obtain ⟨hcount, hback⟩ := h.readBack hquery hm.decodes hm.answers hlen
    refine ⟨(h.echoed_iff hquery answers rcode).mp hm.questions, ?_, hcount, hback⟩
    rw [← rcode_buildResponse query answers rcode, Option.some.inj hheader]
    exact hm.rcode
  · rintro ⟨hplain, hrcode, hcount, hback⟩
    obtain ⟨response, hd, hheader, hanswers⟩ := h.exists_response hquery hcount hback rcode
    obtain ⟨hrd, hqr⟩ := flags_buildResponse query answers rcode
    refine ⟨⟨response, hd, ?_, ?_, ?_, ?_, ?_, hanswers⟩, fun rr hrr => (hback rr hrr).length_le⟩
    · rw [hheader]
      rfl
    · rw [hheader]
      exact hrd
    · rw [hheader]
      exact hqr
    · rw [hheader]
      exact (rcode_buildResponse query answers rcode).mpr hrcode
    · exact (h.echoed_iff hquery answers rcode).mpr hplain

end

/-- A query with RD for the address of a name. -/
def demoQuestion (labels : List Label) : WrittenQuestion := ⟨labels, typeA, classIn⟩

/-- A query as it is decoded. -/
def demoQueryMessage (labels : List Label) : DnsMessage where
  header := { id := 7, flags := 0x0100, qdcount := 1, ancount := 0, nscount := 0, arcount := 0 }
  questions := [(demoQuestion labels).decoded]
  answers := []
  authorities := []
  additionals := []

/-- The same query as it arrives. -/
def demoQueryData (labels : List Label) : List UInt8 :=
  encodeHeader (demoQueryMessage labels).header ++ (demoQuestion labels).bytes

theorem demo_uncompressed {labels : List Label}
    (h : ∀ label ∈ labels, label ≠ [] ∧ label.length ≤ 191) :
    Uncompressed (demoQueryData labels) (demoQueryMessage labels) [demoQuestion labels] where
  stands := ⟨encodeHeader (demoQueryMessage labels).header, [], by simp [demoQueryData], rfl⟩
  labels := by
    intro q hq
    obtain rfl := List.mem_singleton.mp hq
    exact h
  qdcount := rfl

/-- The query for `www.example` and its address. -/
theorem demo_echoed :
    (∃ response, MatchingResponse (demoQueryData [utf8 "www", utf8 "example"])
      (demoQueryMessage [utf8 "www", utf8 "example"])
      [⟨utf8 "www.example.", typeA, classIn, 60, .a ⟨192, 0, 2, 1⟩⟩] rcodeNoerror
      (encodeMessage (buildResponse (demoQueryMessage [utf8 "www", utf8 "example"])
        [⟨utf8 "www.example.", typeA, classIn, 60, .a ⟨192, 0, 2, 1⟩⟩] rcodeNoerror)) response) ∧
      ∀ rr ∈ [(⟨utf8 "www.example.", typeA, classIn, 60, .a ⟨192, 0, 2, 1⟩⟩ : DnsRR)],
        (encodeRdata rr.rdata).length ≤ 65535 := by
  refine (matching_response_iff (by decide +kernel) (demo_uncompressed (by decide)) _ _).mpr
    ⟨by decide, by decide, by decide, ?_⟩
  intro rr hrr
  obtain rfl := List.mem_singleton.mp hrr
  refine ⟨⟨by decide, [utf8 "www", utf8 "example"], by decide, ?_⟩, rfl, trivial, by decide⟩
  intro label hlabel
  simp only [List.mem_cons, List.not_mem_nil, or_false] at hlabel
  rcases hlabel with rfl | rfl
  · exact ⟨⟨by decide, by decide, by decide⟩, by decide⟩
  · exact ⟨⟨by decide, by decide, by decide⟩, by decide⟩

/-- A client that asks for `wWw.eXample` gets a response without the question that it asked. -/
theorem demo_mixed_case :
    decodeMessage (demoQueryData [utf8 "wWw", utf8 "eXample"]) =
        some (demoQueryMessage [utf8 "wWw", utf8 "eXample"]) ∧
      Uncompressed (demoQueryData [utf8 "wWw", utf8 "eXample"])
        (demoQueryMessage [utf8 "wWw", utf8 "eXample"])
        [demoQuestion [utf8 "wWw", utf8 "eXample"]] ∧
      ¬ ∃ response, MatchingResponse (demoQueryData [utf8 "wWw", utf8 "eXample"])
        (demoQueryMessage [utf8 "wWw", utf8 "eXample"]) [] rcodeNoerror
        (encodeMessage (buildResponse (demoQueryMessage [utf8 "wWw", utf8 "eXample"]) []
          rcodeNoerror)) response := by
  refine ⟨by decide +kernel, demo_uncompressed (by decide), ?_⟩
  rintro ⟨response, hm⟩
  exact absurd hm.questions (by decide +kernel)

end PpcaNetwork.Dns
