import PpcaNetwork.Lib.ResourceRecords
import PpcaNetwork.DnsResolver.Names
import PpcaNetwork.DnsResolver.Server

/-!
# Relayed records

A record of an upstream response is decoded, kept, and written again into another message.
An RFC 1035 reader of that message follows the pointers it finds there, so names must not
be relayed with pointers in them.  `decode_rdata` expands the names of `NS`, `CNAME`, `MX` and
`SOA` records; a `PTR` record goes the way of the unknown types, as raw bytes.

* `Carried` — a name that the resolver has read off the wire; `Relays` — a response made of
  such names that fits into a datagram.
* `Decoded` — what the resolver knows of an upstream record.
* `Copies` — a record of the response, for one of the answers; `Relays.answersAt`.
* `KeepsMeaning` — the record says in every response what it said upstream.
* `relayed_iff` — when it does.
-/

namespace PpcaNetwork.Dns

/-- The type `PTR`, for which the source has no constant. -/
def typePtr : UInt16 := 12

/-! ## Responses -/

/-- A name that the resolver has read where a name stands. -/
def Carried (name : Text) : Prop :=
  ∃ msg offset labels e end', NameAt msg offset labels e ∧
    decodeName msg offset = some (name, end')

/-- A response to a query that was read off the wire, with answers whose names were read off
the wire, and no longer than a datagram. -/
structure Relays (query : DnsMessage) (answers : List DnsRR) (rcode : UInt8) : Prop where
  qdcount : query.header.qdcount.toNat = query.questions.length
  questions : ∀ q ∈ query.questions, Carried q.qname
  owners : ∀ rr ∈ answers, Carried rr.name
  length_le : (encodeMessage (buildResponse query answers rcode)).length ≤ 65535

/-- In every response that has it among its answers, with whatever TTL, the record is read
and says what it said upstream. -/
def KeepsMeaning (r : Record) (layout : Layout) (d : RecordData) (rr : DnsRR) : Prop :=
  ∀ query answers rcode, Relays query answers rcode →
    ∀ (i : Nat) (ttl : UInt32), answers[i]? = some { rr with ttl := ttl } →
      ∃ records r' d', AnswersAt (encodeMessage (buildResponse query answers rcode)) records ∧
        records[i]? = some r' ∧
        DataAt (encodeMessage (buildResponse query answers rcode)) r' layout d' ∧
        SameRecord r d r' d'

/-- The labels that a carried name is written as. -/
def relayedName (labels : List Label) : List Label := (lowerName labels).flatMap pieces

theorem valid_relayedName {labels : List Label} (h : ∀ l ∈ labels, ValidLabel l) :
    ∀ l ∈ relayedName labels, ValidLabel l := valid_pieces (valid_lowerName h)

theorem length_relayedName (labels : List Label) :
    (wireName (relayedName labels)).length ≤ (wireName labels).length :=
  (length_wireName_pieces _).trans (length_wireName_lowerName labels).le

/-- A name is relayed as the same name exactly when it has no dots in its labels. -/
theorem sameName_relayedName_iff {labels : List Label} (h : ∀ l ∈ labels, ValidLabel l) :
    SameName labels (relayedName labels) ↔ Undotted labels := by
  constructor
  · intro hsame
    have hpieces : Undotted (relayedName labels) := by
      intro piece hpiece
      obtain ⟨l, -, hpiece⟩ := List.mem_flatMap.mp hpiece
      exact ((pieces_spec l).1 piece hpiece).2
    rw [← undotted_lowerName, show lowerName labels = _ from hsame, undotted_lowerName]
    exact hpieces
  · intro hdot
    have hne : ∀ l ∈ lowerName labels, l ≠ [] := fun l hl => (valid_lowerName h l hl).ne_nil
    rw [relayedName, (pieces_eq_self_iff hne).mpr (undotted_lowerName.mpr hdot)]
    exact (sameName_lowerName labels).symm

theorem Carried.encodeName_eq {name : Text} (h : Carried name) :
    ∃ labels, (∀ l ∈ labels, ValidLabel l) ∧ (wireName labels).length ≤ 255 ∧
      encodeName name = wireName labels := by
  obtain ⟨msg, offset, labels, e, end', hname, hdecode⟩ := h
  obtain ⟨rfl, -⟩ := decodeName_labelsAt hname.read hdecode
  exact ⟨relayedName labels, valid_relayedName hname.read.valid,
    (length_relayedName labels).trans hname.short, encodeName_nameOf_pieces _⟩

/-- A short name in normal form is carried, for it can be written out. -/
theorem carried_of_isName {name : Text} (h : IsName name)
    (hshort : (encodeName name).length ≤ 255) : Carried name := by
  have hdecode := decodeName_standing h.readsBack (.self (encodeName name))
  obtain ⟨labels, rfl, hlabel⟩ := h.labels
  have hwire : encodeName (nameOf labels) = wireName labels :=
    encodeName_nameOf fun label hmem => (hlabel label hmem).plain
  have hat : LabelsAt (wireName labels) 12 0 labels (0 + (wireName labels).length) :=
    .of_wireName 12 (fun l hl => (hlabel l hl).valid) (.self _)
  exact ⟨_, _, _, _, _, ⟨hwire ▸ hat, hwire ▸ hshort⟩, hdecode⟩

theorem carried_rootName : Carried rootName :=
  carried_of_isName ⟨by decide, by decide, [], rfl, by simp⟩ (by decide)

/-! ## Reading the response -/

/-- The record is read for one of the answers. -/
structure Copies (msg : List UInt8) (rr : DnsRR) (r : Record) : Prop where
  owner : encodeName rr.name = wireName r.owner
  valid : ∀ l ∈ r.owner, ValidLabel l
  rtype : r.rtype = rr.rtype
  cls : r.cls = rr.cls
  rdata : StandsAt msg r.start (encodeRdata rr.rdata)
  length : r.length.toNat = (encodeRdata rr.rdata).length

section

variable {msg : List UInt8} {offset : Nat}

/-- A question of the response is read. -/
theorem exists_questionAt {q : DnsQuestion} (hq : Carried q.qname)
    (h : StandsAt msg offset (encodeQuestion q)) :
    ∃ q', True ∧ QuestionAt msg offset q' (offset + (encodeQuestion q).length) := by
  obtain ⟨labels, hvalid, hshort, hname⟩ := hq.encodeName_eq
  rw [encodeQuestion, List.append_assoc, hname] at h ⊢
  obtain ⟨hstands, hfixed⟩ := h.append
  rw [List.length_append, ← Nat.add_assoc]
  exact ⟨⟨labels, q.qtype, q.qclass⟩, trivial,
    .intro ⟨.of_wireName 12 hvalid hstands, hshort⟩ hfixed⟩

/-- A record of the response is read. -/
theorem exists_recordAt {rr : DnsRR} (hname : Carried rr.name)
    (hlen : (encodeRdata rr.rdata).length ≤ 65535) (h : StandsAt msg offset (encodeRr rr)) :
    ∃ r, Copies msg rr r ∧ RecordAt msg offset r (offset + (encodeRr rr).length) := by
  obtain ⟨labels, hvalid, hshort, heq⟩ := hname.encodeName_eq
  let r : Record :=
    { owner := labels
      rtype := rr.rtype
      cls := rr.cls
      ttl := rr.ttl
      start := offset + (wireName labels).length + 10
      length := UInt16.ofNat (encodeRdata rr.rdata).length }
  have hlength : r.length.toNat = (encodeRdata rr.rdata).length := by
    rw [show r.length = _ from rfl, UInt16.toNat_ofNat']
    exact Nat.mod_eq_of_lt (Nat.lt_succ_of_le hlen)
  have hwrite : encodeRr rr = wireName labels ++ r.fixed ++ encodeRdata rr.rdata := by
    rw [encodeRr, heq]
    simp only [Record.fixed, List.append_assoc]
    rfl
  rw [hwrite] at h ⊢
  have hle := h.length_le
  obtain ⟨hfront, hrdata⟩ := h.append
  obtain ⟨hstands, hfixed⟩ := hfront.append
  have hten : r.fixed.length = 10 := rfl
  simp only [List.length_append, hten, ← Nat.add_assoc] at hrdata hle ⊢
  refine ⟨r, ⟨heq, hvalid, rfl, rfl, hrdata, hlength⟩, ?_⟩
  rw [← hlength] at hle ⊢
  exact .intro ⟨.of_wireName 12 hvalid hstands, hshort⟩ hfixed rfl hle

end

section

variable {query : DnsMessage} {answers : List DnsRR} {rcode : UInt8}

/-- How the response is laid out. -/
theorem encodeMessage_buildResponse (query : DnsMessage) (answers : List DnsRR) (rcode : UInt8) :
    encodeMessage (buildResponse query answers rcode) =
      encodeHeader (buildResponse query answers rcode).header ++
        query.questions.flatMap encodeQuestion ++ answers.flatMap encodeRr := by
  simp [encodeMessage, buildResponse]

/-- What the length of a datagram says about its records. -/
theorem Relays.fits (h : Relays query answers rcode) :
    answers.length ≤ 65535 ∧ ∀ rr ∈ answers, (encodeRdata rr.rdata).length ≤ 65535 := by
  have hle := h.length_le
  rw [encodeMessage_buildResponse, List.length_append] at hle
  constructor
  · have hcount : answers.length ≤ (answers.flatMap encodeRr).length := by
      rw [List.length_flatMap]
      refine (Nat.le_of_eq (List.length_map _).symm).trans (List.length_le_sum_of_one_le _ ?_)
      intro n hn
      obtain ⟨rr, -, rfl⟩ := List.mem_map.mp hn
      simp only [encodeRr, List.length_append, length_beBytes16]
      omega
    omega
  · intro rr hmem
    have hrr : (encodeRr rr).length ≤ (answers.flatMap encodeRr).length :=
      length_le_length_flatMap hmem
    simp only [encodeRr, List.length_append] at hrr
    omega

/-- The answers of a response are read one by one. -/
theorem Relays.answersAt (h : Relays query answers rcode) :
    ∃ records, AnswersAt (encodeMessage (buildResponse query answers rcode)) records ∧
      List.Forall₂ (Copies (encodeMessage (buildResponse query answers rcode))) answers
        records := by
  obtain ⟨hcount, hrdata⟩ := h.fits
  rw [encodeMessage_buildResponse]
  generalize hheader : (buildResponse query answers rcode).header = header
  have hstands := StandsAt.self
    (encodeHeader header ++ query.questions.flatMap encodeQuestion ++ answers.flatMap encodeRr)
  obtain ⟨hfront, hanswers⟩ := hstands.append
  obtain ⟨hheaderStands, hquestions⟩ := hfront.append
  have htwelve : (encodeHeader header).length = 12 := rfl
  simp only [List.length_append, htwelve, Nat.zero_add] at hquestions hanswers
  obtain ⟨questions, hall, hqs⟩ :=
    SequenceAt.of_standsAt (fun q hq _ hat => exists_questionAt (h.questions q hq) hat) hquestions
  obtain ⟨records, hcopies, hrs⟩ := SequenceAt.of_standsAt
    (fun rr hrr _ hat => exists_recordAt (h.owners rr hrr) (hrdata rr hrr) hat) hanswers
  have hparts : encodeHeader header = beBytes16 header.id ++ beBytes16 header.flags ++
      (octets16 header.qdcount ++ octets16 header.ancount) ++
      (beBytes16 header.nscount ++ beBytes16 header.arcount) := by
    simp only [encodeHeader, List.append_assoc]
    rfl
  rw [hparts] at hheaderStands
  refine ⟨records, .intro hheaderStands.append.1.append.2 hqs ?_ hrs ?_, hcopies⟩
  · rw [← hall.length_eq, ← h.qdcount, ← hheader]
    rfl
  · rw [← hcopies.length_eq, ← hheader]
    show answers.length = (UInt16.ofNat answers.length).toNat
    rw [UInt16.toNat_ofNat']
    exact (Nat.mod_eq_of_lt (Nat.lt_succ_of_le hcount)).symm

end

/-! ## Reading the upstream response -/

/-- What the resolver knows of a record of the upstream response. -/
structure Decoded (msg : List UInt8) (r : Record) (rr : DnsRR) : Prop where
  valid : ∀ l ∈ r.owner, ValidLabel l
  name : rr.name = nameOf (lowerName r.owner)
  carried : Carried rr.name
  rtype : rr.rtype = r.rtype
  cls : rr.cls = r.cls
  rdata : ∃ h, decodeRdata msg r.rtype r.start r.length.toNat h = some rr.rdata

section

variable {msg : List UInt8} {offset e end' : Nat}

theorem end_of_questionAt {q : Question} {question : DnsQuestion}
    (h : QuestionAt msg offset q e) (hd : decodeQuestion msg offset = some (question, end')) :
    True ∧ end' = e := by
  obtain ⟨hname, -⟩ := h
  obtain ⟨off, -, hdecode, -, -, rfl⟩ := decodeQuestion_spec hd
  obtain ⟨-, rfl⟩ := decodeName_labelsAt hname.read hdecode
  exact ⟨trivial, rfl⟩

theorem decoded_of_recordAt {r : Record} {rr : DnsRR} (h : RecordAt msg offset r e)
    (hd : decodeRr msg offset = some (rr, end')) : Decoded msg r rr ∧ end' = e := by
  obtain ⟨howner, hfixed, hstart, hroom⟩ := h
  obtain ⟨hfixed, hlength⟩ := hfixed.append
  obtain ⟨hfixed, -⟩ := hfixed.append
  obtain ⟨hrtype, hcls⟩ := hfixed.append
  simp only [List.length_append, length_octets16, length_octets32, Nat.reduceAdd] at hcls hlength
  obtain ⟨off, _, _, hdecode, hrtype', hcls', -, hrdata, rfl⟩ := decodeRr_spec hd
  obtain ⟨hname, rfl⟩ := decodeName_labelsAt howner.read hdecode
  rw [u16At_standing hrtype] at hrtype'
  rw [u16At_standing hcls] at hcls'
  refine ⟨⟨howner.read.valid, hname, ⟨_, _, _, _, _, howner, hdecode⟩, hrtype', hcls', hroom, ?_⟩,
    ?_⟩
  · simpa only [u16At_standing hlength, ← hstart, hrtype'] using hrdata
  · rw [u16At_standing hlength, hstart]

/-- A loop of `decode_message` goes over the items that are read, one by one. -/
theorem decodeMany_sequenceAt {α β : Type} {itemAt : Nat → α → Nat → Prop}
    {decode : Nat → Option (β × Nat)} {Matches : α → β → Prop} {as : List α} {items : List β}
    (hitem : ∀ offset a e item end', itemAt offset a e → decode offset = some (item, end') →
      Matches a item ∧ end' = e)
    (h : SequenceAt itemAt offset as e)
    (hd : decodeMany decode as.length offset = some (items, end')) :
    List.Forall₂ Matches as items ∧ end' = e := by
  induction h generalizing items end' with
  | nil =>
    obtain ⟨rfl, rfl⟩ := Prod.mk.inj (Option.some.inj hd)
    exact ⟨.nil, rfl⟩
  | @cons offset next e a as hfirst _ ih =>
    obtain ⟨item, off, rest, rfl, hitem', hrest⟩ := decodeMany_succ_spec hd
    obtain ⟨hmatches, rfl⟩ := hitem offset a next item off hfirst hitem'
    obtain ⟨hall, rfl⟩ := ih hrest
    exact ⟨.cons hmatches hall, rfl⟩

/-- The answers of the upstream response are decoded one by one. -/
theorem decoded_of_answersAt {records : List Record} (h : AnswersAt msg records)
    {reply : DnsMessage} (hd : decodeMessage msg = some reply) :
    List.Forall₂ (Decoded msg) records reply.answers := by
  obtain ⟨hcounts, hquestions, hqdcount, hrecords, hancount⟩ := h
  obtain ⟨hheader, off, hqs, off', hrs⟩ := decodeMessage_spec hd
  obtain ⟨hqd, han⟩ := hcounts.append
  simp only [length_octets16, Nat.reduceAdd] at han
  unfold decodeHeader at hheader
  split at hheader
  · rw [← Option.some.inj hheader] at hqs hrs
    simp only [u16At_standing hqd, u16At_standing han, ← hqdcount, ← hancount] at hqs hrs
    have hquestion : ∀ offset q e question end', QuestionAt msg offset q e →
        decodeQuestion msg offset = some (question, end') → True ∧ end' = e :=
      fun _ _ _ _ _ => end_of_questionAt
    have hrecord : ∀ offset r e rr end', RecordAt msg offset r e →
        decodeRr msg offset = some (rr, end') → Decoded msg r rr ∧ end' = e :=
      fun _ _ _ _ _ => decoded_of_recordAt
    obtain ⟨-, rfl⟩ := decodeMany_sequenceAt hquestion hquestions hqs
    exact (decodeMany_sequenceAt hrecord hrecords hrs).1
  · exact absurd hheader (by simp)

end

/-! ## The data of a record -/

section

variable {msg : List UInt8} {r : Record} {layout : Layout} {d : RecordData}

/-- The data that is written for a record whose names are decoded. -/
def relayedData (d : RecordData) : RecordData := ⟨d.front, d.names.map relayedName, d.tail⟩

theorem beBytes16_u16At {i : Nat} (h : i + 2 ≤ msg.length) :
    beBytes16 (u16At msg i h) = (msg.drop i).take 2 := by
  rw [List.drop_eq_getElem_cons (by omega), List.drop_eq_getElem_cons (by omega)]
  exact octets16_ofOctets16 _ _

theorem beBytes32_u32At {i : Nat} (h : i + 4 ≤ msg.length) :
    beBytes32 (u32At msg i h) = (msg.drop i).take 4 := by
  rw [List.drop_eq_getElem_cons (by omega), List.drop_eq_getElem_cons (by omega),
    List.drop_eq_getElem_cons (by omega), List.drop_eq_getElem_cons (by omega)]
  exact octets32_ofOctets32 _ _ _ _

/-- Numbers behind one another are written as they stood. -/
theorem beBytes32_append {i n : Nat} (h : i + 4 ≤ msg.length) :
    beBytes32 (u32At msg i h) ++ (msg.drop (i + 4)).take n = (msg.drop i).take (4 + n) := by
  rw [beBytes32_u32At, List.take_add, List.drop_drop]

/-- A `SOA` record is written with its names decoded and its numbers as they stood. -/
theorem encodeRdata_soa (hdata : DataAt msg r ⟨0, 2, 20⟩ d)
    {h : r.start + r.length.toNat ≤ msg.length} {rdata : RData}
    (hd : decodeSoa msg r.start r.length.toNat h = some rdata) :
    encodeRdata rdata = (relayedData d).written := by
  obtain ⟨front, names, tail⟩ := d
  obtain ⟨-, hfrontLength, hnames, hnamesLength, htail, htailLength, hend⟩ := hdata
  obtain rfl := List.length_eq_zero_iff.mp hfrontLength
  obtain ⟨mname, rname, rfl⟩ := List.length_eq_two.mp hnamesLength
  simp only [List.length_nil, Nat.add_zero] at hnames
  cases hnames with
  | cons hmname hnames =>
    cases hnames with
    | cons hrname hnames =>
      cases hnames
      obtain ⟨mname', o1, rname', o2, hdecode, hdecode', hfixed, rfl⟩ := decodeSoa_spec hd
      obtain ⟨rfl, rfl⟩ := decodeName_labelsAt hmname.read hdecode
      obtain ⟨rfl, rfl⟩ := decodeName_labelsAt hrname.read hdecode'
      have htake := htail.take_drop
      simp only [htailLength] at htake
      have hlast : beBytes32 (u32At msg (o2 + 16) (by omega)) =
          (msg.drop (o2 + 12 + 4)).take 4 := beBytes32_u32At _
      simp only [encodeRdata, encodeName_nameOf_pieces, relayedData, RecordData.written,
        List.append_assoc, List.map_cons, List.map_nil, List.flatMap_cons, List.flatMap_nil,
        List.nil_append, List.append_nil]
      rw [← htake, hlast, beBytes32_append, beBytes32_append, beBytes32_append, beBytes32_append]
      rfl

/-- The data of a decoded record is written with its names decoded and its numbers as they
stood, unless it is a `PTR` record. -/
theorem encodeRdata_eq_written (hlayout : nameLayout r.rtype = some layout)
    (hdata : DataAt msg r layout d) (hptr : r.rtype ≠ typePtr)
    {h : r.start + r.length.toNat ≤ msg.length} {rdata : RData}
    (hd : decodeRdata msg r.rtype r.start r.length.toNat h = some rdata) :
    encodeRdata rdata = (relayedData d).written := by
  -- what a record with one name behind some octets is written as
  have hwritten : ∀ (front : List UInt8) (labels : List Label),
      (relayedData ⟨front, [labels], []⟩).written =
        front ++ encodeName (nameOf (lowerName labels)) := by
    intro front labels
    simp [relayedData, RecordData.written, encodeName_nameOf_pieces, relayedName]
  unfold nameLayout at hlayout
  split_ifs at hlayout with hone hmx hsoa
  · obtain rfl := Option.some.inj hlayout
    obtain ⟨front, labels, rfl, hfront, -, hname⟩ := hdata.one_name
    obtain rfl := List.length_eq_zero_iff.mp hfront
    rw [hwritten, List.nil_append]
    rcases hone with hns | hcname | hptr'
    · simp only [hns] at hd
      obtain ⟨⟨name, o⟩, hdecode, rfl⟩ :=
        Option.map_eq_some_iff.mp ((decodeRdata_ns h).symm.trans hd)
      obtain ⟨rfl, -⟩ := decodeName_labelsAt hname.read hdecode
      rfl
    · simp only [hcname] at hd
      obtain ⟨⟨name, o⟩, hdecode, rfl⟩ :=
        Option.map_eq_some_iff.mp ((decodeRdata_cname h).symm.trans hd)
      obtain ⟨rfl, -⟩ := decodeName_labelsAt hname.read hdecode
      rfl
    · exact absurd hptr' hptr
  · obtain rfl := Option.some.inj hlayout
    obtain ⟨front, labels, rfl, hfront, hfrontStands, hname⟩ := hdata.one_name
    rw [hwritten]
    simp only [hmx] at hd
    have hd := (decodeRdata_mx h).symm.trans hd
    split at hd
    · obtain ⟨⟨name, o⟩, hdecode, rfl⟩ := Option.map_eq_some_iff.mp hd
      obtain ⟨rfl, -⟩ := decodeName_labelsAt hname.read hdecode
      rw [encodeRdata, beBytes16_u16At, ← hfront, hfrontStands.take_drop]
    · exact absurd hd (by simp)
  · obtain rfl := Option.some.inj hlayout
    simp only [hsoa] at hd
    exact encodeRdata_soa hdata ((decodeRdata_soa h).symm.trans hd)

/-- The data of a `PTR` record is written as it stood. -/
theorem encodeRdata_ptr (hptr : r.rtype = typePtr)
    {h : r.start + r.length.toNat ≤ msg.length} {rdata : RData}
    (hd : decodeRdata msg r.rtype r.start r.length.toNat h = some rdata) :
    encodeRdata rdata = (msg.drop r.start).take r.length.toNat := by
  simp only [hptr] at hd
  rw [decodeRdata_unknown h (by decide)] at hd
  obtain rfl := Option.some.inj hd
  rfl

end

/-! ## What a record says in the response -/

section

variable {msg response : List UInt8} {r r' : Record} {rr : DnsRR} {layout : Layout}
  {d d' : RecordData}

theorem Copies.owner_eq (hcopies : Copies response rr r') (hdecoded : Decoded msg r rr) :
    r'.owner = relayedName r.owner := by
  have howner := hcopies.owner
  rw [hdecoded.name, encodeName_nameOf_pieces] at howner
  exact (wireName_inj (valid_relayedName hdecoded.valid) hcopies.valid howner).symm

/-- Data that is written with its names decoded is read as it is written. -/
theorem Copies.dataAt (hcopies : Copies response rr r') (hdata : DataAt msg r layout d)
    (hwritten : encodeRdata rr.rdata = (relayedData d).written) :
    DataAt response r' layout (relayedData d) := by
  have hvalid := hdata.valid
  obtain ⟨-, hfront, -, hnames, -, htail, -⟩ := hdata
  refine .of_written hfront ((List.length_map _).trans hnames) htail ?_
    (hwritten ▸ hcopies.rdata) (by rw [hcopies.length, hwritten])
  intro relayed hrelayed
  obtain ⟨labels, hmem, rfl⟩ := List.mem_map.mp hrelayed
  obtain ⟨hlabels, hshort⟩ := hvalid labels hmem
  exact ⟨valid_relayedName hlabels, (length_relayedName labels).trans hshort⟩

/-- Data that is written as it stood, with its names written out, is read as upstream. -/
theorem Copies.dataAt_of_writtenOut (hcopies : Copies response rr r')
    (hdata : DataAt msg r layout d) (hwritten : encodeRdata rr.rdata = d.written) :
    DataAt response r' layout d := by
  have hvalid := hdata.valid
  obtain ⟨-, hfront, -, hnames, -, htail, -⟩ := hdata
  exact .of_written hfront hnames htail hvalid (hwritten ▸ hcopies.rdata)
    (by rw [hcopies.length, hwritten])

/-- A record says the same exactly when its data does and its owner has no dots in its
labels. -/
theorem Copies.sameRecord_iff (hcopies : Copies response rr r') (hdecoded : Decoded msg r rr) :
    SameRecord r d r' d' ↔ Undotted r.owner ∧
      d.front = d'.front ∧ List.Forall₂ SameName d.names d'.names ∧ d.tail = d'.tail := by
  rw [← sameName_relayedName_iff hdecoded.valid, ← hcopies.owner_eq hdecoded]
  constructor
  · intro h
    exact ⟨h.owner, h.front, h.names, h.tail⟩
  · rintro ⟨howner, hfront, hnames, htail⟩
    exact ⟨howner, (hcopies.rtype.trans hdecoded.rtype).symm,
      (hcopies.cls.trans hdecoded.cls).symm, hfront, hnames, htail⟩

/-- With its names decoded, data says the same exactly when they have no dots in their
labels. -/
theorem sameName_relayedData_iff (hdata : DataAt msg r layout d) :
    List.Forall₂ SameName d.names (relayedData d).names ↔
      ∀ labels ∈ d.names, Undotted labels := by
  rw [relayedData, List.forall₂_map_right_iff, List.forall₂_same]
  exact forall₂_congr fun labels hmem => sameName_relayedName_iff (hdata.valid labels hmem).1

theorem forall₂_getElem? {α β : Type} {R : α → β → Prop} {as : List α} {bs : List β}
    (h : List.Forall₂ R as bs) {i : Nat} {a : α} (ha : as[i]? = some a) :
    ∃ b, bs[i]? = some b ∧ R a b := by
  induction h generalizing i with
  | nil => simp at ha
  | cons hab _ ih =>
    cases i with
    | zero =>
      obtain rfl := Option.some.inj ha
      exact ⟨_, rfl, hab⟩
    | succ i => exact ih ha

/-- What is read for an answer of a response. -/
theorem Relays.exists_copies {query : DnsMessage} {answers : List DnsRR} {rcode : UInt8}
    (h : Relays query answers rcode) {i : Nat} (hi : answers[i]? = some rr) :
    ∃ records r', AnswersAt (encodeMessage (buildResponse query answers rcode)) records ∧
      records[i]? = some r' ∧ Copies (encodeMessage (buildResponse query answers rcode)) rr r' := by
  obtain ⟨records, hread, hall⟩ := h.answersAt
  obtain ⟨r', hr', hcopies⟩ := forall₂_getElem? hall hi
  exact ⟨records, r', hread, hr', hcopies⟩

/-- A record that keeps its meaning is read with it in any one response. -/
theorem KeepsMeaning.exists_data (h : KeepsMeaning r layout d rr) {query : DnsMessage}
    {answers : List DnsRR} {rcode : UInt8} (hrelays : Relays query answers rcode) {i : Nat}
    (hi : answers[i]? = some rr) :
    ∃ r' d', Copies (encodeMessage (buildResponse query answers rcode)) rr r' ∧
      DataAt (encodeMessage (buildResponse query answers rcode)) r' layout d' ∧
      SameRecord r d r' d' := by
  obtain ⟨records, r', hread, hr', hcopies⟩ := hrelays.exists_copies hi
  obtain ⟨records', r'', d', hread', hr'', hdata, hsame⟩ :=
    h query answers rcode hrelays i rr.ttl hi
  obtain rfl := hread.unique hread'
  obtain rfl := Option.some.inj (hr'.symm.trans hr'')
  exact ⟨r', d', hcopies, hdata, hsame⟩

end

/-! ## Responses in which a pointer leads nowhere

A pointer that is relayed leads to whatever stands at its target in the response.  A question
and a record made of the byte `0x40`, which begins no label, leave two places where a name
can be read, and these differ with the name in the question. -/

/-- A query for `name`; its type and class are bytes `0x40`. -/
def probeQuery (name : Text) : DnsMessage where
  header := { id := 0, flags := 0, qdcount := 1, ancount := 0, nscount := 0, arcount := 0 }
  questions := [⟨name, 0x4040, 0x4040⟩]
  answers := []
  authorities := []
  additionals := []

/-- A record of the root; all its other fields, and its `n` bytes of data, are bytes `0x40`. -/
def probeRr (n : Nat) : DnsRR :=
  ⟨rootName, 0x4040, 0x4040, 0x40404040, .unknown (List.replicate n 0x40)⟩

section

variable {n : Nat} {name : Text} {rr : DnsRR}

/-- So many bytes that their number is two bytes `0x40` as well. -/
theorem encodeRr_probeRr (hn : n = 0x4040) :
    encodeRr (probeRr n) = 0 :: List.replicate (10 + n) 0x40 := by
  have hroot : encodeName rootName = [0] := by decide
  have htwo : beBytes16 0x4040 = List.replicate 2 0x40 := by decide
  have hfour : beBytes32 0x40404040 = List.replicate 4 0x40 := by decide
  have hlength : beBytes16 (UInt16.ofNat (List.replicate n (0x40 : UInt8)).length) =
      List.replicate 2 0x40 := by
    rw [List.length_replicate, hn]
    exact htwo
  rw [show 10 + n = 2 + (2 + (4 + (2 + n))) by omega]
  simp only [encodeRr, probeRr, encodeRdata, hroot, htwo, hfour, hlength, List.append_assoc,
    List.replicate_add, List.cons_append, List.nil_append]

/-- What stands behind the header of the response. -/
theorem probe_standsAt (hn : n = 0x4040) (name : Text) (rr : DnsRR) :
    StandsAt (encodeMessage (buildResponse (probeQuery name) [probeRr n, rr] 0)) 12
      (encodeName name ++ (List.replicate 4 0x40 ++ 0 :: List.replicate (10 + n) 0x40)) := by
  rw [encodeMessage_buildResponse]
  refine ⟨encodeHeader (buildResponse (probeQuery name) [probeRr n, rr] 0).header, encodeRr rr,
    ?_, rfl⟩
  have hfour : ∀ bytes : List UInt8,
      beBytes16 0x4040 ++ (beBytes16 0x4040 ++ bytes) = List.replicate 4 0x40 ++ bytes :=
    fun _ => rfl
  simp only [probeQuery, List.flatMap_cons, List.flatMap_nil, List.append_nil, encodeQuestion,
    encodeRr_probeRr hn, List.append_assoc, hfour, List.cons_append]

theorem probe_relays (hn : n = 0x4040) (hname : Carried name) (hrr : Carried rr.name)
    (hrdata : (encodeRdata rr.rdata).length ≤ 1000) :
    Relays (probeQuery name) [probeRr n, rr] 0 := by
  refine ⟨rfl, ?_, ?_, ?_⟩
  · intro q hq
    obtain rfl := List.mem_singleton.mp hq
    exact hname
  · intro x hx
    simp only [List.mem_cons, List.not_mem_nil, or_false] at hx
    rcases hx with rfl | rfl
    · exact carried_rootName
    · exact hrr
  · obtain ⟨labels, -, hshort, heq⟩ := hname.encodeName_eq
    obtain ⟨owner, -, hshort', heq'⟩ := hrr.encodeName_eq
    have hheader : ∀ h : DnsHeader, (encodeHeader h).length = 12 := fun _ => rfl
    rw [encodeMessage_buildResponse]
    simp only [probeQuery, List.flatMap_cons, List.flatMap_nil, List.append_nil, encodeQuestion,
      encodeRr_probeRr hn, List.length_append, List.length_cons, List.length_replicate, hheader,
      length_beBytes16, heq]
    rw [encodeRr, heq']
    simp only [List.length_append, length_beBytes16, length_beBytes32]
    omega

/-- No name begins with the byte `0x40`. -/
theorem not_labelsAt_0x40 {msg : List UInt8} {base offset e : Nat} {labels : List Label}
    (hb : msg[offset]? = some 0x40) : ¬ LabelsAt msg base offset labels e :=
  LabelsAt.not_of_reserved hb (by decide) (by decide)

/-- With a question for the root, only the root can be read, and at two places only. -/
theorem probe_root_read (hn : n = 0x4040) {i e : Nat} {labels : List Label} (hi : i < 0x4000)
    (h : LabelsAt (encodeMessage (buildResponse (probeQuery rootName) [probeRr n, rr] 0)) 12
      (12 + i) labels e) :
    labels = [] ∧ (i = 0 ∨ i = 5) := by
  have hstands := probe_standsAt hn rootName rr
  rw [show encodeName rootName = [0] by decide] at hstands
  have hbyte := hstands.getElem?_add (i := i) (by
    simp only [List.length_append, List.length_cons, List.length_replicate, List.length_nil]
    omega)
  have hroot : ∀ {offset labels e}, LabelsAt
      (encodeMessage (buildResponse (probeQuery rootName) [probeRr n, rr] 0)) 12 offset labels e →
      (encodeMessage (buildResponse (probeQuery rootName) [probeRr n, rr] 0))[offset]? = some 0 →
      labels = [] := by
    intro offset labels e h hb
    rcases h.head hb with ⟨-, hnil⟩ | ⟨hpos, -⟩ | hle
    · exact hnil
    · exact absurd hpos (by decide)
    · exact absurd hle (by decide)
  generalize encodeMessage (buildResponse (probeQuery rootName) [probeRr n, rr] 0) = msg at *
  match i, hi, hbyte, h with
  | 0, _, hbyte, h => exact ⟨hroot h hbyte, .inl rfl⟩
  | 1, _, hbyte, h => exact absurd h (not_labelsAt_0x40 hbyte)
  | 2, _, hbyte, h => exact absurd h (not_labelsAt_0x40 hbyte)
  | 3, _, hbyte, h => exact absurd h (not_labelsAt_0x40 hbyte)
  | 4, _, hbyte, h => exact absurd h (not_labelsAt_0x40 hbyte)
  | 5, _, hbyte, h => exact ⟨hroot h hbyte, .inr rfl⟩
  | i + 6, hi, hbyte, h =>
    have hreplicate : (List.replicate (10 + n) (0x40 : UInt8))[i]? = some 0x40 := by
      rw [List.getElem?_replicate, if_pos (by omega)]
    exact absurd h (not_labelsAt_0x40 (hbyte.trans hreplicate))

/-- With a question for `a`, that name is read at the first of the two places, and none at the
second. -/
theorem probe_a_read (hn : n = 0x4040) {i e : Nat} {labels : List Label} (hi : i = 0 ∨ i = 5)
    (h : LabelsAt (encodeMessage (buildResponse (probeQuery (utf8 "a.")) [probeRr n, rr] 0)) 12
      (12 + i) labels e) :
    labels = [utf8 "a"] := by
  have hstands := probe_standsAt hn (utf8 "a.") rr
  have hwire : encodeName (utf8 "a.") = wireName [utf8 "a"] := by decide
  rw [hwire] at hstands
  rcases hi with rfl | rfl
  · refine (h.eq_of_wireName ?_ hstands.append.1).1
    intro l hl
    obtain rfl := List.mem_singleton.mp hl
    exact ⟨by decide, by decide⟩
  · have hlen : (wireName [utf8 "a"]).length = 3 := by decide
    have hbyte := hstands.append.2.append.1.getElem?_add (i := 2) (by simp)
    rw [hlen] at hbyte
    exact absurd h (not_labelsAt_0x40 hbyte)

/-- A record whose data ends in a pointer does not keep its meaning: in the two responses the
pointer does not lead to one name. -/
theorem not_keepsMeaning_of_pointer {r : Record} {d : RecordData} {front back : List Label}
    {target : Nat} (hrr : Carried rr.name) (hvalid : ∀ l ∈ front, ValidLabel l)
    (hnames : d.names = [front ++ back]) (htarget : 12 ≤ target) (hlt : target < 2 ^ 14)
    (hlen : (encodeRdata rr.rdata).length ≤ 1000)
    (hrdata : encodeRdata rr.rdata = front.flatMap wireLabel ++ pointerTo target) :
    ¬ KeepsMeaning r ⟨0, 1, 0⟩ d rr := by
  intro hkeeps
  obtain ⟨i, rfl⟩ : ∃ i, target = 12 + i := ⟨target - 12, by omega⟩
  obtain ⟨n, hn⟩ : ∃ n, n = 0x4040 := ⟨_, rfl⟩
  -- what stands at the target says the same as the rest of the name upstream
  have hread : ∀ name, Carried name → ∃ rest e,
      LabelsAt (encodeMessage (buildResponse (probeQuery name) [probeRr n, rr] 0)) 12 (12 + i)
        rest e ∧ SameName back rest := by
    intro name hname
    obtain ⟨r', d', hcopies, hdata, hsame⟩ :=
      hkeeps.exists_data (probe_relays hn hname hrr hlen) (i := 1) rfl
    obtain ⟨front', labels, rfl, hfront', -, hat⟩ := hdata.one_name
    obtain rfl := List.length_eq_zero_iff.mp hfront'
    have hstands := hcopies.rdata
    rw [hrdata] at hstands
    obtain ⟨rest, rfl, hrest⟩ := hat.read.of_labels hvalid hstands
    obtain ⟨-, e, htargetAt⟩ := hrest.of_pointer hlt hstands.append.2
    have hsameName := hsame.names
    rw [hnames] at hsameName
    simp only [List.forall₂_cons, List.forall₂_nil_left_iff, and_true] at hsameName
    exact ⟨rest, e, htargetAt, (sameName_append_left front).mp hsameName⟩
  have ha : Carried (utf8 "a.") := by
    refine carried_of_isName ⟨by decide, by decide, [utf8 "a"], by decide, ?_⟩ (by decide)
    intro l hl
    obtain rfl := List.mem_singleton.mp hl
    exact ⟨by decide, by decide, by decide⟩
  obtain ⟨rest, e, hat, hsame⟩ := hread rootName carried_rootName
  obtain ⟨rest', e', hat', hsame'⟩ := hread (utf8 "a.") ha
  obtain ⟨rfl, hi⟩ := probe_root_read hn (by omega) hat
  obtain rfl := probe_a_read hn hi hat'
  obtain rfl := sameName_nil.mp hsame.symm
  exact absurd hsame' (by decide)

end

/-! ## When a record keeps its meaning -/

section

variable {upstream : List UInt8} {r : Record} {rr : DnsRR} {layout : Layout} {d : RecordData}

theorem length_flatMap_wireName_le {names : List (List Label)}
    (h : ∀ labels ∈ names, (wireName labels).length ≤ 255) :
    (names.flatMap wireName).length ≤ names.length * 255 := by
  have hsum : (names.map fun labels => (wireName labels).length).sum ≤
      (names.map fun labels => (wireName labels).length).length • 255 := by
    refine List.sum_le_card_nsmul _ _ ?_
    intro n hn
    obtain ⟨labels, hmem, rfl⟩ := List.mem_map.mp hn
    exact h labels hmem
  rwa [List.length_map, smul_eq_mul, ← List.length_flatMap] at hsum

/-- The data of a record with names is short. -/
theorem Decoded.length_le (hdecoded : Decoded upstream r rr)
    (hlayout : nameLayout r.rtype = some layout) (hdata : DataAt upstream r layout d) :
    (encodeRdata rr.rdata).length ≤ 1000 := by
  obtain ⟨hroom, hrdata⟩ := hdecoded.rdata
  by_cases hptr : r.rtype = typePtr
  · rw [hptr] at hlayout
    obtain rfl := Option.some.inj hlayout
    obtain ⟨front, labels, rfl, -, -, hname⟩ := hdata.one_name
    have hend := hname.read.end_le
    have hshort := hname.short
    rw [encodeRdata_ptr hptr hrdata, List.length_take]
    omega
  · have hnames : ∀ labels ∈ d.names.map relayedName, (wireName labels).length ≤ 255 := by
      intro relayed hrelayed
      obtain ⟨labels, hmem, rfl⟩ := List.mem_map.mp hrelayed
      exact (length_relayedName labels).trans (hdata.valid labels hmem).2
    have hle := length_flatMap_wireName_le hnames
    have hbounds : layout.front ≤ 2 ∧ layout.names ≤ 2 ∧ layout.tail ≤ 20 := by
      unfold nameLayout at hlayout
      split_ifs at hlayout
      · obtain rfl := Option.some.inj hlayout
        exact ⟨by decide, by decide, by decide⟩
      · obtain rfl := Option.some.inj hlayout
        exact ⟨by decide, by decide, by decide⟩
      · obtain rfl := Option.some.inj hlayout
        exact ⟨by decide, by decide, by decide⟩
    rw [encodeRdata_eq_written hlayout hdata hptr hrdata]
    obtain ⟨-, hfront, -, hnamesLength, -, htail, -⟩ := hdata
    simp only [relayedData, RecordData.written, List.length_append]
    rw [List.length_map] at hle
    omega

/-- The TTL has no part in it. -/
theorem Decoded.with_ttl (h : Decoded upstream r rr) (ttl : UInt32) :
    Decoded upstream r { rr with ttl := ttl } :=
  ⟨h.valid, h.name, h.carried, h.rtype, h.cls, h.rdata⟩

/-- A record whose names are decoded keeps its meaning exactly when they have no dots in
their labels. -/
theorem keepsMeaning_iff_of_decoded (hdecoded : Decoded upstream r rr)
    (hlayout : nameLayout r.rtype = some layout) (hdata : DataAt upstream r layout d)
    (hptr : r.rtype ≠ typePtr) :
    KeepsMeaning r layout d rr ↔ Undotted r.owner ∧ ∀ labels ∈ d.names, Undotted labels := by
  obtain ⟨hroom, hrdata⟩ := hdecoded.rdata
  have hwritten := encodeRdata_eq_written hlayout hdata hptr hrdata
  rw [← sameName_relayedData_iff hdata]
  constructor
  · intro h
    obtain ⟨r', d', hcopies, hdata', hsame⟩ := h.exists_data
      (probe_relays rfl carried_rootName hdecoded.carried (hdecoded.length_le hlayout hdata))
      (i := 1) rfl
    obtain rfl := hdata'.unique (hcopies.dataAt hdata hwritten)
    obtain ⟨howner, -, hnames, -⟩ := (hcopies.sameRecord_iff hdecoded).mp hsame
    exact ⟨howner, hnames⟩
  · rintro ⟨howner, hnames⟩ query answers rcode hrelays i ttl hi
    obtain ⟨records, r', hread, hr', hcopies⟩ := hrelays.exists_copies hi
    exact ⟨records, r', relayedData d, hread, hr', hcopies.dataAt hdata hwritten,
      (hcopies.sameRecord_iff (hdecoded.with_ttl ttl)).mpr ⟨howner, rfl, hnames, rfl⟩⟩

/-- A `PTR` record that is relayed with its meaning has the name in its data written out. -/
theorem writtenOut_of_keepsMeaning (hdecoded : Decoded upstream r rr) (hptr : r.rtype = typePtr)
    (hdata : DataAt upstream r ⟨0, 1, 0⟩ d) (h : KeepsMeaning r ⟨0, 1, 0⟩ d rr) :
    StandsAt upstream r.start d.written := by
  have hlayout : nameLayout r.rtype = some ⟨0, 1, 0⟩ := by
    rw [hptr]
    rfl
  have hlen := hdecoded.length_le hlayout hdata
  obtain ⟨hroom, hrdata⟩ := hdecoded.rdata
  obtain ⟨front, labels, rfl, hfront, -, hname⟩ := hdata.one_name
  obtain rfl := List.length_eq_zero_iff.mp hfront
  rcases hname.read.writtenOut_or_pointer with
    ⟨hstands, -⟩ | ⟨front, back, target, e, rfl, htarget, hlt, hstands, hend, -⟩
  · simpa [RecordData.written] using hstands
  · -- the pointer is relayed
    have hlength : r.length.toNat = (front.flatMap wireLabel ++ pointerTo target).length := by
      omega
    refine absurd h (not_keepsMeaning_of_pointer hdecoded.carried ?_ rfl htarget hlt hlen ?_)
    · intro l hl
      exact hname.read.valid l (List.mem_append_left _ hl)
    · rw [encodeRdata_ptr hptr hrdata, hlength]
      exact hstands.take_drop

/-- A `PTR` record whose name is written out is relayed as it stood. -/
theorem encodeRdata_ptr_writtenOut (hdecoded : Decoded upstream r rr) (hptr : r.rtype = typePtr)
    (hdata : DataAt upstream r ⟨0, 1, 0⟩ d) (hstands : StandsAt upstream r.start d.written) :
    encodeRdata rr.rdata = d.written := by
  obtain ⟨hroom, hrdata⟩ := hdecoded.rdata
  obtain ⟨front, labels, rfl, hfront, -, hname⟩ := hdata.one_name
  obtain rfl := List.length_eq_zero_iff.mp hfront
  have hwire : RecordData.written ⟨[], [labels], []⟩ = wireName labels := by
    simp [RecordData.written]
  rw [hwire] at hstands ⊢
  have hend := (hname.read.eq_of_wireName hname.read.valid hstands).2
  have hlength : r.length.toNat = (wireName labels).length := by omega
  rw [encodeRdata_ptr hptr hrdata, hlength]
  exact hstands.take_drop

/-- A `PTR` record keeps its meaning exactly when the name in its data is written out and its
owner has no dots in its labels. -/
theorem keepsMeaning_iff_of_ptr (hdecoded : Decoded upstream r rr) (hptr : r.rtype = typePtr)
    (hdata : DataAt upstream r ⟨0, 1, 0⟩ d) :
    KeepsMeaning r ⟨0, 1, 0⟩ d rr ↔ Undotted r.owner ∧ StandsAt upstream r.start d.written := by
  have hlayout : nameLayout r.rtype = some ⟨0, 1, 0⟩ := by
    rw [hptr]
    rfl
  have hnames : List.Forall₂ SameName d.names d.names := List.forall₂_same.mpr fun _ _ => rfl
  constructor
  · intro h
    have hstands := writtenOut_of_keepsMeaning hdecoded hptr hdata h
    obtain ⟨r', d', hcopies, -, hsame⟩ := h.exists_data
      (probe_relays rfl carried_rootName hdecoded.carried (hdecoded.length_le hlayout hdata))
      (i := 1) rfl
    exact ⟨((hcopies.sameRecord_iff hdecoded).mp hsame).1, hstands⟩
  · rintro ⟨howner, hstands⟩ query answers rcode hrelays i ttl hi
    have hwritten := encodeRdata_ptr_writtenOut hdecoded hptr hdata hstands
    obtain ⟨records, r', hread, hr', hcopies⟩ := hrelays.exists_copies hi
    exact ⟨records, r', d, hread, hr', hcopies.dataAt_of_writtenOut hdata hwritten,
      (hcopies.sameRecord_iff (hdecoded.with_ttl ttl)).mpr ⟨howner, rfl, hnames, rfl⟩⟩

/-- **When a relayed record keeps its meaning.**  Take any upstream response that an RFC 1035
reader can read and that the resolver decodes, and any of its answers of a type with names
in its data.  The record keeps its meaning in every response that has it among its answers,
if and only if there is no dot in a label of its owner, and either it is a `PTR` record and
the name in its data is written out, or it is none and there is no dot in a label of the
names in its data. -/
theorem relayed_iff {records : List Record} (hread : AnswersAt upstream records)
    {reply : DnsMessage} (hdecode : decodeMessage upstream = some reply) {j : Nat}
    (hr : records[j]? = some r) (hrr : reply.answers[j]? = some rr)
    (hlayout : nameLayout r.rtype = some layout) (hdata : DataAt upstream r layout d) :
    KeepsMeaning r layout d rr ↔
      Undotted r.owner ∧
        if r.rtype = typePtr then StandsAt upstream r.start d.written
        else ∀ labels ∈ d.names, Undotted labels := by
  obtain ⟨rr', hrr', hdecoded⟩ := forall₂_getElem? (decoded_of_answersAt hread hdecode) hr
  obtain rfl := Option.some.inj (hrr.symm.trans hrr')
  split_ifs with hptr
  · obtain rfl : ⟨0, 1, 0⟩ = layout := by
      rw [hptr] at hlayout
      exact Option.some.inj hlayout
    exact keepsMeaning_iff_of_ptr hdecoded hptr hdata
  · exact keepsMeaning_iff_of_decoded hdecoded hlayout hdata hptr

end

/-! ## Two PTR records -/

/-- A response with two `PTR` records for `h`: `x.y`, which is written out, and `z.y`, which
ends in a pointer into the first. -/
def demoPtrUpstream : List UInt8 :=
  [0, 7, 0x81, 0x80, 0, 1, 0, 2, 0, 0, 0, 0] ++ (wireName [utf8 "h"] ++ [0, 12, 0, 1]) ++
    (pointerTo 12 ++ [0, 12, 0, 1, 0, 0, 0, 60, 0, 5] ++ wireName [utf8 "x", utf8 "y"]) ++
    (pointerTo 12 ++ [0, 12, 0, 1, 0, 0, 0, 60, 0, 4] ++ wireLabel (utf8 "z") ++ pointerTo 33)

/-- One of the two records. -/
def demoPtrRecord (start : Nat) (length : UInt16) : Record where
  owner := [utf8 "h"]
  rtype := 12
  cls := 1
  ttl := 60
  start := start
  length := length

/-- The same record as the resolver has it. -/
def demoPtrRr (data : List UInt8) : DnsRR := ⟨utf8 "h.", typePtr, classIn, 60, .unknown data⟩

/-- The two records as the resolver has them. -/
def demoPtrAnswers : List DnsRR :=
  [demoPtrRr (wireName [utf8 "x", utf8 "y"]), demoPtrRr (wireLabel (utf8 "z") ++ pointerTo 33)]

theorem demoPtr_decode :
    (decodeMessage demoPtrUpstream).map (·.answers) = some demoPtrAnswers := by decide +kernel

theorem demoPtr_valid {labels : List Label}
    (h : labels ∈ [[utf8 "h"], [utf8 "y"], [utf8 "z"], [utf8 "x", utf8 "y"]]) :
    ∀ l ∈ labels, ValidLabel l := by
  have hlength : ∀ labels ∈ [[utf8 "h"], [utf8 "y"], [utf8 "z"], [utf8 "x", utf8 "y"]],
      ∀ l ∈ labels, 0 < l.length ∧ l.length ≤ 63 := by decide
  intro l hl
  exact ⟨(hlength labels h l hl).1, (hlength labels h l hl).2⟩

theorem demoPtr_answersAt :
    AnswersAt demoPtrUpstream [demoPtrRecord 31 5, demoPtrRecord 48 4] := by
  have hquestion : LabelsAt demoPtrUpstream 12 12 [utf8 "h"] 15 :=
    .of_wireName 12 (demoPtr_valid (by simp)) (by decide)
  have howner : ∀ offset, StandsAt demoPtrUpstream offset (pointerTo 12) →
      NameAt demoPtrUpstream offset [utf8 "h"] (offset + 2) :=
    fun offset h => ⟨.pointer (by decide) (by decide) h hquestion, by decide⟩
  have hcounts : StandsAt demoPtrUpstream 4 (octets16 1 ++ octets16 2) := by decide
  have hquestions : SequenceAt (QuestionAt demoPtrUpstream) 12 [⟨[utf8 "h"], 12, 1⟩] 19 :=
    .cons (.intro ⟨hquestion, by decide⟩ (by decide)) .nil
  have hrecords : SequenceAt (RecordAt demoPtrUpstream) 19
      [demoPtrRecord 31 5, demoPtrRecord 48 4] 52 :=
    .cons (.intro (howner 19 (by decide)) (by decide) rfl (by decide))
      (.cons (.intro (howner 36 (by decide)) (by decide) rfl (by decide)) .nil)
  exact .intro hcounts hquestions rfl hrecords rfl

theorem demoPtr_writtenOut :
    DataAt demoPtrUpstream (demoPtrRecord 31 5) ⟨0, 1, 0⟩
      ⟨[], [[utf8 "x", utf8 "y"]], []⟩ := by
  refine .of_written rfl rfl rfl ?_ (by decide) (by decide)
  intro labels hlabels
  obtain rfl := List.mem_singleton.mp hlabels
  exact ⟨demoPtr_valid (by simp), by decide⟩

theorem demoPtr_pointer :
    DataAt demoPtrUpstream (demoPtrRecord 48 4) ⟨0, 1, 0⟩
      ⟨[], [[utf8 "z", utf8 "y"]], []⟩ := by
  have htail : LabelsAt demoPtrUpstream 12 33 [utf8 "y"] 36 :=
    .of_wireName 12 (demoPtr_valid (by simp)) (by decide)
  have hz : ∀ l ∈ [utf8 "z"], ValidLabel l := demoPtr_valid (by simp)
  have hname : LabelsAt demoPtrUpstream 12 48 [utf8 "z", utf8 "y"] 52 :=
    .label (hz _ (by simp)) (by decide) (.pointer (by decide) (by decide) (by decide) htail)
  exact .intro (e := 52) (by decide) rfl (.cons ⟨hname, by decide⟩ .nil) rfl (by decide) rfl rfl

/-- The first record keeps its meaning. -/
theorem demo_writtenOut_relayed :
    KeepsMeaning (demoPtrRecord 31 5) ⟨0, 1, 0⟩ ⟨[], [[utf8 "x", utf8 "y"]], []⟩
      (demoPtrRr (wireName [utf8 "x", utf8 "y"])) := by
  obtain ⟨reply, hdecode, hanswers⟩ := Option.map_eq_some_iff.mp demoPtr_decode
  have hrr : reply.answers[0]? = some (demoPtrRr (wireName [utf8 "x", utf8 "y"])) := by
    rw [hanswers]
    rfl
  refine (relayed_iff demoPtr_answersAt hdecode rfl hrr rfl demoPtr_writtenOut).mpr ⟨by decide, ?_⟩
  rw [if_pos (by decide)]
  decide

/-- The second does not: the client that has asked for `h` gets a response in which its
pointer leads into the middle of a label. -/
theorem demo_pointer_relayed :
    AnswersAt demoPtrUpstream [demoPtrRecord 31 5, demoPtrRecord 48 4] ∧
      (decodeMessage demoPtrUpstream).map (·.answers) = some demoPtrAnswers ∧
      DataAt demoPtrUpstream (demoPtrRecord 48 4) ⟨0, 1, 0⟩
        ⟨[], [[utf8 "z", utf8 "y"]], []⟩ ∧
      Relays (queryMessage 9 (utf8 "h.") typePtr) demoPtrAnswers rcodeNoerror ∧
      ∀ records r d, AnswersAt (encodeMessage
          (buildResponse (queryMessage 9 (utf8 "h.") typePtr) demoPtrAnswers rcodeNoerror))
          records → records[1]? = some r →
        ¬ DataAt (encodeMessage
          (buildResponse (queryMessage 9 (utf8 "h.") typePtr) demoPtrAnswers rcodeNoerror))
          r ⟨0, 1, 0⟩ d := by
  have hname : Carried (utf8 "h.") := by
    refine carried_of_isName ⟨by decide, by decide, [utf8 "h"], by decide, ?_⟩ (by decide)
    intro l hl
    obtain rfl := List.mem_singleton.mp hl
    exact ⟨by decide, by decide, by decide⟩
  have hrelays : Relays (queryMessage 9 (utf8 "h.") typePtr) demoPtrAnswers rcodeNoerror := by
    refine ⟨rfl, ?_, ?_, by decide⟩
    · intro q hq
      obtain rfl := List.mem_singleton.mp hq
      exact hname
    · intro rr hrr
      simp only [demoPtrAnswers, List.mem_cons, List.not_mem_nil, or_false] at hrr
      rcases hrr with rfl | rfl
      · exact hname
      · exact hname
  refine ⟨demoPtr_answersAt, demoPtr_decode, demoPtr_pointer, hrelays, ?_⟩
  intro records r d hread hr hdata
  obtain ⟨records', r', hread', hr', hcopies⟩ := hrelays.exists_copies (i := 1) rfl
  obtain rfl := hread.unique hread'
  obtain rfl := Option.some.inj (hr.symm.trans hr')
  obtain ⟨front, labels, rfl, hfront, -, hat⟩ := hdata.one_name
  obtain rfl := List.length_eq_zero_iff.mp hfront
  have hstands : StandsAt _ r.start ([utf8 "z"].flatMap wireLabel ++ pointerTo 33) := hcopies.rdata
  obtain ⟨rest, -, hrest⟩ := hat.read.of_labels (demoPtr_valid (by simp)) hstands
  obtain ⟨-, e, htarget⟩ := hrest.of_pointer (by decide) hstands.append.2
  exact LabelsAt.not_of_reserved (b := 0x78) (by decide) (by decide) (by decide) htarget

end PpcaNetwork.Dns
