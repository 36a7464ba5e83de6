import PpcaNetwork.Lib.DomainName

/-!
# Resource records in messages

How RFC 1035 reads a message: the questions and the answers behind the header, and the data
of the record types that have domain names in it.  The reader follows pointers, so the place
of a record and the message around it matter for what it says.

* `AnswersAt` — the answers of a message.
* `DataAt` — the data of one of its records: octets, names and octets again.
* `AnswersAt.unique`, `DataAt.unique` — a message is read in one way at most.
* `SameRecord` — records that say the same.
-/

namespace PpcaNetwork

/-! ## The reader -/

/-- A name of 255 octets at most, whose pointers lead behind the header. -/
structure NameAt (msg : List UInt8) (offset : Nat) (labels : List Label) (e : Nat) : Prop where
  read : LabelsAt msg 12 offset labels e
  short : (wireName labels).length ≤ 255

/-- An entry of the question section. -/
structure Question where
  name : List Label
  qtype : UInt16
  qclass : UInt16

/-- A question at an offset, and where the reader goes on. -/
inductive QuestionAt (msg : List UInt8) : Nat → Question → Nat → Prop
  | intro {offset next : Nat} {q : Question} (hname : NameAt msg offset q.name next)
      (hfixed : StandsAt msg next (octets16 q.qtype ++ octets16 q.qclass)) :
      QuestionAt msg offset q (next + 4)

/-- A record, with the place of its data. -/
structure Record where
  owner : List Label
  rtype : UInt16
  cls : UInt16
  ttl : UInt32
  start : Nat
  length : UInt16

/-- The fields of a record between its owner and its data. -/
def Record.fixed (r : Record) : List UInt8 :=
  octets16 r.rtype ++ octets16 r.cls ++ octets32 r.ttl ++ octets16 r.length

/-- A record at an offset, and where the reader goes on. -/
inductive RecordAt (msg : List UInt8) : Nat → Record → Nat → Prop
  | intro {offset next : Nat} {r : Record} (howner : NameAt msg offset r.owner next)
      (hfixed : StandsAt msg next r.fixed) (hstart : r.start = next + 10)
      (hroom : r.start + r.length.toNat ≤ msg.length) :
      RecordAt msg offset r (r.start + r.length.toNat)

/-- The answers of a message. -/
inductive AnswersAt (msg : List UInt8) (records : List Record) : Prop
  | intro {qdcount ancount : UInt16} {questions : List Question} {next e : Nat}
      (hcounts : StandsAt msg 4 (octets16 qdcount ++ octets16 ancount))
      (hquestions : SequenceAt (QuestionAt msg) 12 questions next)
      (hqdcount : questions.length = qdcount.toNat)
      (hrecords : SequenceAt (RecordAt msg) next records e)
      (hancount : records.length = ancount.toNat)

/-- The octets in front of the names of some data, the number of the names, and the octets
behind them. -/
structure Layout where
  front : Nat
  names : Nat
  tail : Nat

/-- The record types that have names in their data: `NS`, `CNAME`, `PTR`, `MX` and `SOA`. -/
def nameLayout (rtype : UInt16) : Option Layout :=
  if rtype = 2 ∨ rtype = 5 ∨ rtype = 12 then some ⟨0, 1, 0⟩
  else if rtype = 15 then some ⟨2, 1, 0⟩
  else if rtype = 6 then some ⟨0, 2, 20⟩
  else none

/-- What the data of a record says. -/
structure RecordData where
  front : List UInt8
  names : List (List Label)
  tail : List UInt8

/-- The data with its names written out. -/
def RecordData.written (d : RecordData) : List UInt8 :=
  d.front ++ d.names.flatMap wireName ++ d.tail

/-- What is read in the data of a record. -/
inductive DataAt (msg : List UInt8) (r : Record) (layout : Layout) (d : RecordData) : Prop
  | intro {e : Nat} (hfront : StandsAt msg r.start d.front)
      (hfrontLength : d.front.length = layout.front)
      (hnames : SequenceAt (NameAt msg) (r.start + d.front.length) d.names e)
      (hnamesLength : d.names.length = layout.names)
      (htail : StandsAt msg e d.tail)
      (htailLength : d.tail.length = layout.tail)
      (hend : e + d.tail.length = r.start + r.length.toNat)

/-- Records that say the same: of one owner, type and class, and with the same names and
numbers in their data. -/
structure SameRecord (r : Record) (d : RecordData) (r' : Record) (d' : RecordData) : Prop where
  owner : SameName r.owner r'.owner
  rtype : r.rtype = r'.rtype
  cls : r.cls = r'.cls
  front : d.front = d'.front
  names : List.Forall₂ SameName d.names d'.names
  tail : d.tail = d'.tail

/-! ## One way to read a message -/

section

variable {msg : List UInt8} {offset e e' : Nat}

theorem NameAt.unique {labels labels' : List Label} (h : NameAt msg offset labels e)
    (h' : NameAt msg offset labels' e') : labels = labels' ∧ e = e' :=
  h.read.unique h'.read

theorem octets16_append_inj {x y : UInt16} {s t : List UInt8}
    (h : octets16 x ++ s = octets16 y ++ t) : x = y ∧ s = t := by
  obtain ⟨hxy, hst⟩ := List.append_inj h rfl
  simp only [octets16, List.cons.injEq, and_true] at hxy
  rw [← ofOctets16_octets16 x, hxy.1, hxy.2, ofOctets16_octets16]
  exact ⟨rfl, hst⟩

theorem octets16_inj {x y : UInt16} (h : octets16 x = octets16 y) : x = y :=
  (octets16_append_inj (s := []) (t := []) (by rw [h])).1

theorem octets32_append_inj {x y : UInt32} {s t : List UInt8}
    (h : octets32 x ++ s = octets32 y ++ t) : x = y ∧ s = t := by
  obtain ⟨hxy, hst⟩ := List.append_inj h rfl
  simp only [octets32, List.cons.injEq, and_true] at hxy
  obtain ⟨h0, h1, h2, h3⟩ := hxy
  rw [← ofOctets32_octets32 x, h0, h1, h2, h3, ofOctets32_octets32]
  exact ⟨rfl, hst⟩

theorem QuestionAt.unique {q q' : Question} (h : QuestionAt msg offset q e)
    (h' : QuestionAt msg offset q' e') : q = q' ∧ e = e' := by
  obtain ⟨name, qtype, qclass⟩ := q
  obtain ⟨name', qtype', qclass'⟩ := q'
  obtain ⟨hname, hfixed⟩ := h
  obtain ⟨hname', hfixed'⟩ := h'
  obtain ⟨hnames, rfl⟩ := hname.unique hname'
  obtain ⟨hqtype, heq⟩ := octets16_append_inj (hfixed.unique hfixed' rfl)
  have hqclass := octets16_inj heq
  clear heq
  simp only at hnames hqtype hqclass
  subst hnames hqtype hqclass
  exact ⟨rfl, rfl⟩

theorem RecordAt.unique {r r' : Record} (h : RecordAt msg offset r e)
    (h' : RecordAt msg offset r' e') : r = r' ∧ e = e' := by
  obtain ⟨owner, rtype, cls, ttl, start, length⟩ := r
  obtain ⟨owner', rtype', cls', ttl', start', length'⟩ := r'
  obtain ⟨howner, hfixed, hstart, -⟩ := h
  obtain ⟨howner', hfixed', hstart', -⟩ := h'
  obtain ⟨howners, rfl⟩ := howner.unique howner'
  have heq := hfixed.unique hfixed' rfl
  simp only [Record.fixed, List.append_assoc] at heq
  obtain ⟨hrtype, heq⟩ := octets16_append_inj heq
  obtain ⟨hcls, heq⟩ := octets16_append_inj heq
  obtain ⟨httl, heq⟩ := octets32_append_inj heq
  have hlength := octets16_inj heq
  simp only at howners hstart hstart'
  subst howners hrtype hcls httl hlength hstart hstart'
  exact ⟨rfl, rfl⟩

/-- A message has one list of answers at most. -/
theorem AnswersAt.unique {records records' : List Record} (h : AnswersAt msg records)
    (h' : AnswersAt msg records') : records = records' := by
  obtain ⟨hcounts, hquestions, hqdcount, hrecords, hancount⟩ := h
  obtain ⟨hcounts', hquestions', hqdcount', hrecords', hancount'⟩ := h'
  obtain ⟨rfl, heq⟩ := octets16_append_inj (hcounts.unique hcounts' rfl)
  obtain rfl := octets16_inj heq
  obtain ⟨-, rfl⟩ := hquestions.unique hquestions' (hqdcount.trans hqdcount'.symm)
    fun _ _ _ _ _ => QuestionAt.unique
  exact (hrecords.unique hrecords' (hancount.trans hancount'.symm)
    fun _ _ _ _ _ => RecordAt.unique).1

/-- The data of a record is read in one way at most. -/
theorem DataAt.unique {r : Record} {layout : Layout} {d d' : RecordData}
    (h : DataAt msg r layout d) (h' : DataAt msg r layout d') : d = d' := by
  obtain ⟨front, names, tail⟩ := d
  obtain ⟨front', names', tail'⟩ := d'
  obtain ⟨hfront, hfrontLength, hnames, hnamesLength, htail, htailLength, -⟩ := h
  obtain ⟨hfront', hfrontLength', hnames', hnamesLength', htail', htailLength', -⟩ := h'
  obtain rfl : front = front' := hfront.unique hfront' (hfrontLength.trans hfrontLength'.symm)
  obtain ⟨rfl, rfl⟩ : names = names' ∧ _ :=
    hnames.unique hnames' (hnamesLength.trans hnamesLength'.symm) fun _ _ _ _ _ => NameAt.unique
  obtain rfl : tail = tail' := htail.unique htail' (htailLength.trans htailLength'.symm)
  rfl

/-! ## Data that is written out -/

theorem DataAt.valid {r : Record} {layout : Layout} {d : RecordData}
    (h : DataAt msg r layout d) :
    ∀ labels ∈ d.names, (∀ l ∈ labels, ValidLabel l) ∧ (wireName labels).length ≤ 255 := by
  obtain ⟨-, -, hnames, -, -, -, -⟩ := h
  intro labels hmem
  obtain ⟨_, _, hname⟩ := hnames.exists_itemAt labels hmem
  exact ⟨hname.read.valid, hname.short⟩

/-- Data that is a number of octets and one name. -/
theorem DataAt.one_name {r : Record} {n : Nat} {d : RecordData} (h : DataAt msg r ⟨n, 1, 0⟩ d) :
    ∃ front labels, d = ⟨front, [labels], []⟩ ∧ front.length = n ∧ StandsAt msg r.start front ∧
      NameAt msg (r.start + n) labels (r.start + r.length.toNat) := by
  obtain ⟨front, names, tail⟩ := d
  obtain ⟨hfront, rfl, hnames, hnamesLength, -, htailLength, hend⟩ := h
  obtain ⟨labels, rfl⟩ := List.length_eq_one_iff.mp hnamesLength
  obtain rfl := List.length_eq_zero_iff.mp htailLength
  cases hnames with
  | cons hname hrest =>
    cases hrest
    exact ⟨front, labels, rfl, rfl, hfront, hend ▸ hname⟩

/-- Data whose names are written out is read wherever it stands. -/
theorem DataAt.of_written {r : Record} {layout : Layout} {d : RecordData}
    (hfront : d.front.length = layout.front) (hnames : d.names.length = layout.names)
    (htail : d.tail.length = layout.tail)
    (hvalid : ∀ labels ∈ d.names, (∀ l ∈ labels, ValidLabel l) ∧ (wireName labels).length ≤ 255)
    (hstands : StandsAt msg r.start d.written) (hlength : d.written.length = r.length.toNat) :
    DataAt msg r layout d := by
  obtain ⟨hboth, htailStands⟩ := hstands.append
  obtain ⟨hfrontStands, hnamesStand⟩ := hboth.append
  have hitem : ∀ labels ∈ d.names, ∀ offset, StandsAt msg offset (wireName labels) →
      ∃ labels', labels = labels' ∧
        NameAt msg offset labels' (offset + (wireName labels).length) := by
    intro labels hmem offset hat
    obtain ⟨hlabels, hshort⟩ := hvalid labels hmem
    exact ⟨labels, rfl, .of_wireName 12 hlabels hat, hshort⟩
  obtain ⟨names, hall, hread⟩ := SequenceAt.of_standsAt hitem hnamesStand
  obtain rfl : d.names = names := by simpa using hall
  simp only [List.length_append, ← Nat.add_assoc] at htailStands
  refine .intro hfrontStands hfront hread hnames htailStands htail ?_
  rw [← hlength]
  simp only [RecordData.written, List.length_append, Nat.add_assoc]

end

end PpcaNetwork
