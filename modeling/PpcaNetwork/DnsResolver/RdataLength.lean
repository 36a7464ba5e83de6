import PpcaNetwork.DnsResolver.NameWalks

/-!
# Data that fill their length

A record has its data in as many bytes as RDLENGTH says.  `decode_rdata` cuts out these bytes,
and reads the typed data from the whole message with a length test of its own for each type.

* `InPlaceName` — a name up to the root or its first pointer.
* `DataInFull`, `RecordInFull` — bytes that are data of a type on their own, and a record
  with such data.
* `BehindPointer` — the bytes that are read behind the pointers of a name.
* `RdataFills` — the decoder reads the bytes that RDLENGTH counts, and what it returns depends
  on nothing else.
* `rdata_fills_iff` — when it does.
-/

namespace PpcaNetwork.Dns

/-! ## Data in place -/

/-- The bytes of a name up to the root or its first pointer. -/
inductive InPlaceName : List UInt8 → Prop
  | root : InPlaceName [0]
  | pointer {target : Nat} (hlt : target < 2 ^ 14) : InPlaceName (pointerTo target)
  | label {l : Label} {bytes : List UInt8} (hne : l ≠ []) (hle : l.length ≤ 191)
      (hrest : InPlaceName bytes) : InPlaceName (wireLabel l ++ bytes)

/-- The bytes are data of the type, and nothing else. -/
def DataInFull (rtype : UInt16) (data : List UInt8) : Prop :=
  if rtype = typeA then data.length = 4
  else if rtype = typeAaaa then data.length = 16
  else if rtype = typeNs ∨ rtype = typeCname then InPlaceName data
  else if rtype = typeMx then
    ∃ preference exchange, data = preference ++ exchange ∧ preference.length = 2 ∧
      InPlaceName exchange
  else if rtype = typeSoa then
    ∃ mname rname numbers, data = mname ++ (rname ++ numbers) ∧ InPlaceName mname ∧
      InPlaceName rname ∧ numbers.length = 20
  else False

/-- A name, the ten bytes of the fixed header, and as many bytes as its last two say, which are
data of the type in its first two. -/
def RecordInFull (msg : List UInt8) (offset : Nat) : Prop :=
  ∃ owner header data, InPlaceName owner ∧ header.length = 10 ∧
    StandsAt msg offset (owner ++ (header ++ data)) ∧
    data.length = (ofBeBytes16 (header.getD 8 0) (header.getD 9 0)).toNat ∧
    DataInFull (ofBeBytes16 (header.getD 0 0) (header.getD 1 0)) data

/-! ## What is read -/

/-- The bytes that are looked at from `offset` on, wherever pointers lead. -/
inductive LooksAt (msg : List UInt8) : Nat → Nat → Prop
  | first {offset : Nat} : LooksAt msg offset offset
  | label {offset k : Nat} {b : UInt8} (h : msg[offset]? = some b) (hlow : b.toNat < 192)
      (hk : k < b.toNat) : LooksAt msg offset (offset + 1 + k)
  | next {offset i : Nat} {b : UInt8} (h : msg[offset]? = some b) (hpos : 0 < b.toNat)
      (hlow : b.toNat < 192) (hrest : LooksAt msg (offset + 1 + b.toNat) i) :
      LooksAt msg offset i
  | second {offset : Nat} {b : UInt8} (h : msg[offset]? = some b) (hhigh : 192 ≤ b.toNat) :
      LooksAt msg offset (offset + 1)
  | target {offset target i : Nat} (hlt : target < 2 ^ 14)
      (h : StandsAt msg offset (pointerTo target)) (hrest : LooksAt msg target i) :
      LooksAt msg offset i

/-- The bytes among them that are looked at behind the first pointer. -/
inductive BehindPointer (msg : List UInt8) : Nat → Nat → Prop
  | next {offset i : Nat} {b : UInt8} (h : msg[offset]? = some b) (hpos : 0 < b.toNat)
      (hlow : b.toNat < 192) (hrest : BehindPointer msg (offset + 1 + b.toNat) i) :
      BehindPointer msg offset i
  | target {offset target i : Nat} (hlt : target < 2 ^ 14)
      (h : StandsAt msg offset (pointerTo target)) (hrest : LooksAt msg target i) :
      BehindPointer msg offset i

/-- Where `decode_rdata` stops reading typed data that start at `start`. -/
def dataEnd (msg : List UInt8) (rtype : UInt16) (start : Nat) : Option Nat :=
  if rtype = typeA then some (start + 4)
  else if rtype = typeAaaa then some (start + 16)
  else if rtype = typeNs ∨ rtype = typeCname then (decodeName msg start).map (·.2)
  else if rtype = typeMx then (decodeName msg (start + 2)).map (·.2)
  else if rtype = typeSoa then
    (decodeName msg start).bind fun r => (decodeName msg r.2).map (·.2 + 20)
  else none

/-- Where the names in the data start. -/
def dataNames (msg : List UInt8) (rtype : UInt16) (start : Nat) : List Nat :=
  if rtype = typeNs ∨ rtype = typeCname then [start]
  else if rtype = typeMx then [start + 2]
  else if rtype = typeSoa then start :: ((decodeName msg start).map (·.2)).toList
  else []

/-- The messages have the same byte at this place, or both end before it. -/
def SameByte (msg msg' : List UInt8) (i : Nat) : Prop := msg'[i]? = msg[i]?

/-- The typed data of a record fill its RDLENGTH: behind the fixed header exactly these bytes
are read, and any message that has the same record there, and the same bytes behind the
pointers of its names, has it decoded as the same. -/
structure RdataFills (msg : List UInt8) (offset : Nat) (rr : DnsRR) (end' : Nat) : Prop where
  consumed : ∀ name off, decodeName msg offset = some (name, off) →
    dataEnd msg rr.rtype (off + 10) = some end'
  independent : ∀ msg', (∀ i, offset ≤ i → i < end' → SameByte msg msg' i) →
    (∀ name off, decodeName msg offset = some (name, off) →
      ∀ n ∈ offset :: dataNames msg rr.rtype (off + 10),
        ∀ i, BehindPointer msg n i → SameByte msg msg' i) →
    decodeRr msg' offset = some (rr, end')

/-! ## Names in place -/

namespace NameWalk

variable {msg : List UInt8} {visited : List Nat} {offset e : Nat} {labels : List Label}

/-- What stands between the start and the end of a name. -/
theorem inPlace (h : NameWalk msg visited offset labels e) :
    ∃ bytes, InPlaceName bytes ∧ StandsAt msg offset bytes ∧ e = offset + bytes.length := by
  induction h with
  | root h => exact ⟨[0], .root, h, rfl⟩
  | label hl h _ ih =>
    obtain ⟨bytes, hbytes, hstands, rfl⟩ := ih
    refine ⟨_, .label hl.ne_nil hl.length_le hbytes, h.join hstands, ?_⟩
    rw [List.length_append, Nat.add_assoc]
  | pointer hlt _ h => exact ⟨_, .pointer hlt, h, rfl⟩

/-- A name ends behind what stands in place. -/
theorem eq_of_inPlace {bytes : List UInt8} (hbytes : InPlaceName bytes)
    (h : NameWalk msg visited offset labels e) (hstands : StandsAt msg offset bytes) :
    e = offset + bytes.length := by
  induction hbytes generalizing offset labels with
  | root => exact (h.eq_of_root hstands).2
  | pointer hlt => exact (h.of_pointer hlt hstands).1
  | label hne hle _ ih =>
    obtain ⟨rest, -, hrest⟩ := h.of_label hne hle hstands.append.1
    rw [ih hrest hstands.append.2, List.length_append, Nat.add_assoc]

end NameWalk

/-! ## Messages with the same bytes -/

namespace NameWalk

variable {msg msg' : List UInt8} {visited : List Nat} {offset e : Nat} {labels : List Label}

/-- A message with the same bytes wherever the reader looks has the same name. -/
theorem congr_looksAt (h : NameWalk msg visited offset labels e)
    (hsame : ∀ i, LooksAt msg offset i → SameByte msg msg' i) :
    NameWalk msg' visited offset labels e := by
  induction h with
  | @root _ offset h =>
    refine .root (h.congr (by simp) fun i hlo hhi => ?_)
    rw [List.length_singleton] at hhi
    obtain rfl : i = offset := by omega
    exact hsame i .first
  | @label _ offset l labels e hl h _ ih =>
    have hbyte := StandsAt.getElem?_eq h
    have hpos := List.length_pos_iff.mpr hl.ne_nil
    obtain ⟨hlen, -, -⟩ := lengthByte_of_label hpos hl.length_le
    have hmax := hl.length_le
    rw [length_wireLabel] at ih
    refine .label hl (h.congr (by simp [wireLabel]) fun i hlo hhi => ?_) ?_
    · rw [length_wireLabel] at hhi
      by_cases hfirst : i = offset
      · subst hfirst
        exact hsame i .first
      · obtain ⟨k, rfl⟩ : ∃ k, i = offset + 1 + k := ⟨i - (offset + 1), by omega⟩
        exact hsame _ (.label hbyte (by omega) (by omega))
    · rw [length_wireLabel]
      refine ih fun i hi => hsame i ?_
      rw [show offset + (l.length + 1) = offset + 1 + (UInt8.ofNat l.length).toNat by omega] at hi
      exact .next hbyte (by omega) (by omega) hi
  | @pointer _ offset target labels e hlt hnew h _ ih =>
    refine .pointer hlt hnew (h.congr (by simp [pointerTo]) fun i hlo hhi => ?_)
      (ih fun i hi => hsame i (.target hlt h hi))
    rw [length_pointerTo] at hhi
    rcases Nat.lt_or_ge offset i with hsecond | hfirst
    · obtain rfl : i = offset + 1 := by omega
      refine hsame _ (.second (StandsAt.getElem?_eq h) ?_)
      rw [toNat_pointer hlt]
      exact Nat.le_add_right _ _
    · obtain rfl : i = offset := by omega
      exact hsame i .first

/-- The same, for the bytes in place and those behind the first pointer. -/
theorem congr (h : NameWalk msg visited offset labels e)
    (hin : ∀ i, offset ≤ i → i < e → SameByte msg msg' i)
    (hbehind : ∀ i, BehindPointer msg offset i → SameByte msg msg' i) :
    NameWalk msg' visited offset labels e := by
  induction h with
  | root h => exact .root (h.congr (by simp) hin)
  | @label _ offset l labels e hl h hrest ih =>
    obtain ⟨bytes, -, -, rfl⟩ := hrest.inPlace
    have hpos := List.length_pos_iff.mpr hl.ne_nil
    obtain ⟨hlen, -, -⟩ := lengthByte_of_label hpos hl.length_le
    have hmax := hl.length_le
    refine .label hl (h.congr (by simp [wireLabel]) fun i hlo hhi => hin i hlo (by omega))
      (ih (fun i hlo hhi => hin i (by omega) hhi) fun i hi => hbehind i ?_)
    rw [length_wireLabel, show offset + (l.length + 1) =
      offset + 1 + (UInt8.ofNat l.length).toNat by omega] at hi
    exact .next (StandsAt.getElem?_eq h) (by omega) (by omega) hi
  | pointer hlt hnew h hrest =>
    exact .pointer hlt hnew (h.congr (by simp [pointerTo]) hin)
      (hrest.congr_looksAt fun i hi => hbehind i (.target hlt h hi))

end NameWalk

section

variable {msg msg' : List UInt8} {offset end' : Nat} {name : Text}

theorem decodeName_congr (hd : decodeName msg offset = some (name, end'))
    (hin : ∀ i, offset ≤ i → i < end' → SameByte msg msg' i)
    (hbehind : ∀ i, BehindPointer msg offset i → SameByte msg msg' i) :
    decodeName msg' offset = some (name, end') := by
  obtain ⟨labels, hwalk, rfl⟩ := decodeName_eq_some_iff.mp hd
  exact decodeName_eq_some_iff.mpr ⟨labels, hwalk.congr hin hbehind, rfl⟩

/-- A message that has the bytes of another up to `end'` is as long. -/
theorem le_length_of_sameByte (hlt : offset < end') (hend : end' ≤ msg.length)
    (hin : ∀ i, offset ≤ i → i < end' → SameByte msg msg' i) : end' ≤ msg'.length := by
  have hlast : msg'[end' - 1]? = msg[end' - 1]? := hin (end' - 1) (by omega) (by omega)
  rw [List.getElem?_eq_getElem (show end' - 1 < msg.length by omega)] at hlast
  have hlt' := (List.getElem?_eq_some_iff.mp hlast).1
  omega

theorem getElem_congr {i : Nat} (h : i < msg.length) (h' : i < msg'.length)
    (hsame : SameByte msg msg' i) : msg'[i] = msg[i] := by
  rw [SameByte, List.getElem?_eq_getElem h, List.getElem?_eq_getElem h'] at hsame
  exact Option.some.inj hsame

theorem u16At_congr {i : Nat} (h : i + 2 ≤ msg.length) (h' : i + 2 ≤ msg'.length)
    (hsame : ∀ j, i ≤ j → j < i + 2 → SameByte msg msg' j) : u16At msg' i h' = u16At msg i h := by
  rw [u16At, u16At, getElem_congr (by omega) (by omega) (hsame i (by omega) (by omega)),
    getElem_congr (by omega) (by omega) (hsame (i + 1) (by omega) (by omega))]

theorem u32At_congr {i : Nat} (h : i + 4 ≤ msg.length) (h' : i + 4 ≤ msg'.length)
    (hsame : ∀ j, i ≤ j → j < i + 4 → SameByte msg msg' j) : u32At msg' i h' = u32At msg i h := by
  rw [u32At, u32At, getElem_congr (by omega) (by omega) (hsame i (by omega) (by omega)),
    getElem_congr (by omega) (by omega) (hsame (i + 1) (by omega) (by omega)),
    getElem_congr (by omega) (by omega) (hsame (i + 2) (by omega) (by omega)),
    getElem_congr (by omega) (by omega) (hsame (i + 3) (by omega) (by omega))]

theorem take_drop_congr {i n : Nat} (hsame : ∀ j, i ≤ j → j < i + n → SameByte msg msg' j) :
    (msg'.drop i).take n = (msg.drop i).take n := by
  apply List.ext_getElem?
  intro j
  rw [List.getElem?_take, List.getElem?_take]
  split_ifs with hj
  · rw [List.getElem?_drop, List.getElem?_drop]
    exact hsame (i + j) (by omega) (by omega)
  · rfl

end

/-! ## The data, type by type -/

/-- The types with data of their own. -/
def dataTypes : List UInt16 := [typeA, typeAaaa, typeNs, typeCname, typeMx, typeSoa]

section

variable {msg : List UInt8} {start len : Nat}

/-- A name ends at the end of a slice exactly if the slice is a name in place. -/
theorem end_eq_iff_inPlace (hle : start + len ≤ msg.length) {name : Text} {e : Nat}
    (hd : decodeName msg start = some (name, e)) :
    e = start + len ↔ InPlaceName ((msg.drop start).take len) := by
  obtain ⟨labels, hwalk, -⟩ := decodeName_eq_some_iff.mp hd
  constructor
  · rintro rfl
    obtain ⟨bytes, hbytes, hstands, he⟩ := hwalk.inPlace
    obtain rfl : len = bytes.length := by omega
    rwa [hstands.take_drop]
  · intro hbytes
    rw [hwalk.eq_of_inPlace hbytes (.slice hle), List.length_take, List.length_drop]
    omega

theorem dataEnd_mx (msg : List UInt8) (start : Nat) :
    dataEnd msg typeMx start = (decodeName msg (start + 2)).map (·.2) := rfl

theorem dataEnd_soa (msg : List UInt8) (start : Nat) :
    dataEnd msg typeSoa start =
      (decodeName msg start).bind fun r => (decodeName msg r.2).map (·.2 + 20) := rfl

theorem dataInFull_mx_iff {data : List UInt8} :
    DataInFull typeMx data ↔ ∃ preference exchange, data = preference ++ exchange ∧
      preference.length = 2 ∧ InPlaceName exchange := Iff.rfl

theorem dataInFull_soa_iff {data : List UInt8} :
    DataInFull typeSoa data ↔ ∃ mname rname numbers, data = mname ++ (rname ++ numbers) ∧
      InPlaceName mname ∧ InPlaceName rname ∧ numbers.length = 20 := Iff.rfl

/-- A slice in two parts. -/
theorem take_drop_add (msg : List UInt8) (i m n : Nat) :
    (msg.drop i).take (m + n) = (msg.drop i).take m ++ (msg.drop (i + m)).take n := by
  rw [List.take_add, List.drop_drop]

theorem dataEnd_mx_iff (hle : start + len ≤ msg.length) (hlen : 3 ≤ len) {name : Text} {e : Nat}
    (hd : decodeName msg (start + 2) = some (name, e)) :
    e = start + len ↔ DataInFull typeMx ((msg.drop start).take len) := by
  obtain ⟨n, rfl⟩ : ∃ n, len = 2 + n := ⟨len - 2, by omega⟩
  have htwo : ((msg.drop start).take 2).length = 2 := by
    rw [List.length_take, List.length_drop]
    omega
  rw [← Nat.add_assoc, end_eq_iff_inPlace (by omega) hd, dataInFull_mx_iff, take_drop_add]
  constructor
  · intro hname
    exact ⟨_, _, rfl, htwo, hname⟩
  · rintro ⟨preference, exchange, heq, hp, hname⟩
    rwa [(List.append_inj heq (htwo.trans hp.symm)).2]

theorem dataEnd_soa_iff (hle : start + len ≤ msg.length) {mname rname : Text} {o1 o2 : Nat}
    (hm : decodeName msg start = some (mname, o1)) (hr : decodeName msg o1 = some (rname, o2)) :
    o2 + 20 = start + len ↔ DataInFull typeSoa ((msg.drop start).take len) := by
  rw [dataInFull_soa_iff]
  constructor
  · intro hend
    have hm' := decodeName_bounds hm
    have hr' := decodeName_bounds hr
    obtain ⟨m, rfl⟩ : ∃ m, o1 = start + m := ⟨o1 - start, by omega⟩
    obtain ⟨r, rfl⟩ : ∃ r, o2 = start + m + r := ⟨o2 - (start + m), by omega⟩
    obtain rfl : len = m + (r + 20) := by omega
    refine ⟨_, _, _, (take_drop_add ..).trans (congrArg _ (take_drop_add ..)), ?_, ?_, ?_⟩
    · exact (end_eq_iff_inPlace (by omega) hm).mp rfl
    · exact (end_eq_iff_inPlace (by omega) hr).mp rfl
    · rw [List.length_take, List.length_drop]
      omega
  · rintro ⟨mbytes, rbytes, numbers, heq, hmname, hrname, hn⟩
    obtain ⟨mlabels, hmwalk, -⟩ := decodeName_eq_some_iff.mp hm
    obtain ⟨rlabels, hrwalk, -⟩ := decodeName_eq_some_iff.mp hr
    have hstands : StandsAt msg start (mbytes ++ (rbytes ++ numbers)) := heq ▸ .slice hle
    obtain rfl := hmwalk.eq_of_inPlace hmname hstands.append.1
    obtain rfl := hrwalk.eq_of_inPlace hrname hstands.append.2.append.1
    have hlen := congrArg List.length heq
    simp only [List.length_take, List.length_drop, List.length_append] at hlen
    omega

/-- Typed data are read up to the end of their bytes exactly if these are data of the type on
their own. -/
theorem dataEnd_iff {rtype : UInt16} (htype : rtype ∈ dataTypes) {h : start + len ≤ msg.length}
    {rdata : RData} (hd : decodeRdata msg rtype start len h = some rdata) :
    dataEnd msg rtype start = some (start + len) ↔
      DataInFull rtype ((msg.drop start).take len) := by
  have hlen : ((msg.drop start).take len).length = len := by
    rw [List.length_take, List.length_drop]
    omega
  simp only [dataTypes, List.mem_cons, List.not_mem_nil, or_false] at htype
  rcases htype with rfl | rfl | rfl | rfl | rfl | rfl
  · show some (start + 4) = some (start + len) ↔ ((msg.drop start).take len).length = 4
    rw [hlen, Option.some.injEq]
    omega
  · show some (start + 16) = some (start + len) ↔ ((msg.drop start).take len).length = 16
    rw [hlen, Option.some.injEq]
    omega
  · rw [decodeRdata_ns] at hd
    obtain ⟨⟨name, e⟩, hname, -⟩ := Option.map_eq_some_iff.mp hd
    show (decodeName msg start).map (·.2) = some (start + len) ↔ _
    rw [hname, Option.map_some, Option.some.injEq]
    exact end_eq_iff_inPlace h hname
  · rw [decodeRdata_cname] at hd
    obtain ⟨⟨name, e⟩, hname, -⟩ := Option.map_eq_some_iff.mp hd
    show (decodeName msg start).map (·.2) = some (start + len) ↔ _
    rw [hname, Option.map_some, Option.some.injEq]
    exact end_eq_iff_inPlace h hname
  · rw [decodeRdata_mx] at hd
    split at hd
    · rename_i hthree
      obtain ⟨⟨name, e⟩, hname, -⟩ := Option.map_eq_some_iff.mp hd
      rw [dataEnd_mx, hname, Option.map_some, Option.some.injEq]
      exact dataEnd_mx_iff h hthree hname
    · exact absurd hd (by simp)
  · rw [decodeRdata_soa] at hd
    obtain ⟨mname, o1, rname, o2, hm, hr, -, -⟩ := decodeSoa_spec hd
    rw [dataEnd_soa, hm, Option.bind_some, hr, Option.map_some, Option.some.injEq]
    exact dataEnd_soa_iff h hm hr

end

/-! ## Records -/

section

variable {msg msg' : List UInt8} {start len : Nat} {rdata : RData}

theorem decodeSoa_congr {h : start + len ≤ msg.length} (h' : start + len ≤ msg'.length)
    (hd : decodeSoa msg start len h = some rdata)
    (hin : ∀ i, start ≤ i → i < start + len → SameByte msg msg' i)
    (hbehind : ∀ n ∈ dataNames msg typeSoa start, ∀ i,
      BehindPointer msg n i → SameByte msg msg' i) :
    decodeSoa msg' start len h' = some rdata := by
  obtain ⟨mname, o1, rname, o2, hm, hr, hle, rfl⟩ := decodeSoa_spec hd
  have hnames : dataNames msg typeSoa start = [start, o1] := by
    show start :: ((decodeName msg start).map (·.2)).toList = [start, o1]
    rw [hm]
    rfl
  rw [hnames] at hbehind
  have hmle := decodeName_bounds hm
  have hrle := decodeName_bounds hr
  have hm' := decodeName_congr hm (fun i hlo hhi => hin i hlo (by omega)) (hbehind start (by simp))
  have hr' := decodeName_congr hr (fun i hlo hhi => hin i (by omega) (by omega))
    (hbehind o1 (by simp))
  have hnumber : ∀ i (hi : i + 4 ≤ msg.length) (hi' : i + 4 ≤ msg'.length), o2 ≤ i →
      i + 4 ≤ start + len → u32At msg' i hi' = u32At msg i hi := by
    intro i hi hi' hlo hhi
    exact u32At_congr hi hi' fun j hj hj' => hin j (by omega) (by omega)
  rw [decodeSoa, hm']
  simp only [hr']
  rw [dif_pos hle]
  simp (disch := omega) only [hnumber o2, hnumber (o2 + 4), hnumber (o2 + 8), hnumber (o2 + 12),
    hnumber (o2 + 16)]

/-- Data made from a name that ends with them are made from the same name in a message with the
same bytes. -/
theorem map_decodeName_congr {make : Text → RData} {offset end' : Nat}
    (hd : ((decodeName msg offset).map fun (name, _) => make name) = some rdata)
    (hend : (decodeName msg offset).map (·.2) = some end')
    (hin : ∀ i, offset ≤ i → i < end' → SameByte msg msg' i)
    (hbehind : ∀ i, BehindPointer msg offset i → SameByte msg msg' i) :
    ((decodeName msg' offset).map fun (name, _) => make name) = some rdata := by
  obtain ⟨⟨name, e⟩, hname, rfl⟩ := Option.map_eq_some_iff.mp hd
  obtain rfl : e = end' := by
    rw [hname] at hend
    exact Option.some.inj hend
  rw [decodeName_congr hname hin hbehind]
  rfl

/-- Data that are read up to the end of their bytes are the same in a message with the same
bytes. -/
theorem decodeRdata_congr {rtype : UInt16} (htype : rtype ∈ dataTypes)
    {h : start + len ≤ msg.length} (h' : start + len ≤ msg'.length)
    (hd : decodeRdata msg rtype start len h = some rdata)
    (hend : dataEnd msg rtype start = some (start + len))
    (hin : ∀ i, start ≤ i → i < start + len → SameByte msg msg' i)
    (hbehind : ∀ n ∈ dataNames msg rtype start, ∀ i, BehindPointer msg n i → SameByte msg msg' i) :
    decodeRdata msg' rtype start len h' = some rdata := by
  simp only [dataTypes, List.mem_cons, List.not_mem_nil, or_false] at htype
  rcases htype with rfl | rfl | rfl | rfl | rfl | rfl
  · obtain rfl : 4 = len := by
      have hfour : start + 4 = start + len := Option.some.inj hend
      omega
    rw [decodeRdata_a h (le_refl _)] at hd
    rw [decodeRdata_a h' (le_refl _), ← hd]
    have hbyte : ∀ k (hk : k < 4), msg'[start + k] = msg[start + k] := fun k hk =>
      getElem_congr (by omega) (by omega) (hin (start + k) (by omega) (by omega))
    have h0 := hbyte 0 (by decide)
    simp only [Nat.add_zero] at h0
    rw [h0, hbyte 1 (by decide), hbyte 2 (by decide), hbyte 3 (by decide)]
  · obtain rfl : 16 = len := by
      have hsixteen : start + 16 = start + len := Option.some.inj hend
      omega
    rw [decodeRdata_aaaa h (le_refl _)] at hd
    rw [decodeRdata_aaaa h' (le_refl _), ← hd]
    simp only [take_drop_congr hin]
  · rw [decodeRdata_ns] at hd ⊢
    exact map_decodeName_congr hd hend hin (hbehind start (by simp [dataNames]))
  · rw [decodeRdata_cname] at hd ⊢
    exact map_decodeName_congr hd hend hin (hbehind start (by simp [dataNames]))
  · rw [decodeRdata_mx] at hd ⊢
    split at hd
    · rename_i hthree
      have hnames : dataNames msg typeMx start = [start + 2] := rfl
      rw [dif_pos hthree,
        u16At_congr (by omega) (by omega) fun j hlo hhi => hin j hlo (by omega)]
      exact map_decodeName_congr hd hend (fun i hlo hhi => hin i (by omega) hhi)
        (hbehind (start + 2) (by rw [hnames]; simp))
    · exact absurd hd (by simp)
  · rw [decodeRdata_soa] at hd ⊢
    exact decodeSoa_congr h' hd hin hbehind

end

section

variable {msg : List UInt8} {offset end' : Nat} {rr : DnsRR}

/-- A typed record has one of the types. -/
theorem mem_dataTypes (hd : decodeRr msg offset = some (rr, end'))
    (htyped : ∀ data, rr.rdata ≠ .unknown data) : rr.rtype ∈ dataTypes := by
  obtain ⟨off, h, h', -, -, -, -, hdata, -⟩ := decodeRr_spec hd
  by_contra hother
  rw [decodeRdata_unknown h' hother] at hdata
  exact htyped _ (Option.some.inj hdata).symm

/-- Such a record is decoded the same from any message that has its bytes. -/
theorem decodeRr_congr (hd : decodeRr msg offset = some (rr, end')) (htype : rr.rtype ∈ dataTypes)
    {name : Text} {off : Nat} (howner : decodeName msg offset = some (name, off))
    (hend : dataEnd msg rr.rtype (off + 10) = some end') {msg' : List UInt8}
    (hin : ∀ i, offset ≤ i → i < end' → SameByte msg msg' i)
    (hbehind : ∀ n ∈ offset :: dataNames msg rr.rtype (off + 10),
      ∀ i, BehindPointer msg n i → SameByte msg msg' i) :
    decodeRr msg' offset = some (rr, end') := by
  obtain ⟨off', h, h', hname, hrtype, hcls, httl, hdata, rfl⟩ := decodeRr_spec hd
  obtain ⟨-, rfl⟩ := Prod.mk.inj (Option.some.inj (howner.symm.trans hname))
  have hoff := (decodeName_bounds hname).1
  have hlen' := le_length_of_sameByte (show offset < _ by omega) h' hin
  have howner' := decodeName_congr hname (fun i hlo hhi => hin i hlo (by omega))
    (hbehind offset (by simp))
  have hroom : off + 10 ≤ msg'.length := by omega
  have hsame16 : ∀ i (hi : i + 2 ≤ msg.length) (hi' : i + 2 ≤ msg'.length), off ≤ i →
      i + 2 ≤ off + 10 → u16At msg' i hi' = u16At msg i hi := by
    intro i hi hi' hlo hhi
    exact u16At_congr hi hi' fun j hj hj' => hin j (by omega) (by omega)
  have hsame32 : u32At msg' (off + 4) (by omega) = u32At msg (off + 4) (by omega) :=
    u32At_congr (by omega) (by omega) fun j hj hj' => hin j (by omega) (by omega)
  have hdata' := decodeRdata_congr htype hlen' hdata hend
    (fun i hlo hhi => hin i (by omega) hhi)
    fun n hn => hbehind n (List.mem_cons_of_mem _ hn)
  have hlength := hsame16 (off + 8) (by omega) (by omega) (by omega) (by omega)
  have hclass := hsame16 (off + 2) (by omega) (by omega) (by omega) (by omega)
  have hrtype' := hsame16 off (by omega) (by omega) (by omega) (by omega)
  rw [decodeRr, howner']
  simp only [dif_pos hroom, hlength, hclass, hrtype', hsame32, ← hrtype, ← hcls, ← httl]
  rw [dif_pos hlen', hdata']
  rfl

end

/-! ## Records in full -/

/-- A number in the fixed header, which has been cut out of the message. -/
theorem header_number {msg : List UInt8} {off k : Nat} (h : off + 10 ≤ msg.length)
    (hk : k + 2 ≤ 10) :
    ofBeBytes16 (((msg.drop off).take 10).getD k 0) (((msg.drop off).take 10).getD (k + 1) 0) =
      u16At msg (off + k) (by omega) := by
  have hbyte : ∀ j (hj : j < 10), ((msg.drop off).take 10).getD j 0 = msg[off + j] := by
    intro j hj
    rw [List.getD_eq_getElem _ _ (by rw [List.length_take, List.length_drop]; omega),
      List.getElem_take, List.getElem_drop]
  rw [hbyte k (by omega), hbyte (k + 1) (by omega), u16At]
  rfl

/-- A record is in full exactly if its data are, in the bytes that RDLENGTH counts. -/
theorem recordInFull_iff {msg : List UInt8} {offset off : Nat} {name : Text}
    (howner : decodeName msg offset = some (name, off)) (htwo : off + 2 ≤ msg.length)
    (h : off + 10 ≤ msg.length) (h' : off + 10 + (u16At msg (off + 8) h).toNat ≤ msg.length) :
    RecordInFull msg offset ↔ DataInFull (u16At msg off htwo)
      ((msg.drop (off + 10)).take (u16At msg (off + 8) h).toNat) := by
  obtain ⟨labels, hwalk, -⟩ := decodeName_eq_some_iff.mp howner
  have hheader : ((msg.drop off).take 10).length = 10 := by
    rw [List.length_take, List.length_drop]
    omega
  have hrtype := header_number h (show 0 + 2 ≤ 10 by decide)
  have hlength := header_number h (show 8 + 2 ≤ 10 by decide)
  simp only [Nat.add_zero, Nat.zero_add, Nat.reduceAdd] at hrtype hlength
  constructor
  · rintro ⟨owner, header, data, hinplace, hten, hstands, hdata, hfull⟩
    obtain rfl := hwalk.eq_of_inPlace hinplace hstands.append.1
    have hrest := hstands.append.2
    obtain rfl : header = (msg.drop (offset + owner.length)).take 10 := by
      rw [← hten, hrest.append.1.take_drop]
    rw [hlength] at hdata
    rw [hrtype] at hfull
    have hslice := hrest.append.2.take_drop
    rw [hheader, hdata] at hslice
    rwa [hslice]
  · intro hfull
    obtain ⟨owner, hinplace, hstands, rfl⟩ := hwalk.inPlace
    refine ⟨owner, _, (msg.drop (offset + owner.length + 10)).take _, hinplace, hheader,
      hstands.join (StandsAt.join (.slice h) ?_), ?_, hrtype ▸ hfull⟩
    · rw [hheader]
      exact .slice h'
    · rw [hlength, List.length_take, List.length_drop]
      omega

/-- **When data fill their length.**  For every message and offset where a record with typed data
is decoded: exactly if there stand a name, a fixed header, and as many bytes as it announces,
which are data of its type on their own. -/
theorem rdata_fills_iff {msg : List UInt8} {offset end' : Nat} {rr : DnsRR}
    (hd : decodeRr msg offset = some (rr, end')) (htyped : ∀ data, rr.rdata ≠ .unknown data) :
    RdataFills msg offset rr end' ↔ RecordInFull msg offset := by
  have htype := mem_dataTypes hd htyped
  obtain ⟨off, h, h', howner, hrtype, -, -, hdata, hend⟩ := decodeRr_spec hd
  have hiff := dataEnd_iff htype hdata
  rw [← hend] at hiff
  rw [recordInFull_iff howner (by omega) h h', ← hrtype, ← hiff]
  constructor
  · intro hfills
    exact hfills.consumed _ _ howner
  · intro hconsumed
    refine ⟨?_, ?_⟩
    · intro name off' howner'
      obtain ⟨-, rfl⟩ := Prod.mk.inj (Option.some.inj (howner'.symm.trans howner))
      exact hconsumed
    · intro msg' hin hbehind
      exact decodeRr_congr hd htype howner hconsumed hin (hbehind _ _ howner)

/-! ## Data that run on -/

/-- A record of the root, with these octets for its type and its RDLENGTH, and these bytes
behind the fixed header. -/
def demoRecord (rtype length : UInt8) (behind : List UInt8) : List UInt8 :=
  [0, 0, rtype, 0, 1, 0, 0, 0, 60, 0, length] ++ behind

theorem demo_rdata_fills :
    ∃ rr, decodeRr (demoRecord 1 4 [10, 0, 0, 1]) 0 = some (rr, 15) ∧
      RdataFills (demoRecord 1 4 [10, 0, 0, 1]) 0 rr 15 := by
  have hd : decodeRr (demoRecord 1 4 [10, 0, 0, 1]) 0 =
      some (⟨rootName, typeA, 1, 60, .a ⟨10, 0, 0, 1⟩⟩, 15) := by decide +kernel
  refine ⟨_, hd, (rdata_fills_iff hd (by simp)).mpr ?_⟩
  exact ⟨[0], [0, 1, 0, 1, 0, 0, 0, 60, 0, 4], [10, 0, 0, 1], .root, rfl, by decide +kernel,
    by decide +kernel, rfl⟩

/-- **A name that runs on.**  The only byte of the data is the length of a label, which is read
behind the record: the same record makes two names. -/
theorem demo_name_runs_on :
    ∃ rr rr', decodeRr (demoRecord 5 1 [1, 97, 0]) 0 = some (rr, 12) ∧
      decodeRr (demoRecord 5 1 [1, 98, 0]) 0 = some (rr', 12) ∧
      rr.rdata = .cname (utf8 "a.") ∧ rr'.rdata = .cname (utf8 "b.") ∧
      (demoRecord 5 1 [1, 97, 0]).take 12 = (demoRecord 5 1 [1, 98, 0]).take 12 ∧
      ¬ RdataFills (demoRecord 5 1 [1, 97, 0]) 0 rr 12 := by
  have hd : decodeRr (demoRecord 5 1 [1, 97, 0]) 0 =
      some (⟨rootName, typeCname, 1, 60, .cname (utf8 "a.")⟩, 12) := by decide +kernel
  have hd' : decodeRr (demoRecord 5 1 [1, 98, 0]) 0 =
      some (⟨rootName, typeCname, 1, 60, .cname (utf8 "b.")⟩, 12) := by decide +kernel
  have howner : decodeName (demoRecord 5 1 [1, 97, 0]) 0 = some (rootName, 1) := by
    decide +kernel
  have hname : dataEnd (demoRecord 5 1 [1, 97, 0]) typeCname 11 = some 14 := by decide +kernel
  refine ⟨_, _, hd, hd', rfl, rfl, rfl, fun hfills => ?_⟩
  have hend : dataEnd (demoRecord 5 1 [1, 97, 0]) typeCname 11 = some 12 :=
    hfills.consumed _ _ howner
  rw [hname] at hend
  exact absurd hend (by decide)

end PpcaNetwork.Dns
