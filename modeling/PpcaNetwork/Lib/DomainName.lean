import PpcaNetwork.Lib.Octets
import PpcaNetwork.Lib.Text

/-!
# Domain names in messages

How a domain name stands in a message, as RFC 1035 has it: labels of 1 to 63 octets, each
behind its length, up to the root or up to a pointer to where the rest of the name stands.

* `wireName` — a name written out.
* `LabelsAt` — the labels that are read at an offset, and where the reader goes on;
  `LabelsAt.unique` says that there is one way to read them at most.
* `LabelsAt.of_wireName` — a name that is written out is read.
* `LabelsAt.writtenOut_or_pointer` — a name is written out or ends in a pointer.
* `SameName` — equality of names up to ASCII case.
* `SequenceAt` — items that stand one behind the other.
-/

namespace PpcaNetwork

/-! ## Names on the wire -/

/-- A label, as its octets. -/
abbrev Label := List UInt8

/-- Labels have 1 to 63 octets. -/
structure ValidLabel (label : Label) : Prop where
  pos : 0 < label.length
  le : label.length ≤ 63

theorem ValidLabel.ne_nil {label : Label} (h : ValidLabel label) : label ≠ [] :=
  List.length_pos_iff.mp h.pos

/-- A label behind its length. -/
def wireLabel (label : Label) : List UInt8 := UInt8.ofNat label.length :: label

/-- A name written out. -/
def wireName (labels : List Label) : List UInt8 := labels.flatMap wireLabel ++ [0]

/-- A pointer: two set bits and the 14 bits of its target. -/
def pointerTo (target : Nat) : List UInt8 :=
  [UInt8.ofNat (0xC0 + target / 256), UInt8.ofNat (target % 256)]

@[simp] theorem length_wireLabel (label : Label) :
    (wireLabel label).length = label.length + 1 := List.length_cons

@[simp] theorem length_pointerTo (target : Nat) : (pointerTo target).length = 2 := rfl

theorem wireName_cons (label : Label) (labels : List Label) :
    wireName (label :: labels) = wireLabel label ++ wireName labels := by
  simp [wireName]

theorem length_le_length_flatMap {α : Type} {write : α → List UInt8} {items : List α} {item : α}
    (h : item ∈ items) : (write item).length ≤ (items.flatMap write).length := by
  obtain ⟨front, back, rfl⟩ := List.append_of_mem h
  simp only [List.flatMap_append, List.flatMap_cons, List.length_append]
  omega

/-- The length octet of a label. -/
theorem ValidLabel.toNat_length {label : Label} (h : ValidLabel label) :
    (UInt8.ofNat label.length).toNat = label.length := by
  rw [UInt8.toNat_ofNat']
  exact Nat.mod_eq_of_lt (Nat.lt_of_le_of_lt h.le (by decide))

/-- The first octet of a pointer. -/
theorem toNat_pointer {target : Nat} (h : target < 2 ^ 14) :
    (UInt8.ofNat (0xC0 + target / 256)).toNat = 192 + target / 256 := by
  rw [UInt8.toNat_ofNat']
  exact Nat.mod_eq_of_lt (by omega)

theorem pointerTo_inj {target target' : Nat} (h : target < 2 ^ 14) (h' : target' < 2 ^ 14)
    (heq : pointerTo target = pointerTo target') : target = target' := by
  obtain ⟨hhigh, hlow⟩ := List.cons.inj heq
  have hhigh := congrArg UInt8.toNat hhigh
  have hlow := congrArg UInt8.toNat (List.cons.inj hlow).1
  rw [toNat_pointer h, toNat_pointer h'] at hhigh
  rw [UInt8.toNat_ofNat', UInt8.toNat_ofNat', Nat.mod_mod, Nat.mod_mod] at hlow
  omega

/-! ## Reading names -/

/-- The labels that are read at `offset`, and where the reader goes on behind the name.
Pointers lead to `base` or behind it. -/
inductive LabelsAt (msg : List UInt8) (base : Nat) : Nat → List Label → Nat → Prop
  | root {offset : Nat} (h : StandsAt msg offset [0]) : LabelsAt msg base offset [] (offset + 1)
  | label {offset : Nat} {l : Label} {labels : List Label} {e : Nat} (hl : ValidLabel l)
      (h : StandsAt msg offset (wireLabel l))
      (hrest : LabelsAt msg base (offset + (wireLabel l).length) labels e) :
      LabelsAt msg base offset (l :: labels) e
  | pointer {offset target : Nat} {labels : List Label} {e : Nat} (hbase : base ≤ target)
      (hlt : target < 2 ^ 14) (h : StandsAt msg offset (pointerTo target))
      (hrest : LabelsAt msg base target labels e) :
      LabelsAt msg base offset labels (offset + 2)

namespace LabelsAt

variable {msg : List UInt8} {base offset e e' : Nat} {labels labels' : List Label}

theorem valid (h : LabelsAt msg base offset labels e) : ∀ l ∈ labels, ValidLabel l := by
  induction h with
  | root => simp
  | label hl _ _ ih =>
    intro l hmem
    rcases List.mem_cons.mp hmem with rfl | hmem
    · exact hl
    · exact ih l hmem
  | pointer _ _ _ _ ih => exact ih

/-- What the first octet of a name says about it. -/
theorem head (h : LabelsAt msg base offset labels e) {b : UInt8} (hb : msg[offset]? = some b) :
    (b = 0 ∧ labels = []) ∨ (0 < b.toNat ∧ b.toNat ≤ 63) ∨ 192 ≤ b.toNat := by
  cases h with
  | root h =>
    rw [h.getElem?_eq] at hb
    exact .inl ⟨(Option.some.inj hb).symm, rfl⟩
  | label hl h =>
    rw [StandsAt.getElem?_eq h] at hb
    rw [← Option.some.inj hb, hl.toNat_length]
    exact .inr (.inl ⟨hl.pos, hl.le⟩)
  | pointer _ hlt h =>
    rw [StandsAt.getElem?_eq h] at hb
    rw [← Option.some.inj hb, toNat_pointer hlt]
    exact .inr (.inr (Nat.le_add_right _ _))

/-- Between the lengths and the pointers no octet begins a name. -/
theorem not_of_reserved {b : UInt8} (hb : msg[offset]? = some b) (hlow : 64 ≤ b.toNat)
    (hhigh : b.toNat < 192) : ¬ LabelsAt msg base offset labels e := by
  intro h
  rcases h.head hb with ⟨rfl, -⟩ | ⟨-, hle⟩ | hle
  · exact absurd hlow (by decide)
  · omega
  · omega

/-- At the root nothing else is read. -/
theorem eq_of_root (h : LabelsAt msg base offset labels e) (hroot : StandsAt msg offset [0]) :
    labels = [] ∧ e = offset + 1 := by
  have hb := hroot.getElem?_eq
  cases h with
  | root => exact ⟨rfl, rfl⟩
  | label hl h =>
    rw [StandsAt.getElem?_eq h] at hb
    have hlen := congrArg UInt8.toNat (Option.some.inj hb)
    rw [hl.toNat_length] at hlen
    exact absurd hlen (Nat.ne_of_gt hl.pos)
  | pointer _ hlt h =>
    rw [StandsAt.getElem?_eq h] at hb
    have hlen := congrArg UInt8.toNat (Option.some.inj hb)
    rw [toNat_pointer hlt] at hlen
    simp only [UInt8.reduceToNat] at hlen
    omega

/-- At a label that label is read. -/
theorem of_label (h : LabelsAt msg base offset labels e) {l : Label} (hl : ValidLabel l)
    (hstands : StandsAt msg offset (wireLabel l)) :
    ∃ rest, labels = l :: rest ∧ LabelsAt msg base (offset + (wireLabel l).length) rest e := by
  have hb := StandsAt.getElem?_eq hstands
  have hpos := hl.pos
  have hle := hl.le
  cases h with
  | root h =>
    rw [h.getElem?_eq] at hb
    have hlen := congrArg UInt8.toNat (Option.some.inj hb)
    rw [hl.toNat_length] at hlen
    exact absurd hlen.symm (Nat.ne_of_gt hpos)
  | @label _ l' rest _ hl' h hrest =>
    rw [StandsAt.getElem?_eq h] at hb
    have hlen := congrArg UInt8.toNat (Option.some.inj hb)
    rw [hl.toNat_length, hl'.toNat_length] at hlen
    have heq := h.unique hstands (by rw [length_wireLabel, length_wireLabel, hlen])
    obtain rfl := (List.cons.inj heq).2
    exact ⟨rest, rfl, hrest⟩
  | pointer _ hlt h =>
    rw [StandsAt.getElem?_eq h] at hb
    have hlen := congrArg UInt8.toNat (Option.some.inj hb)
    rw [hl.toNat_length, toNat_pointer hlt] at hlen
    omega

/-- At a pointer what stands at its target is read. -/
theorem of_pointer (h : LabelsAt msg base offset labels e) {target : Nat}
    (hlt : target < 2 ^ 14) (hstands : StandsAt msg offset (pointerTo target)) :
    e = offset + 2 ∧ ∃ e', LabelsAt msg base target labels e' := by
  have hb := StandsAt.getElem?_eq hstands
  cases h with
  | root h =>
    rw [h.getElem?_eq] at hb
    have hlen := congrArg UInt8.toNat (Option.some.inj hb)
    rw [toNat_pointer hlt] at hlen
    simp only [UInt8.reduceToNat] at hlen
    omega
  | label hl h =>
    have hle := hl.le
    rw [StandsAt.getElem?_eq h] at hb
    have hlen := congrArg UInt8.toNat (Option.some.inj hb)
    rw [hl.toNat_length, toNat_pointer hlt] at hlen
    omega
  | pointer _ hlt' h hrest =>
    obtain rfl := pointerTo_inj hlt' hlt (h.unique hstands rfl)
    exact ⟨rfl, _, hrest⟩

/-- There is one way to read a name at most. -/
theorem unique (h : LabelsAt msg base offset labels e) (h' : LabelsAt msg base offset labels' e') :
    labels = labels' ∧ e = e' := by
  induction h generalizing labels' e' with
  | root h =>
    obtain ⟨rfl, rfl⟩ := h'.eq_of_root h
    exact ⟨rfl, rfl⟩
  | label hl h _ ih =>
    obtain ⟨rest, rfl, hrest⟩ := h'.of_label hl h
    obtain ⟨rfl, rfl⟩ := ih hrest
    exact ⟨rfl, rfl⟩
  | pointer _ hlt h _ ih =>
    obtain ⟨rfl, _, hrest⟩ := h'.of_pointer hlt h
    exact ⟨(ih hrest).1, rfl⟩

/-- A name that is written out is read. -/
theorem of_wireName (base : Nat) (hvalid : ∀ l ∈ labels, ValidLabel l)
    (h : StandsAt msg offset (wireName labels)) :
    LabelsAt msg base offset labels (offset + (wireName labels).length) := by
  induction labels generalizing offset with
  | nil => exact .root h
  | cons l labels ih =>
    rw [wireName_cons] at h
    have hrest := ih (fun l hl => hvalid l (List.mem_cons_of_mem _ hl)) h.append.2
    rw [wireName_cons, List.length_append, ← Nat.add_assoc]
    exact .label (hvalid l (by simp)) h.append.1 hrest

/-- A name is written out, or its labels are as far as a pointer to the others. -/
theorem writtenOut_or_pointer (h : LabelsAt msg base offset labels e) :
    (StandsAt msg offset (wireName labels) ∧ e = offset + (wireName labels).length) ∨
      ∃ front back target e', labels = front ++ back ∧ base ≤ target ∧ target < 2 ^ 14 ∧
        StandsAt msg offset (front.flatMap wireLabel ++ pointerTo target) ∧
        e = offset + (front.flatMap wireLabel ++ pointerTo target).length ∧
        LabelsAt msg base target back e' := by
  induction h with
  | root h => exact .inl ⟨h, rfl⟩
  | @label offset l labels e hl h _ ih =>
    rcases ih with ⟨hstands, rfl⟩ | ⟨front, back, target, e', rfl, hbase, hlt, hstands, rfl, hat⟩
    · refine .inl ⟨?_, ?_⟩
      · rw [wireName_cons]
        exact h.join hstands
      · rw [wireName_cons, List.length_append, Nat.add_assoc]
    · refine .inr ⟨l :: front, back, target, e', rfl, hbase, hlt, ?_, ?_, hat⟩
      · rw [List.flatMap_cons, List.append_assoc]
        exact h.join hstands
      · simp only [List.flatMap_cons, List.length_append, Nat.add_assoc]
  | pointer hbase hlt h hrest =>
    exact .inr ⟨[], _, _, _, rfl, hbase, hlt, h, rfl, hrest⟩

/-- A name takes one octet more than its labels written out at most: that of a pointer to
the root. -/
theorem end_le (h : LabelsAt msg base offset labels e) :
    e ≤ offset + (wireName labels).length + 1 := by
  have hpos : ∀ labels : List Label, 1 ≤ (wireName labels).length := by simp [wireName]
  induction h with
  | root => simp
  | @label offset l labels e _ _ _ ih =>
    rw [wireName_cons, List.length_append]
    omega
  | @pointer _ _ labels =>
    have hlabels := hpos labels
    omega

/-- Behind labels that are written out, the rest of the name is read. -/
theorem of_labels {front : List Label} {bytes : List UInt8}
    (h : LabelsAt msg base offset labels e) (hvalid : ∀ l ∈ front, ValidLabel l)
    (hstands : StandsAt msg offset (front.flatMap wireLabel ++ bytes)) :
    ∃ rest, labels = front ++ rest ∧
      LabelsAt msg base (offset + (front.flatMap wireLabel).length) rest e := by
  induction front generalizing offset labels with
  | nil => exact ⟨labels, rfl, h⟩
  | cons l front ih =>
    rw [List.flatMap_cons, List.append_assoc] at hstands
    obtain ⟨rest, rfl, hrest⟩ := h.of_label (hvalid l (by simp)) hstands.append.1
    obtain ⟨rest, rfl, hrest⟩ :=
      ih hrest (fun l hl => hvalid l (List.mem_cons_of_mem _ hl)) hstands.append.2
    refine ⟨rest, rfl, ?_⟩
    rwa [List.flatMap_cons, List.length_append, ← Nat.add_assoc]

/-- A name that is written out is not read in another way. -/
theorem eq_of_wireName (h : LabelsAt msg base offset labels e)
    (hvalid : ∀ l ∈ labels', ValidLabel l) (hstands : StandsAt msg offset (wireName labels')) :
    labels = labels' ∧ e = offset + (wireName labels').length :=
  h.unique (of_wireName base hvalid hstands)

end LabelsAt

/-- Names are told apart by what is written. -/
theorem wireName_inj {labels labels' : List Label} (hvalid : ∀ l ∈ labels, ValidLabel l)
    (hvalid' : ∀ l ∈ labels', ValidLabel l) (h : wireName labels = wireName labels') :
    labels = labels' := by
  have hread := LabelsAt.of_wireName 0 hvalid (.self (wireName labels))
  exact (hread.eq_of_wireName hvalid' (h ▸ .self (wireName labels))).1

/-- Names of labels that fit their length octets end where they end: what is written behind them
is told apart too. -/
theorem wireName_append_inj {labels labels' : List Label}
    (h : ∀ l ∈ labels, l ≠ [] ∧ l.length ≤ 255) (h' : ∀ l ∈ labels', l ≠ [] ∧ l.length ≤ 255)
    {back back' : List UInt8} (heq : wireName labels ++ back = wireName labels' ++ back') :
    labels = labels' ∧ back = back' := by
  have hlength : ∀ {l : Label}, l ≠ [] ∧ l.length ≤ 255 →
      (UInt8.ofNat l.length).toNat = l.length ∧ 0 < l.length := by
    rintro l ⟨hne, hle⟩
    refine ⟨?_, List.length_pos_iff.mpr hne⟩
    rw [UInt8.toNat_ofNat']
    exact Nat.mod_eq_of_lt (by omega)
  induction labels generalizing labels' with
  | nil =>
    cases labels' with
    | nil => exact ⟨rfl, List.append_cancel_left heq⟩
    | cons l' labels' =>
      rw [wireName_cons] at heq
      have hoctet := congrArg UInt8.toNat (List.cons.inj heq).1
      obtain ⟨hl', hpos⟩ := hlength (h' l' (by simp))
      rw [hl'] at hoctet
      exact absurd hoctet (Nat.ne_of_lt hpos)
  | cons l labels ih =>
    obtain ⟨hl, hpos⟩ := hlength (h l (by simp))
    cases labels' with
    | nil =>
      rw [wireName_cons] at heq
      have hoctet := congrArg UInt8.toNat (List.cons.inj heq).1
      rw [hl] at hoctet
      exact absurd hoctet.symm (Nat.ne_of_lt hpos)
    | cons l' labels' =>
      obtain ⟨hl', -⟩ := hlength (h' l' (by simp))
      rw [wireName_cons, wireName_cons, List.append_assoc, List.append_assoc] at heq
      obtain ⟨hoctet, hrest⟩ := List.cons.inj heq
      have hsame := congrArg UInt8.toNat hoctet
      rw [hl, hl'] at hsame
      obtain ⟨rfl, hnames⟩ := List.append_inj hrest hsame
      obtain ⟨rfl, rfl⟩ := ih (fun l hl => h l (List.mem_cons_of_mem _ hl))
        (fun l hl => h' l (List.mem_cons_of_mem _ hl)) hnames
      exact ⟨rfl, rfl⟩

/-! ## Names up to case -/

/-- A name in lower case. -/
def lowerName (labels : List Label) : List Label := labels.map toAsciiLowercase

theorem length_wireName_lowerName (labels : List Label) :
    (wireName (lowerName labels)).length = (wireName labels).length := by
  simp only [wireName, lowerName, List.length_append, List.length_flatMap, List.map_map]
  congr 2
  exact List.map_congr_left fun l _ => by simp [toAsciiLowercase]

/-- Equality of names up to ASCII case. -/
def SameName (labels labels' : List Label) : Prop := lowerName labels = lowerName labels'

instance (labels labels' : List Label) : Decidable (SameName labels labels') :=
  inferInstanceAs (Decidable (_ = _))

theorem SameName.symm {labels labels' : List Label} (h : SameName labels labels') :
    SameName labels' labels := Eq.symm h

theorem sameName_lowerName (labels : List Label) : SameName (lowerName labels) labels := by
  simp [SameName, lowerName, Function.comp_def]

/-- Of names with a common front, the rests are compared. -/
theorem sameName_append_left (front : List Label) {back back' : List Label} :
    SameName (front ++ back) (front ++ back') ↔ SameName back back' := by
  simp [SameName, lowerName]

theorem sameName_nil {labels : List Label} : SameName [] labels ↔ labels = [] := by
  simp [SameName, lowerName, eq_comm]

/-- The case of a label does not matter for its length. -/
theorem ValidLabel.toAsciiLowercase {l : Label} (h : ValidLabel l) :
    ValidLabel (toAsciiLowercase l) where
  pos := by simpa [PpcaNetwork.toAsciiLowercase] using h.pos
  le := by simpa [PpcaNetwork.toAsciiLowercase] using h.le

/-! ## Sequences -/

/-- Items that stand one behind the other, each read by `itemAt`. -/
inductive SequenceAt {α : Type} (itemAt : Nat → α → Nat → Prop) : Nat → List α → Nat → Prop
  | nil {offset : Nat} : SequenceAt itemAt offset [] offset
  | cons {offset next e : Nat} {a : α} {as : List α} (h : itemAt offset a next)
      (hrest : SequenceAt itemAt next as e) : SequenceAt itemAt offset (a :: as) e

namespace SequenceAt

variable {α β : Type} {itemAt : Nat → α → Nat → Prop} {offset e e' : Nat} {as as' : List α}

/-- If there is one way to read an item at most, there is one way to read a number of
them. -/
theorem unique (h : SequenceAt itemAt offset as e) (h' : SequenceAt itemAt offset as' e')
    (hlen : as.length = as'.length)
    (hitem : ∀ offset a e a' e', itemAt offset a e → itemAt offset a' e' → a = a' ∧ e = e') :
    as = as' ∧ e = e' := by
  induction h generalizing as' e' with
  | nil =>
    cases h' with
    | nil => exact ⟨rfl, rfl⟩
    | cons => simp at hlen
  | cons hfirst _ ih =>
    cases h' with
    | nil => simp at hlen
    | cons hfirst' hrest' =>
      obtain ⟨rfl, rfl⟩ := hitem _ _ _ _ _ hfirst hfirst'
      obtain ⟨rfl, rfl⟩ := ih hrest' (by simpa using hlen)
      exact ⟨rfl, rfl⟩

theorem exists_itemAt (h : SequenceAt itemAt offset as e) :
    ∀ a ∈ as, ∃ offset e, itemAt offset a e := by
  induction h with
  | nil => simp
  | cons hfirst _ ih =>
    intro a ha
    rcases List.mem_cons.mp ha with rfl | ha
    · exact ⟨_, _, hfirst⟩
    · exact ih a ha

/-- What is written item by item is read item by item. -/
theorem of_standsAt {msg : List UInt8} {write : β → List UInt8} {Reads : β → α → Prop}
    {items : List β}
    (hitem : ∀ item ∈ items, ∀ offset, StandsAt msg offset (write item) →
      ∃ a, Reads item a ∧ itemAt offset a (offset + (write item).length))
    (h : StandsAt msg offset (items.flatMap write)) :
    ∃ as, List.Forall₂ Reads items as ∧
      SequenceAt itemAt offset as (offset + (items.flatMap write).length) := by
  induction items generalizing offset with
  | nil => exact ⟨[], .nil, .nil⟩
  | cons item items ih =>
    rw [List.flatMap_cons] at h
    obtain ⟨a, hreads, hat⟩ := hitem item (by simp) offset h.append.1
    obtain ⟨as, hall, hrest⟩ := ih (fun i hi => hitem i (List.mem_cons_of_mem _ hi)) h.append.2
    refine ⟨a :: as, .cons hreads hall, ?_⟩
    rw [List.flatMap_cons, List.length_append, ← Nat.add_assoc]
    exact .cons hat hrest

end SequenceAt

end PpcaNetwork
