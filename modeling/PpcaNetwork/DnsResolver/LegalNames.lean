import PpcaNetwork.DnsResolver.Names

/-!
# Legal names

RFC 1035 has labels of at most 63 octets and names of at most 255, and keeps the length octets
from 64 to 191 for later use.  `decode_name` takes these for lengths, and counts nothing.

* `LengthOctets` — the length octets met from an offset on, along the pointers.
* `LegalName` — a name that is read as RFC 1035 has it, and is written as such again.
* `legal_name_iff` — when what `decode_name` accepts is one.
-/

namespace PpcaNetwork.Dns

/-! ## Length octets -/

/-- The length octets of the labels met from `offset` on, wherever pointers lead. -/
inductive LengthOctets (msg : List UInt8) : Nat → List UInt8 → Prop
  | root {offset : Nat} (h : msg[offset]? = some 0) : LengthOctets msg offset []
  | label {offset : Nat} {b : UInt8} {octets : List UInt8} (h : msg[offset]? = some b)
      (hpos : 0 < b.toNat) (hlow : b.toNat < 192)
      (hrest : LengthOctets msg (offset + 1 + b.toNat) octets) :
      LengthOctets msg offset (b :: octets)
  | pointer {offset : Nat} {b c : UInt8} {octets : List UInt8} (hb : msg[offset]? = some b)
      (hc : msg[offset + 1]? = some c) (hhigh : 192 ≤ b.toNat)
      (hrest : LengthOctets msg ((256 * b.toNat + c.toNat) % 2 ^ 14) octets) :
      LengthOctets msg offset octets

/-- The message says which octets are met. -/
theorem LengthOctets.unique {msg : List UInt8} {offset : Nat} {octets octets' : List UInt8}
    (h : LengthOctets msg offset octets) (h' : LengthOctets msg offset octets') :
    octets = octets' := by
  induction h generalizing octets' with
  | root hb =>
    cases h' with
    | root => rfl
    | label hb' hpos =>
      rw [hb] at hb'
      rw [← Option.some.inj hb'] at hpos
      exact absurd hpos (by decide)
    | pointer hb' _ hhigh =>
      rw [hb] at hb'
      rw [← Option.some.inj hb'] at hhigh
      exact absurd hhigh (by decide)
  | label hb hpos hlow _ ih =>
    cases h' with
    | root hb' =>
      rw [hb] at hb'
      rw [Option.some.inj hb'] at hpos
      exact absurd hpos (by decide)
    | label hb' _ _ hrest =>
      rw [hb] at hb'
      obtain rfl := Option.some.inj hb'
      rw [ih hrest]
    | pointer hb' _ hhigh =>
      rw [hb] at hb'
      rw [← Option.some.inj hb'] at hhigh
      omega
  | pointer hb hc hhigh _ ih =>
    cases h' with
    | root hb' =>
      rw [hb] at hb'
      rw [Option.some.inj hb'] at hhigh
      exact absurd hhigh (by decide)
    | label hb' _ hlow =>
      rw [hb] at hb'
      rw [← Option.some.inj hb'] at hlow
      omega
    | pointer hb' hc' _ hrest =>
      rw [hb] at hb'
      rw [hc] at hc'
      obtain rfl := Option.some.inj hb'
      obtain rfl := Option.some.inj hc'
      exact ih hrest

/-- The octets of a pointer and its target. -/
theorem pointer_octets {msg : List UInt8} {offset target : Nat} (hlt : target < 2 ^ 14)
    (h : StandsAt msg offset (pointerTo target)) :
    ∃ b c, msg[offset]? = some b ∧ msg[offset + 1]? = some c ∧ 192 ≤ b.toNat ∧
      (256 * b.toNat + c.toNat) % 2 ^ 14 = target := by
  refine ⟨_, _, StandsAt.getElem?_eq h, (h.getElem?_add (show 1 < 2 by decide)).trans rfl, ?_, ?_⟩
  · rw [toNat_pointer hlt]
    exact Nat.le_add_right _ _
  · rw [toNat_pointer hlt, UInt8.toNat_ofNat']
    omega

namespace NameWalk

variable {msg : List UInt8} {visited : List Nat} {offset e : Nat} {labels : List Label}

/-- The octets met are the lengths of the labels. -/
theorem lengthOctets (h : NameWalk msg visited offset labels e) :
    LengthOctets msg offset (labels.map fun l => UInt8.ofNat l.length) := by
  induction h with
  | root h => exact .root h.getElem?_eq
  | @label _ offset l labels e hl h _ ih =>
    obtain ⟨hlen, -, -⟩ := lengthByte_of_label (List.length_pos_iff.mpr hl.ne_nil) hl.length_le
    have hpos := List.length_pos_iff.mpr hl.ne_nil
    have hle := hl.length_le
    have hbehind : offset + (l.length + 1) = offset + 1 + l.length := by omega
    rw [length_wireLabel, hbehind, ← hlen] at ih
    rw [← hlen] at hpos hle
    exact .label (StandsAt.getElem?_eq h) hpos (Nat.lt_succ_of_le hle) ih
  | pointer hlt _ h _ ih =>
    obtain ⟨b, c, hb, hc, hhigh, rfl⟩ := pointer_octets hlt h
    exact .pointer hb hc hhigh ih

/-- Labels of at most 63 octets are read as RFC 1035 has it. -/
theorem labelsAt (h : NameWalk msg visited offset labels e)
    (hshort : ∀ l ∈ labels, l.length ≤ 63) : LabelsAt msg 0 offset labels e := by
  induction h with
  | root h => exact .root h
  | @label _ _ l _ _ hl h _ ih =>
    exact .label ⟨List.length_pos_iff.mpr hl.ne_nil, hshort l (by simp)⟩ h
      (ih fun l hl => hshort l (List.mem_cons_of_mem _ hl))
  | pointer hlt _ h _ ih => exact .pointer (Nat.zero_le _) hlt h (ih hshort)

/-- Each label takes its length and one octet, and the root one. -/
theorem length_wireName_eq (h : NameWalk msg visited offset labels e) :
    (wireName labels).length =
      ((labels.map fun l => UInt8.ofNat l.length).map fun b => b.toNat + 1).sum + 1 := by
  have hsum : ∀ labels : List Label, (∀ l ∈ labels, IsReadable l) →
      (labels.flatMap wireLabel).length =
        ((labels.map fun l => UInt8.ofNat l.length).map fun b => b.toNat + 1).sum := by
    intro labels hlabels
    induction labels with
    | nil => rfl
    | cons l labels ih =>
      have hl := hlabels l (by simp)
      obtain ⟨hlen, -, -⟩ := lengthByte_of_label (List.length_pos_iff.mpr hl.ne_nil) hl.length_le
      rw [List.flatMap_cons, List.length_append, length_wireLabel,
        ih fun l hl => hlabels l (List.mem_cons_of_mem _ hl), List.map_cons, List.map_cons,
        List.sum_cons, hlen]
  rw [wireName, List.length_append, hsum labels h.readable]
  rfl

end NameWalk

/-! ## Names that are accepted -/

/-- A name with labels of at most 63 octets and at most 255 in all. -/
structure LegalLabels (labels : List Label) : Prop where
  valid : ∀ l ∈ labels, ValidLabel l
  length_le : (wireName labels).length ≤ 255

/-- What was followed from `offset` on is a legal name in the sense of RFC 1035, and the name
is written as one, without pointers. -/
structure LegalName (msg : List UInt8) (offset : Nat) (name : Text) : Prop where
  followed : ∃ labels e, LabelsAt msg 0 offset labels e ∧ LegalLabels labels
  written : ∃ labels, encodeName name = wireName labels ∧ LegalLabels labels

/-- A legal name is written as a legal name, whatever dots are in its labels. -/
theorem written_of_legal {labels : List Label} (h : LegalLabels labels) :
    ∃ labels', encodeName (nameOf (lowerName labels)) = wireName labels' ∧
      LegalLabels labels' := by
  refine ⟨_, encodeName_nameOf_pieces _, valid_pieces (valid_lowerName h.valid), ?_⟩
  calc (wireName ((lowerName labels).flatMap pieces)).length
      ≤ (wireName (lowerName labels)).length := length_wireName_pieces _
    _ = (wireName labels).length := length_wireName_lowerName labels
    _ ≤ 255 := h.length_le

/-- **When a name that is accepted is legal.**  For every message, offset and chain of pointers:
exactly if no length octet on the way has 01 or 10 for its high bits, and the lengths with one
octet each for themselves make at most 254, with which the root is the 255th. -/
theorem legal_name_iff {msg : List UInt8} {offset end' : Nat} {name : Text}
    (hd : decodeName msg offset = some (name, end')) :
    LegalName msg offset name ↔
      ∀ octets, LengthOctets msg offset octets →
        (∀ b ∈ octets, b.toNat < 64) ∧ (octets.map fun b => b.toNat + 1).sum ≤ 254 := by
  obtain ⟨labels, hwalk, rfl⟩ := decodeName_eq_some_iff.mp hd
  have hoctets := hwalk.lengthOctets
  have hlength := hwalk.length_wireName_eq
  have hlen : ∀ l ∈ labels, (UInt8.ofNat l.length).toNat = l.length := fun l hl =>
    (lengthByte_of_label (List.length_pos_iff.mpr (hwalk.readable l hl).ne_nil)
      (hwalk.readable l hl).length_le).1
  constructor
  · intro hlegal octets hmet
    obtain ⟨labels', e, hat, hlabels⟩ := hlegal.followed
    obtain ⟨rfl, rfl⟩ := hwalk.eq_of_labelsAt hat
    obtain rfl := hmet.unique hoctets
    refine ⟨?_, ?_⟩
    · intro b hb
      obtain ⟨l, hl, rfl⟩ := List.mem_map.mp hb
      rw [hlen l hl]
      exact Nat.lt_succ_of_le (hlabels.valid l hl).le
    · have hle := hlabels.length_le
      omega
  · intro hshort
    obtain ⟨hlow, hsum⟩ := hshort _ hoctets
    have hle : ∀ l ∈ labels, l.length ≤ 63 := by
      intro l hl
      have hb := hlow _ (List.mem_map_of_mem hl)
      rw [hlen l hl] at hb
      exact Nat.le_of_lt_succ hb
    have hlabels : LegalLabels labels :=
      ⟨(hwalk.labelsAt hle).valid, by omega⟩
    exact ⟨⟨labels, end', hwalk.labelsAt hle, hlabels⟩, written_of_legal hlabels⟩

/-- The name `a.`, and behind it the label `b` with a pointer to that name. -/
def demoPointedName : List UInt8 := [1, 97, 0, 1, 98, 0xC0, 0]

theorem demo_legal_name : LegalName demoPointedName 3 (utf8 "b.a.") := by
  have hd : decodeName demoPointedName 3 = some (utf8 "b.a.", 7) := by decide +kernel
  refine (legal_name_iff hd).mpr ?_
  intro octets hmet
  have hpointed : LengthOctets demoPointedName 0 [1] :=
    .label rfl (by decide) (by decide) (.root rfl)
  have hwritten : LengthOctets demoPointedName 3 [1, 1] :=
    .label rfl (by decide) (by decide) (.pointer rfl rfl (by decide) hpointed)
  obtain rfl := hmet.unique hwritten
  simp

/-- A label of 64 octets, and the root. -/
def demoLongLabel : List UInt8 := 64 :: List.replicate 64 97 ++ [0]

/-- What `decode_name` makes of it. -/
def demoLongName : Text := List.replicate 64 97 ++ [dot]

/-- **A label of 64 octets.**  Its length octet has 01 for its high bits; it is accepted, and
written as it came. -/
theorem demo_long_label :
    decodeName demoLongLabel 0 = some (demoLongName, 66) ∧
      encodeName demoLongName = demoLongLabel ∧ ¬ LegalName demoLongLabel 0 demoLongName := by
  refine ⟨by decide +kernel, by decide +kernel, fun hlegal => ?_⟩
  obtain ⟨labels, e, hat, -⟩ := hlegal.followed
  have hfirst : demoLongLabel[0]? = some 64 := rfl
  exact LabelsAt.not_of_reserved hfirst (by decide) (by decide) hat

end PpcaNetwork.Dns
