import PpcaNetwork.DnsResolver.Codec
import PpcaNetwork.DnsResolver.Decoding

/-!
# What `decode_name` follows

`decode_name` takes every length octet below 192 for that of a label, wants the labels to be
text, and follows a pointer unless it has followed it before.

* `NameWalk` — the labels that it meets, and where it goes on.
* `decodeName_eq_some_iff` — it returns what it meets, in lower case.
* `NameWalk.eq_of_root`, `NameWalk.of_label`, `NameWalk.of_pointer` — what stands at an offset
  says how the walk goes on.
* `NameWalk.eq_of_labelsAt` — where a legal name stands, it meets that.
-/

namespace PpcaNetwork.Dns

/-- The labels met from `offset` on, and where the reader goes on behind the name, when the
targets in `visited` have been used up. -/
inductive NameWalk (msg : List UInt8) : List Nat → Nat → List Label → Nat → Prop
  | root {visited : List Nat} {offset : Nat} (h : StandsAt msg offset [0]) :
      NameWalk msg visited offset [] (offset + 1)
  | label {visited : List Nat} {offset : Nat} {l : Label} {labels : List Label} {e : Nat}
      (hl : IsReadable l) (h : StandsAt msg offset (wireLabel l))
      (hrest : NameWalk msg visited (offset + (wireLabel l).length) labels e) :
      NameWalk msg visited offset (l :: labels) e
  | pointer {visited : List Nat} {offset target : Nat} {labels : List Label} {e : Nat}
      (hlt : target < 2 ^ 14) (hnew : target ∉ visited)
      (h : StandsAt msg offset (pointerTo target))
      (hrest : NameWalk msg (target :: visited) target labels e) :
      NameWalk msg visited offset labels (offset + 2)

/-! ## Octets that begin something -/

/-- The first byte of a pointer has its two high bits set. -/
theorem pointer_and_mask {target : Nat} (h : target < 2 ^ 14) :
    UInt8.ofNat (0xC0 + target / 256) &&& 0xC0 = 0xC0 := by
  have hbits : ∀ k < 64, UInt8.ofNat (0xC0 + k) &&& 0xC0 = 0xC0 := by decide
  exact hbits _ (by omega)

/-- Only lengths up to 191 do not look like a pointer. -/
theorem toNat_le_of_not_pointer {b : UInt8} (h : ¬ b &&& 0xC0 = 0xC0) : b.toNat ≤ 191 := by
  have hbits : ∀ k < 64, UInt8.ofNat (0xC0 + k) &&& 0xC0 = 0xC0 := by decide
  by_contra hlt
  have hb := b.toNat_lt
  have hmask := hbits (b.toNat - 192) (by omega)
  rw [show 0xC0 + (b.toNat - 192) = b.toNat by omega, UInt8.ofNat_toNat] at hmask
  exact h hmask

theorem le_toNat_of_pointer {b : UInt8} (h : b &&& 0xC0 = 0xC0) : 192 ≤ b.toNat := by
  have hand : (b &&& 0xC0).toNat ≤ b.toNat := by
    rw [UInt8.toNat_and]
    exact Nat.and_le_left
  rw [h] at hand
  exact hand

/-- The 14 bits of a pointer. -/
theorem toNat_and_mask (x : UInt16) : (x &&& 0x3FFF).toNat = x.toNat % 2 ^ 14 := by
  have hmask : x.toNat &&& (2 ^ 14 - 1) = x.toNat % 2 ^ 14 := Nat.and_two_pow_sub_one_eq_mod _ _
  rw [UInt16.toNat_and]
  exact hmask

/-- The 14 bits of a pointer that stands in a message. -/
theorem u16At_pointer {msg : List UInt8} {offset target : Nat} (hlt : target < 2 ^ 14)
    (h : StandsAt msg offset (pointerTo target)) (hle : offset + 2 ≤ msg.length) :
    (u16At msg offset hle &&& 0x3FFF).toNat = target := by
  have h0 := h.getElem_eq 0 (by simp) (by omega)
  have h1 := h.getElem_eq 1 (by simp) (by omega)
  simp only [Nat.add_zero, pointerTo, List.getElem_cons_zero, List.getElem_cons_succ] at h0 h1
  have hbytes : (u16At msg offset hle).toNat = 0xC000 + target := by
    rw [u16At, h0, h1]
    refine (toNat_ofOctets16 _ _).trans ?_
    rw [toNat_pointer hlt, UInt8.toNat_ofNat']
    omega
  rw [toNat_and_mask, hbytes]
  omega

/-- Where two bytes are taken for a pointer, the pointer stands. -/
theorem standsAt_pointer {msg : List UInt8} {offset : Nat} (hoffset : offset < msg.length)
    (hroom : offset + 2 ≤ msg.length) (hpointer : msg[offset] &&& 0xC0 = 0xC0) :
    StandsAt msg offset (pointerTo (u16At msg offset hroom &&& 0x3FFF).toNat) := by
  have hhigh := le_toNat_of_pointer hpointer
  have hb := msg[offset].toNat_lt
  have hc := msg[offset + 1].toNat_lt
  have hbytes : (u16At msg offset hroom).toNat =
      256 * msg[offset].toNat + msg[offset + 1].toNat := toNat_ofOctets16 _ _
  have hfirst : UInt8.ofNat (0xC0 + (u16At msg offset hroom &&& 0x3FFF).toNat / 256) =
      msg[offset] := by
    rw [← UInt8.toNat_inj, UInt8.toNat_ofNat', toNat_and_mask, hbytes]
    omega
  have hsecond : UInt8.ofNat ((u16At msg offset hroom &&& 0x3FFF).toNat % 256) =
      msg[offset + 1] := by
    rw [← UInt8.toNat_inj, UInt8.toNat_ofNat', toNat_and_mask, hbytes]
    omega
  rw [pointerTo, hfirst, hsecond, StandsAt.iff_prefix]
  refine ⟨by omega, ?_⟩
  rw [List.drop_eq_getElem_cons hoffset,
    List.drop_eq_getElem_cons (show offset + 1 < msg.length by omega)]
  exact ⟨_, rfl⟩

/-- Where a byte is taken for the length of a label, the label stands. -/
theorem standsAt_label {msg : List UInt8} {offset : Nat} (hoff : offset < msg.length)
    (hroom : offset + 1 + msg[offset].toNat ≤ msg.length) :
    StandsAt msg offset (wireLabel ((msg.drop (offset + 1)).take msg[offset].toNat)) ∧
      ((msg.drop (offset + 1)).take msg[offset].toNat).length = msg[offset].toNat := by
  have hlen : ((msg.drop (offset + 1)).take msg[offset].toNat).length = msg[offset].toNat := by
    rw [List.length_take, List.length_drop]
    omega
  refine ⟨?_, hlen⟩
  rw [wireLabel, hlen, UInt8.ofNat_toNat, StandsAt.iff_prefix]
  refine ⟨hoff.le, ?_⟩
  rw [List.drop_eq_getElem_cons hoff]
  exact (List.prefix_cons_inj _).mpr (List.take_prefix _ _)

/-! ## The loop -/

/-- What the loop has met. -/
theorem nameWalk_of_decodeNameLoop {msg : List UInt8} {fuel : Nat} {acc labels' : List Text}
    {offset past : Nat} {jumped : Bool} {jumpEnd : Nat} {visited : List Nat}
    (hd : decodeNameLoop msg fuel acc offset jumped jumpEnd visited = some (labels', past)) :
    ∃ labels e, NameWalk msg visited offset labels e ∧ labels' = acc ++ lowerName labels ∧
      past = if jumped then jumpEnd else e := by
  induction fuel generalizing acc offset jumped jumpEnd visited with
  | zero => exact absurd hd (by simp [decodeNameLoop])
  | succ fuel ih =>
    cases decodeNameLoop_round hd with
    | root hoff hzero hr =>
      obtain ⟨rfl, rfl⟩ := Prod.mk.inj hr
      refine ⟨[], offset + 1, .root ?_, (List.append_nil _).symm, rfl⟩
      rw [StandsAt.iff_prefix, List.drop_eq_getElem_cons hoff, hzero]
      exact ⟨hoff.le, _, rfl⟩
    | pointer hroom hpointer hnew hnext =>
      obtain ⟨labels, e, hwalk, rfl, rfl⟩ := ih hnext
      exact ⟨labels, offset + 2,
        .pointer (pointer_lt _) hnew (standsAt_pointer (by omega) hroom hpointer) hwalk, rfl, rfl⟩
    | label hoff hzero hpointer hroom hutf8 hnext =>
      obtain ⟨hstands, hlen⟩ := standsAt_label hoff hroom
      have hpos : 0 < msg[offset].toNat := by
        by_contra hno
        exact hzero (UInt8.toNat_inj.mp (by simp only [UInt8.reduceToNat]; omega))
      have hread : IsReadable ((msg.drop (offset + 1)).take msg[offset].toNat) :=
        ⟨List.length_pos_iff.mp (by omega), hlen.le.trans (toNat_le_of_not_pointer hpointer), hutf8⟩
      obtain ⟨labels, e, hwalk, rfl, rfl⟩ := ih hnext
      have hrest : offset + 1 + msg[offset].toNat =
          offset + (wireLabel ((msg.drop (offset + 1)).take msg[offset].toNat)).length := by
        rw [length_wireLabel, hlen]
        omega
      rw [hrest] at hwalk
      exact ⟨_, e, .label hread hstands hwalk, by simp [lowerName], rfl⟩

namespace NameWalk

variable {msg : List UInt8} {visited : List Nat} {offset e : Nat} {labels : List Label}

/-- The loop meets all of it when it has the rounds that it can take. -/
theorem decodeNameLoop_eq (h : NameWalk msg visited offset labels e)
    (hv : PointersVisited visited) {fuel : Nat} (hfuel : roundsLeft msg offset visited ≤ fuel)
    (acc : List Text) (jumped : Bool) (jumpEnd : Nat) :
    decodeNameLoop msg fuel acc offset jumped jumpEnd visited =
      some (acc ++ lowerName labels, if jumped then jumpEnd else e) := by
  induction h generalizing fuel acc jumped jumpEnd with
  | @root visited offset h =>
    obtain ⟨fuel, rfl⟩ : ∃ n, fuel = n + 1 := ⟨fuel - 1, by rw [roundsLeft] at hfuel; omega⟩
    have hle := h.length_le
    have hbyte := h.getElem_eq 0 (by simp) (by simpa using hle)
    simp only [Nat.add_zero, List.getElem_cons_zero] at hbyte
    rw [decodeNameLoop, dif_pos (by simpa using hle)]
    simp only [hbyte, if_true, lowerName, List.map_nil, List.append_nil]
  | @label visited offset l labels e hl h _ ih =>
    obtain ⟨fuel, rfl⟩ : ∃ n, fuel = n + 1 := ⟨fuel - 1, by rw [roundsLeft] at hfuel; omega⟩
    have hle := h.length_le
    rw [length_wireLabel] at hle ih
    obtain ⟨hlen, hzero, hpointer⟩ :=
      lengthByte_of_label (List.length_pos_iff.mpr hl.ne_nil) hl.length_le
    have hbyte := h.getElem_eq 0 (by simp) (by omega)
    simp only [Nat.add_zero, wireLabel, List.getElem_cons_zero] at hbyte
    have hparts : StandsAt msg offset ([UInt8.ofNat l.length] ++ l) := h
    have htake : (msg.drop (offset + 1)).take l.length = l := hparts.append.2.take_drop
    have hless := roundsLeft_label visited (show offset < msg.length by omega)
      (show offset < offset + (l.length + 1) by omega)
    rw [decodeNameLoop, dif_pos (by omega)]
    simp only [hbyte, hzero, hpointer, if_false, hlen, htake, hl.utf8, if_true]
    rw [if_pos (by omega), show offset + 1 + l.length = offset + (l.length + 1) by omega,
      ih hv (by omega), List.append_assoc]
    rfl
  | @pointer visited offset target labels e hlt hnew h _ ih =>
    obtain ⟨fuel, rfl⟩ : ∃ n, fuel = n + 1 := ⟨fuel - 1, by rw [roundsLeft] at hfuel; omega⟩
    have hle : offset + 2 ≤ msg.length := h.length_le
    have hbyte := h.getElem_eq 0 (by simp) (by omega)
    simp only [Nat.add_zero, pointerTo, List.getElem_cons_zero] at hbyte
    have hzero : UInt8.ofNat (0xC0 + target / 256) ≠ 0 := by
      intro hzero
      have htoNat := toNat_pointer hlt
      rw [hzero] at htoNat
      simp only [UInt8.reduceToNat] at htoNat
      omega
    have hv' := hv.cons hnew hlt
    have hless := roundsLeft_pointer msg offset hv'
    rw [decodeNameLoop, dif_pos (by omega)]
    simp only [hbyte, hzero, if_false, pointer_and_mask hlt, if_true, dif_pos hle,
      u16At_pointer hlt h hle, hnew]
    rw [ih hv' (by omega)]
    simp

/-- The labels that are met are readable. -/
theorem readable (h : NameWalk msg visited offset labels e) : ∀ l ∈ labels, IsReadable l := by
  induction h with
  | root => simp
  | label hl _ _ ih =>
    intro l hmem
    rcases List.mem_cons.mp hmem with rfl | hmem
    · exact hl
    · exact ih l hmem
  | pointer _ _ _ _ ih => exact ih

end NameWalk

/-- **What `decode_name` returns.**  The labels that it meets, in lower case and with a dot
behind each. -/
theorem decodeName_eq_some_iff {msg : List UInt8} {offset past : Nat} {name : Text} :
    decodeName msg offset = some (name, past) ↔
      ∃ labels, NameWalk msg [] offset labels past ∧ name = nameOf (lowerName labels) := by
  constructor
  · intro hd
    obtain ⟨⟨labels', e⟩, hloop, heq⟩ := Option.map_eq_some_iff.mp hd
    obtain ⟨rfl, rfl⟩ := Prod.mk.inj heq
    obtain ⟨labels, e', hwalk, rfl, rfl⟩ := nameWalk_of_decodeNameLoop hloop
    exact ⟨labels, hwalk, rfl⟩
  · rintro ⟨labels, hwalk, rfl⟩
    rw [decodeName, hwalk.decodeNameLoop_eq .nil (roundsLeft_start_le msg offset)]
    rfl

/-! ## How a walk goes on -/

namespace NameWalk

variable {msg : List UInt8} {visited : List Nat} {offset e : Nat} {labels : List Label}

/-- What the first octet says about what is met. -/
theorem head (h : NameWalk msg visited offset labels e) {b : UInt8} (hb : msg[offset]? = some b) :
    (b = 0 ∧ labels = [] ∧ e = offset + 1) ∨
      (0 < b.toNat ∧ b.toNat < 192 ∧ ∃ l rest, labels = l :: rest ∧ l.length = b.toNat ∧
        IsReadable l ∧ StandsAt msg offset (wireLabel l) ∧
        NameWalk msg visited (offset + (wireLabel l).length) rest e) ∨
      (192 ≤ b.toNat ∧ e = offset + 2 ∧ ∃ target e', target < 2 ^ 14 ∧ target ∉ visited ∧
        StandsAt msg offset (pointerTo target) ∧
        NameWalk msg (target :: visited) target labels e') := by
  cases h with
  | root h =>
    rw [h.getElem?_eq] at hb
    exact .inl ⟨(Option.some.inj hb).symm, rfl, rfl⟩
  | @label _ _ l rest _ hl h hrest =>
    have hpos := List.length_pos_iff.mpr hl.ne_nil
    have hle := hl.length_le
    rw [StandsAt.getElem?_eq h] at hb
    have hlen : b.toNat = l.length := by
      rw [← Option.some.inj hb, UInt8.toNat_ofNat']
      exact Nat.mod_eq_of_lt (by omega)
    exact .inr (.inl ⟨by omega, by omega, l, rest, rfl, hlen.symm, hl, h, hrest⟩)
  | @pointer _ _ target _ e' hlt hnew h hrest =>
    rw [StandsAt.getElem?_eq h] at hb
    rw [← Option.some.inj hb, toNat_pointer hlt]
    exact .inr (.inr ⟨Nat.le_add_right _ _, rfl, target, e', hlt, hnew, h, hrest⟩)

/-- At the root nothing else is met. -/
theorem eq_of_root (h : NameWalk msg visited offset labels e) (hroot : StandsAt msg offset [0]) :
    labels = [] ∧ e = offset + 1 := by
  rcases h.head hroot.getElem?_eq with ⟨-, hnil, he⟩ | ⟨hpos, -⟩ | ⟨hhigh, -⟩
  · exact ⟨hnil, he⟩
  · exact absurd hpos (by decide)
  · exact absurd hhigh (by decide)

/-- At a label that label is met. -/
theorem of_label (h : NameWalk msg visited offset labels e) {l : Label} (hne : l ≠ [])
    (hle : l.length ≤ 191) (hstands : StandsAt msg offset (wireLabel l)) :
    ∃ rest, labels = l :: rest ∧ NameWalk msg visited (offset + (wireLabel l).length) rest e := by
  obtain ⟨hlen, hzero, hpointer⟩ := lengthByte_of_label (List.length_pos_iff.mpr hne) hle
  rcases h.head (StandsAt.getElem?_eq hstands) with
    ⟨hz, -⟩ | ⟨-, -, l', rest, rfl, hl', -, h', hrest⟩ | ⟨hhigh, -⟩
  · exact absurd hz hzero
  · have heq := h'.unique hstands (by rw [length_wireLabel, length_wireLabel, hl', hlen])
    obtain rfl := (List.cons.inj heq).2
    exact ⟨rest, rfl, hrest⟩
  · omega

/-- At a pointer what stands at its target is met. -/
theorem of_pointer (h : NameWalk msg visited offset labels e) {target : Nat}
    (hlt : target < 2 ^ 14) (hstands : StandsAt msg offset (pointerTo target)) :
    e = offset + 2 ∧ ∃ e', NameWalk msg (target :: visited) target labels e' := by
  rcases h.head (StandsAt.getElem?_eq hstands) with ⟨hz, -⟩ | ⟨-, hlow, -⟩ |
    ⟨-, he, target', e', hlt', -, h', hrest⟩
  · have hzero := congrArg UInt8.toNat hz
    rw [toNat_pointer hlt] at hzero
    simp only [UInt8.reduceToNat] at hzero
    omega
  · rw [toNat_pointer hlt] at hlow
    omega
  · obtain rfl := pointerTo_inj hlt' hlt (h'.unique hstands rfl)
    exact ⟨he, e', hrest⟩

/-- Where a name is written out, it is met. -/
theorem eq_of_wireName {labels' : List Label} (h : NameWalk msg visited offset labels e)
    (hlabels : ∀ l ∈ labels', l ≠ [] ∧ l.length ≤ 191)
    (hstands : StandsAt msg offset (wireName labels')) :
    labels = labels' ∧ e = offset + (wireName labels').length := by
  induction labels' generalizing offset labels with
  | nil => exact h.eq_of_root hstands
  | cons l labels' ih =>
    rw [wireName_cons] at hstands
    obtain ⟨hne, hle⟩ := hlabels l (by simp)
    obtain ⟨rest, rfl, hrest⟩ := h.of_label hne hle hstands.append.1
    obtain ⟨rfl, rfl⟩ :=
      ih hrest (fun l hl => hlabels l (List.mem_cons_of_mem _ hl)) hstands.append.2
    exact ⟨rfl, by rw [wireName_cons, List.length_append, ← Nat.add_assoc]⟩

/-- Where a name stands that is legal in the sense of RFC 1035, it is met. -/
theorem eq_of_labelsAt {base e' : Nat} {labels' : List Label}
    (h : NameWalk msg visited offset labels e) (h' : LabelsAt msg base offset labels' e') :
    labels = labels' ∧ e = e' := by
  induction h' generalizing visited labels e with
  | root hroot => exact h.eq_of_root hroot
  | label hl hstands _ ih =>
    obtain ⟨rest, rfl, hrest⟩ := h.of_label hl.ne_nil (hl.le.trans (by decide)) hstands
    obtain ⟨rfl, rfl⟩ := ih hrest
    exact ⟨rfl, rfl⟩
  | pointer _ hlt hstands _ ih =>
    obtain ⟨rfl, _, hrest⟩ := h.of_pointer hlt hstands
    exact ⟨(ih hrest).1, rfl⟩

end NameWalk

end PpcaNetwork.Dns
