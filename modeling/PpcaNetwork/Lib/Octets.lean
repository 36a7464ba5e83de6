import Mathlib

/-!
# Numbers in network byte order

The 16-bit and 32-bit numbers of a wire format: `to_be_bytes` and `from_be_bytes`,
and reading a number, or any bytes, at a position of a message.

* `ofOctets16_octets16`, `ofOctets32_octets32` — the round trips.
* `toNat_ofOctets16` — the value of two octets.
* `StandsAt` — bytes that stand in a message at an offset, whatever comes before and
  behind them; `StandsAt.append` takes them apart.
-/

namespace PpcaNetwork

/-- `u16::to_be_bytes`. -/
def octets16 (x : UInt16) : List UInt8 := [(x >>> 8).toUInt8, x.toUInt8]

/-- `u32::to_be_bytes`. -/
def octets32 (x : UInt32) : List UInt8 :=
  [(x >>> 24).toUInt8, (x >>> 16).toUInt8, (x >>> 8).toUInt8, x.toUInt8]

/-- `u16::from_be_bytes`. -/
def ofOctets16 (b0 b1 : UInt8) : UInt16 := b0.toUInt16 <<< 8 ||| b1.toUInt16

/-- `u32::from_be_bytes`. -/
def ofOctets32 (b0 b1 b2 b3 : UInt8) : UInt32 :=
  b0.toUInt32 <<< 24 ||| b1.toUInt32 <<< 16 ||| b2.toUInt32 <<< 8 ||| b3.toUInt32

@[simp] theorem length_octets16 (x : UInt16) : (octets16 x).length = 2 := rfl

@[simp] theorem length_octets32 (x : UInt32) : (octets32 x).length = 4 := rfl

/-! ## The round trips -/

@[simp] theorem toNat_ofOctets16 (b0 b1 : UInt8) :
    (ofOctets16 b0 b1).toNat = 256 * b0.toNat + b1.toNat := by
  have h0 := b0.toNat_lt
  have h1 := b1.toNat_lt
  have hfit : b0.toNat <<< 8 % 65536 = b0.toNat <<< 8 := by
    rw [Nat.shiftLeft_eq]
    omega
  simp only [ofOctets16, UInt16.toNat_or, UInt16.toNat_shiftLeft, UInt8.toNat_toUInt16]
  simp only [UInt16.reduceToNat, Nat.reduceMod, Nat.reducePow, hfit]
  rw [← Nat.shiftLeft_add_eq_or_of_lt h1, Nat.shiftLeft_eq]
  omega

/-- Putting an octet behind a number. -/
theorem shiftLeft_or_octet (n : Nat) {m i : Nat} (hm : m < 256) :
    n <<< (i + 8) ||| m <<< i = (256 * n + m) <<< i := by
  have hlt : m <<< i < 2 ^ (i + 8) := by
    rw [Nat.shiftLeft_eq, Nat.pow_add, Nat.mul_comm]
    exact Nat.mul_lt_mul_of_pos_left hm (Nat.two_pow_pos i)
  rw [← Nat.shiftLeft_add_eq_or_of_lt hlt]
  simp only [Nat.shiftLeft_eq, Nat.pow_add]
  ring

@[simp] theorem toNat_ofOctets32 (b0 b1 b2 b3 : UInt8) :
    (ofOctets32 b0 b1 b2 b3).toNat =
      16777216 * b0.toNat + 65536 * b1.toNat + 256 * b2.toNat + b3.toNat := by
  have hfit : ∀ (b : UInt8) (i : Nat), i ≤ 24 → b.toNat <<< i % 4294967296 = b.toNat <<< i := by
    intro b i hi
    have hmul : b.toNat * 2 ^ i ≤ b.toNat * 2 ^ 24 :=
      Nat.mul_le_mul_left _ (Nat.pow_le_pow_right (by decide) hi)
    have hb := b.toNat_lt
    rw [Nat.shiftLeft_eq]
    exact Nat.mod_eq_of_lt (by omega)
  have hlast := shiftLeft_or_octet (i := 0) (256 * (256 * b0.toNat + b1.toNat) + b2.toNat)
    b3.toNat_lt
  simp only [Nat.shiftLeft_zero, Nat.zero_add] at hlast
  simp only [ofOctets32, UInt32.toNat_or, UInt32.toNat_shiftLeft, UInt8.toNat_toUInt32]
  simp only [UInt32.reduceToNat, Nat.reduceMod, Nat.reducePow, hfit _ 24, hfit _ 16, hfit _ 8,
    Nat.reduceLeDiff]
  rw [shiftLeft_or_octet (i := 16) _ b1.toNat_lt, shiftLeft_or_octet (i := 8) _ b2.toNat_lt, hlast]
  omega

theorem ofOctets16_octets16 (x : UInt16) :
    ofOctets16 (x >>> 8).toUInt8 x.toUInt8 = x := by
  apply UInt16.toNat_inj.mp
  have hx := x.toNat_lt
  rw [toNat_ofOctets16]
  simp [Nat.shiftRight_eq_div_pow]
  omega

theorem ofOctets32_octets32 (x : UInt32) :
    ofOctets32 (x >>> 24).toUInt8 (x >>> 16).toUInt8 (x >>> 8).toUInt8 x.toUInt8 = x := by
  apply UInt32.toNat_inj.mp
  have hx := x.toNat_lt
  rw [toNat_ofOctets32]
  simp [Nat.shiftRight_eq_div_pow]
  omega

theorem octets16_ofOctets16 (b0 b1 : UInt8) : octets16 (ofOctets16 b0 b1) = [b0, b1] := by
  have h0 := b0.toNat_lt
  have h1 := b1.toNat_lt
  simp only [octets16, List.cons.injEq, and_true, ← UInt8.toNat_inj, UInt16.toNat_toUInt8,
    UInt16.toNat_shiftRight, toNat_ofOctets16, Nat.shiftRight_eq_div_pow]
  simp only [UInt16.reduceToNat, Nat.reduceMod, Nat.reducePow]
  omega

theorem octets32_ofOctets32 (b0 b1 b2 b3 : UInt8) :
    octets32 (ofOctets32 b0 b1 b2 b3) = [b0, b1, b2, b3] := by
  have h0 := b0.toNat_lt
  have h1 := b1.toNat_lt
  have h2 := b2.toNat_lt
  have h3 := b3.toNat_lt
  simp only [octets32, List.cons.injEq, and_true, ← UInt8.toNat_inj, UInt32.toNat_toUInt8,
    UInt32.toNat_shiftRight, toNat_ofOctets32, Nat.shiftRight_eq_div_pow]
  simp only [UInt32.reduceToNat, Nat.reduceMod, Nat.reducePow]
  omega

/-! ## Bytes at an offset -/

/-- The bytes stand in the message at the offset. -/
def StandsAt (msg : List UInt8) (offset : Nat) (bytes : List UInt8) : Prop :=
  ∃ before behind, msg = before ++ bytes ++ behind ∧ before.length = offset

namespace StandsAt

variable {msg bytes bytes' : List UInt8} {offset : Nat}

theorem self (bytes : List UInt8) : StandsAt bytes 0 bytes := ⟨[], [], by simp, rfl⟩

theorem length_le (h : StandsAt msg offset bytes) : offset + bytes.length ≤ msg.length := by
  obtain ⟨before, behind, rfl, rfl⟩ := h
  simp only [List.length_append]
  omega

/-- What stands there in two parts stands there one part behind the other. -/
theorem append (h : StandsAt msg offset (bytes ++ bytes')) :
    StandsAt msg offset bytes ∧ StandsAt msg (offset + bytes.length) bytes' := by
  obtain ⟨before, behind, rfl, rfl⟩ := h
  refine ⟨⟨before, bytes' ++ behind, by simp, rfl⟩, ⟨before ++ bytes, behind, by simp, ?_⟩⟩
  rw [List.length_append]

/-- What stands in a message still stands there when it grows. -/
theorem extend (h : StandsAt msg offset bytes) {msg' : List UInt8} (hgrown : msg <+: msg') :
    StandsAt msg' offset bytes := by
  obtain ⟨before, behind, rfl, rfl⟩ := h
  obtain ⟨tail, rfl⟩ := hgrown
  exact ⟨before, behind ++ tail, by simp, rfl⟩

/-- Bytes stand where the message goes on with them. -/
theorem iff_prefix :
    StandsAt msg offset bytes ↔ offset ≤ msg.length ∧ bytes <+: msg.drop offset := by
  constructor
  · rintro ⟨before, behind, rfl, rfl⟩
    refine ⟨by simp only [List.length_append]; omega, behind, ?_⟩
    rw [List.append_assoc, List.drop_left' rfl]
  · rintro ⟨hle, behind, heq⟩
    refine ⟨msg.take offset, behind, ?_, List.length_take_of_le hle⟩
    rw [List.append_assoc, heq, List.take_append_drop]

instance (msg : List UInt8) (offset : Nat) (bytes : List UInt8) :
    Decidable (StandsAt msg offset bytes) := decidable_of_iff _ iff_prefix.symm

/-- What stands one part behind the other stands there as a whole. -/
theorem join (h : StandsAt msg offset bytes) (h' : StandsAt msg (offset + bytes.length) bytes') :
    StandsAt msg offset (bytes ++ bytes') := by
  obtain ⟨hle, behind, heq⟩ := iff_prefix.mp h
  obtain ⟨-, hprefix⟩ := iff_prefix.mp h'
  rw [← List.drop_drop, ← heq, List.drop_left' rfl] at hprefix
  refine iff_prefix.mpr ⟨hle, ?_⟩
  rw [← heq]
  exact (List.prefix_append_right_inj bytes).mpr hprefix

/-- The byte that stands there. -/
theorem getElem?_eq {b : UInt8} (h : StandsAt msg offset (b :: bytes)) :
    msg[offset]? = some b := by
  obtain ⟨before, behind, rfl, rfl⟩ := h
  simp

/-- The bytes are read back. -/
theorem getElem_eq (h : StandsAt msg offset bytes) (i : Nat) (hi : i < bytes.length)
    (hlt : offset + i < msg.length) : msg[offset + i] = bytes[i] := by
  obtain ⟨before, behind, rfl, rfl⟩ := h
  rw [List.getElem_append_left (by rw [List.length_append]; omega),
    List.getElem_append_right (Nat.le_add_right _ _)]
  simp

theorem getElem?_add (h : StandsAt msg offset bytes) {i : Nat} (hi : i < bytes.length) :
    msg[offset + i]? = bytes[i]? := by
  have hlt := h.length_le
  rw [List.getElem?_eq_getElem (show offset + i < msg.length by omega),
    List.getElem?_eq_getElem hi, h.getElem_eq i hi]

/-- The slice of their length are the bytes. -/
theorem take_drop (h : StandsAt msg offset bytes) :
    (msg.drop offset).take bytes.length = bytes := by
  obtain ⟨before, behind, rfl, rfl⟩ := h
  rw [List.append_assoc, List.drop_left' rfl, List.take_left' rfl]

/-- What stands somewhere also stands there in a message with the same bytes at its place. -/
theorem congr {msg' : List UInt8} (h : StandsAt msg offset bytes) (hne : bytes ≠ [])
    (hsame : ∀ i, offset ≤ i → i < offset + bytes.length → msg'[i]? = msg[i]?) :
    StandsAt msg' offset bytes := by
  have hpos := List.length_pos_iff.mpr hne
  have hbyte : ∀ i (hi : i < bytes.length), msg'[offset + i]? = some bytes[i] := by
    intro i hi
    rw [hsame (offset + i) (by omega) (by omega), h.getElem?_add hi, List.getElem?_eq_getElem hi]
  refine iff_prefix.mpr ⟨?_, ?_⟩
  · have hlt := (List.getElem?_eq_some_iff.mp (hbyte 0 hpos)).1
    omega
  · rw [List.prefix_iff_getElem?]
    intro i hi
    rw [List.getElem?_drop]
    exact hbyte i hi

/-- A slice of a message stands where it was cut out. -/
theorem slice {len : Nat} (h : offset + len ≤ msg.length) :
    StandsAt msg offset ((msg.drop offset).take len) :=
  iff_prefix.mpr ⟨by omega, List.take_prefix _ _⟩

/-- Of one length, only one thing stands there. -/
theorem unique (h : StandsAt msg offset bytes) (h' : StandsAt msg offset bytes')
    (hlen : bytes.length = bytes'.length) : bytes = bytes' := by
  have htake := h'.take_drop
  rw [← hlen, h.take_drop] at htake
  exact htake

/-- The number that stands there. -/
theorem octets16_eq {x : UInt16} (h : StandsAt msg offset (octets16 x))
    (h0 : offset < msg.length) (h1 : offset + 1 < msg.length) :
    ofOctets16 msg[offset] msg[offset + 1] = x := by
  have hb0 := h.getElem_eq 0 (by simp) h0
  have hb1 := h.getElem_eq 1 (by simp) h1
  simp only [Nat.add_zero] at hb0
  rw [hb0, hb1]
  exact ofOctets16_octets16 x

theorem octets32_eq {x : UInt32} (h : StandsAt msg offset (octets32 x))
    (h0 : offset < msg.length) (h1 : offset + 1 < msg.length) (h2 : offset + 2 < msg.length)
    (h3 : offset + 3 < msg.length) :
    ofOctets32 msg[offset] msg[offset + 1] msg[offset + 2] msg[offset + 3] = x := by
  have hb0 := h.getElem_eq 0 (by simp) h0
  have hb1 := h.getElem_eq 1 (by simp) h1
  have hb2 := h.getElem_eq 2 (by simp) h2
  have hb3 := h.getElem_eq 3 (by simp) h3
  simp only [Nat.add_zero] at hb0
  rw [hb0, hb1, hb2, hb3]
  exact ofOctets32_octets32 x

end StandsAt

end PpcaNetwork
