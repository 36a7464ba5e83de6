import PpcaNetwork.Lib.Text

/-!
# Base64

The standard alphabet with padding: three bytes in four characters.

* `encode` — the text of a list of bytes.
* `decode` — the bytes of a text, if it is the text of some.
* `IsDecoder` — what a decoder returns, and `isDecoder_decode`.
-/

namespace PpcaNetwork.Base64

/-! ## Characters -/

/-- `A` to `Z`, `a` to `z`, `0` to `9`, `+` and `/`. -/
def char (n : Nat) : UInt8 :=
  if n < 26 then UInt8.ofNat (0x41 + n)
  else if n < 52 then UInt8.ofNat (0x61 + (n - 26))
  else if n < 62 then UInt8.ofNat (0x30 + (n - 52))
  else if n = 62 then 0x2B
  else 0x2F

/-- The number of a character, below 64 if it is one of the alphabet. -/
def value (c : UInt8) : Nat :=
  if 0x41 ≤ c ∧ c ≤ 0x5A then c.toNat - 0x41
  else if 0x61 ≤ c ∧ c ≤ 0x7A then c.toNat - 0x61 + 26
  else if 0x30 ≤ c ∧ c ≤ 0x39 then c.toNat - 0x30 + 52
  else if c = 0x2B then 62
  else 63

/-- `=`. -/
def pad : UInt8 := 0x3D

theorem char_spec {n : Nat} (h : n < 64) : value (char n) = n ∧ char n ≠ pad ∧ char n < 0x80 := by
  have hall : ∀ n : Fin 64, value (char n) = n ∧ char n ≠ pad ∧ char n < 0x80 := by decide
  exact hall ⟨n, h⟩

/-! ## Writing -/

/-- The `i`-th of the four numbers below 64 of a number of 24 bits. -/
def sextet (n i : Nat) : Nat := n / 64 ^ (3 - i) % 64

/-- The text of some bytes. -/
def encode : List UInt8 → Text
  | [] => []
  | [a] =>
    let n := a.toNat * 65536
    [char (sextet n 0), char (sextet n 1), pad, pad]
  | [a, b] =>
    let n := a.toNat * 65536 + b.toNat * 256
    [char (sextet n 0), char (sextet n 1), char (sextet n 2), pad]
  | a :: b :: c :: rest =>
    let n := a.toNat * 65536 + b.toNat * 256 + c.toNat
    char (sextet n 0) :: char (sextet n 1) :: char (sextet n 2) :: char (sextet n 3) :: encode rest

theorem sextet_lt (n i : Nat) : sextet n i < 64 := Nat.mod_lt _ (by decide)

/-- The text is ASCII. -/
theorem encode_ascii (bytes : List UInt8) : ∀ c ∈ encode bytes, c < 0x80 := by
  have hchar : ∀ n i, char (sextet n i) < 0x80 := fun n i => (char_spec (sextet_lt n i)).2.2
  have hpad : pad < 0x80 := by decide
  induction bytes using encode.induct with
  | case1 => simp [encode]
  | case2 a => simp [encode, hchar, hpad]
  | case3 a b => simp [encode, hchar, hpad]
  | case4 a b c rest ih =>
    intro x hx
    simp only [encode, List.mem_cons] at hx
    rcases hx with rfl | rfl | rfl | rfl | hx
    · exact hchar _ _
    · exact hchar _ _
    · exact hchar _ _
    · exact hchar _ _
    · exact ih x hx

/-! ## Reading -/

/-- The bytes that four characters stand for. -/
def octets (w x y z : UInt8) : List UInt8 :=
  let n := ((value w * 64 + value x) * 64 + value y) * 64 + value z
  let a := UInt8.ofNat (n / 65536)
  let b := UInt8.ofNat (n / 256 % 256)
  let c := UInt8.ofNat (n % 256)
  if y = pad then [a] else if z = pad then [a, b] else [a, b, c]

/-- The bytes that a text of the alphabet stands for. -/
def readOctets : Text → List UInt8
  | w :: x :: y :: z :: rest => octets w x y z ++ readOctets rest
  | _ => []

/-- The bytes of a text; it has to be the one that is written for them. -/
def decode (s : Text) : Option (List UInt8) :=
  if encode (readOctets s) = s then some (readOctets s) else none

@[simp] theorem value_char_sextet (n i : Nat) : value (char (sextet n i)) = sextet n i :=
  (char_spec (sextet_lt n i)).1

@[simp] theorem char_sextet_ne_pad (n i : Nat) : char (sextet n i) ≠ pad :=
  (char_spec (sextet_lt n i)).2.1

variable {n : Nat}

theorem octets_one (a : UInt8) (hn : n = a.toNat * 65536) :
    octets (char (sextet n 0)) (char (sextet n 1)) pad pad = [a] := by
  have ha := a.toNat_lt
  have hfirst : (((sextet n 0 * 64 + sextet n 1) * 64 + value pad) * 64 + value pad) / 65536
      = a.toNat := by
    have hpad : value pad = 63 := by decide
    simp only [sextet, hpad]
    omega
  rw [octets, if_pos rfl]
  simp only [value_char_sextet, hfirst, UInt8.ofNat_toNat]

theorem octets_two (a b : UInt8) (hn : n = a.toNat * 65536 + b.toNat * 256) :
    octets (char (sextet n 0)) (char (sextet n 1)) (char (sextet n 2)) pad = [a, b] := by
  have ha := a.toNat_lt
  have hb := b.toNat_lt
  have hpad : value pad = 63 := by decide
  have hfirst : (((sextet n 0 * 64 + sextet n 1) * 64 + sextet n 2) * 64 + value pad) / 65536
      = a.toNat := by
    simp only [sextet, hpad]
    omega
  have hsecond : (((sextet n 0 * 64 + sextet n 1) * 64 + sextet n 2) * 64 + value pad) / 256 % 256
      = b.toNat := by
    simp only [sextet, hpad]
    omega
  rw [octets, if_neg (char_sextet_ne_pad n 2), if_pos rfl]
  simp only [value_char_sextet, hfirst, hsecond, UInt8.ofNat_toNat]

theorem octets_three (a b c : UInt8) (hn : n = a.toNat * 65536 + b.toNat * 256 + c.toNat) :
    octets (char (sextet n 0)) (char (sextet n 1)) (char (sextet n 2)) (char (sextet n 3))
      = [a, b, c] := by
  have ha := a.toNat_lt
  have hb := b.toNat_lt
  have hc := c.toNat_lt
  have hwhole : ((sextet n 0 * 64 + sextet n 1) * 64 + sextet n 2) * 64 + sextet n 3 = n := by
    simp only [sextet]
    omega
  have hfirst : n / 65536 = a.toNat := by omega
  have hsecond : n / 256 % 256 = b.toNat := by omega
  have hthird : n % 256 = c.toNat := by omega
  rw [octets, if_neg (char_sextet_ne_pad n 2), if_neg (char_sextet_ne_pad n 3)]
  simp only [value_char_sextet, hwhole, hfirst, hsecond, hthird, UInt8.ofNat_toNat]

/-- The text of some bytes is read back. -/
theorem readOctets_encode (bytes : List UInt8) : readOctets (encode bytes) = bytes := by
  induction bytes using encode.induct with
  | case1 => rfl
  | case2 a =>
    rw [encode, readOctets, octets_one a rfl]
    rfl
  | case3 a b =>
    rw [encode, readOctets, octets_two a b rfl]
    rfl
  | case4 a b c rest ih =>
    rw [encode, readOctets, octets_three a b c rfl, ih]
    rfl

/-- A decoder returns the bytes that a text is the encoding of, and rejects all other texts. -/
def IsDecoder (decode : Text → Option (List UInt8)) : Prop :=
  ∀ s bytes, decode s = some bytes ↔ s = encode bytes

theorem isDecoder_decode : IsDecoder decode := by
  intro s bytes
  rw [decode]
  constructor
  · intro h
    split at h
    · rename_i hs
      rw [← Option.some.inj h, hs]
    · cases h
  · rintro rfl
    rw [readOctets_encode, if_pos rfl]

end PpcaNetwork.Base64
