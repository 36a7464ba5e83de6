import PpcaNetwork.Lib.Exec
import PpcaNetwork.MyProxy.Socks5

/-!
# The codec of addresses

`Address::to_socks5_bytes` and `Address::from_socks5` are inverse to each other.

* `Address.toSocks5Bytes` — the bytes of an address.
* `Address.Encodable` — an address whose domain can be written with a length byte.
* `fromSocks5_eq_ok_iff` — what is read is what stands at the front of the data.
* `Checked.fromSocks5` — the reader with accesses that can panic.
* `address_codec` — the codec as a whole.
-/

namespace PpcaNetwork.MyProxy

namespace Address

/-! ## Writing -/

/-- `Address::to_socks5_bytes`. -/
def toSocks5Bytes : Address → List UInt8
  | ipv4 ip port => 0x01 :: (octetsOf ip ++ octets16 port)
  | domain name port => 0x03 :: UInt8.ofNat name.length :: (name ++ octets16 port)
  | ipv6 ip port => 0x04 :: (ip.octets ++ octets16 port)

/-- The bytes of an address: type, address and port. -/
theorem length_toSocks5Bytes (addr : Address) : addr.toSocks5Bytes.length =
    match addr with
    | .ipv4 _ _ => 7
    | .ipv6 _ _ => 19
    | .domain name _ => 4 + name.length := by
  cases addr with
  | ipv4 ip port => rfl
  | ipv6 ip port => simp [toSocks5Bytes, octets16, ip.length_octets]
  | domain name port =>
    simp only [toSocks5Bytes, octets16, List.length_cons, List.length_append, List.length_nil]
    omega

/-- A domain is text of at most 255 bytes. -/
def Encodable : Address → Prop
  | domain name _ => isUtf8 name = true ∧ name.length ≤ 255
  | _ => True

instance : (addr : Address) → Decidable addr.Encodable
  | ipv4 _ _ => isTrue trivial
  | ipv6 _ _ => isTrue trivial
  | domain name _ => inferInstanceAs (Decidable (isUtf8 name = true ∧ name.length ≤ 255))

/-! ## Reading what has been written -/

theorem fromSocks5_ipv6 (ip : Ipv6Addr) (port : UInt16) (rest : List UInt8) :
    fromSocks5 ((ipv6 ip port).toSocks5Bytes ++ rest) = .ok (.ipv6 ip port, 19) := by
  obtain ⟨octets, hlength⟩ := ip
  have hshape : (ipv6 ⟨octets, hlength⟩ port).toSocks5Bytes ++ rest =
      (0x04 : UInt8) :: (octets ++ (port >>> 8).toUInt8 :: port.toUInt8 :: rest) := by
    simp [toSocks5Bytes, octets16]
  rw [hshape]
  unfold fromSocks5
  have htake : (octets ++ (port >>> 8).toUInt8 :: port.toUInt8 :: rest).take 16 = octets :=
    List.take_left' hlength
  have hroom : ¬ 16 + (rest.length + 1 + 1) + 1 < 19 := by omega
  simp [hlength, htake, hroom, ofOctets16_octets16]

theorem fromSocks5_domain {name : Text} (hutf8 : isUtf8 name = true) (hlength : name.length ≤ 255)
    (port : UInt16) (rest : List UInt8) :
    fromSocks5 ((domain name port).toSocks5Bytes ++ rest) =
      .ok (.domain name port, 4 + name.length) := by
  have hshape : (domain name port).toSocks5Bytes ++ rest =
      0x03 :: UInt8.ofNat name.length ::
        (name ++ (port >>> 8).toUInt8 :: port.toUInt8 :: rest) := by
    simp [toSocks5Bytes, octets16]
  have hlen : (UInt8.ofNat name.length).toNat = name.length :=
    UInt8.toNat_ofNat_of_lt (Nat.lt_succ_of_le hlength)
  have htake : (name ++ (port >>> 8).toUInt8 :: port.toUInt8 :: rest).take name.length = name :=
    List.take_left' rfl
  have hroom : ¬ name.length + (rest.length + 1 + 1) < name.length + 2 := by omega
  rw [hshape]
  unfold fromSocks5
  simp [hlen, htake, hutf8, hroom, Nat.add_comm 2 name.length, ofOctets16_octets16]
  omega

/-- An address is read back, whatever follows it. -/
theorem fromSocks5_append {addr : Address} (h : addr.Encodable) (rest : List UInt8) :
    fromSocks5 (addr.toSocks5Bytes ++ rest) = .ok (addr, addr.toSocks5Bytes.length) := by
  rw [length_toSocks5Bytes]
  cases addr with
  | ipv4 ip port => exact fromSocks5_ipv4 ip port rest
  | ipv6 ip port => exact fromSocks5_ipv6 ip port rest
  | domain name port => exact fromSocks5_domain h.1 h.2 port rest

/-! ## Writing what has been read -/

/-- A slice starts with the byte that stands there. -/
theorem take_drop_cons {data : List UInt8} {i : Nat} (h : i < data.length) (n : Nat) :
    (data.drop i).take (n + 1) = data[i] :: (data.drop (i + 1)).take n := by
  rw [List.drop_eq_getElem_cons h, List.take_succ_cons]

/-- The two bytes of a port that has been read. -/
theorem octets16_getElem {data : List UInt8} {i : Nat} (h : i < data.length)
    (h' : i + 1 < data.length) :
    octets16 (ofOctets16 data[i] data[i + 1]) = (data.drop i).take 2 := by
  rw [octets16_ofOctets16, take_drop_cons h, take_drop_cons h', List.take_zero]

/-- What has been read is written as it stood there. -/
theorem take_of_fromSocks5 {data : List UInt8} {addr : Address} {n : Nat}
    (h : fromSocks5 data = .ok (addr, n)) :
    addr.Encodable ∧ data.take n = addr.toSocks5Bytes := by
  unfold fromSocks5 at h
  dsimp only at h
  split at h
  · cases h
  · rename_i hne
    have hfront : ∀ n, data.take (n + 1) = data[0] :: (data.drop 1).take n :=
      take_drop_cons (i := 0) (by omega)
    split at h
    · rename_i hipv4
      split at h <;> cases h
      refine ⟨trivial, ?_⟩
      rw [hfront, hipv4, take_drop_cons (by omega), take_drop_cons (by omega),
        take_drop_cons (by omega), take_drop_cons (by omega),
        ← octets16_getElem (by omega) (by omega)]
      rfl
    · split at h
      · rename_i hdomain
        split at h
        · cases h
        · split at h
          · cases h
          · rename_i hroom
            split at h <;> cases h
            rename_i hutf8
            have hlen : ((data.drop 2).take data[1].toNat).length = data[1].toNat := by
              rw [List.length_take, List.length_drop]
              omega
            refine ⟨⟨hutf8, ?_⟩, ?_⟩
            · have hlt := data[1].toNat_lt
              omega
            · have hport := @octets16_getElem data (2 + data[1].toNat) (by omega) (by omega)
              rw [toSocks5Bytes, hlen, UInt8.ofNat_toNat, hport, ← hdomain, ← List.drop_drop,
                ← List.take_add, Nat.add_assoc, Nat.add_comm 2, hfront, take_drop_cons (by omega)]
      · split at h
        · rename_i hipv6
          split at h <;> cases h
          refine ⟨trivial, ?_⟩
          have hport := @octets16_getElem data (1 + 16) (by omega) (by omega)
          rw [toSocks5Bytes, hport, hfront, hipv6, ← List.drop_drop, ← List.take_add]
        · cases h

/-- **What is read.**  The address whose bytes stand at the front of the data, and how many they
are. -/
theorem fromSocks5_eq_ok_iff {data : List UInt8} {addr : Address} {n : Nat} :
    fromSocks5 data = .ok (addr, n) ↔
      addr.Encodable ∧ addr.toSocks5Bytes <+: data ∧ n = addr.toSocks5Bytes.length := by
  constructor
  · intro h
    obtain ⟨hencodable, htake⟩ := take_of_fromSocks5 h
    refine ⟨hencodable, htake ▸ List.take_prefix n data, ?_⟩
    rw [← htake, List.length_take_of_le (fromSocks5_le h)]
  · rintro ⟨hencodable, ⟨rest, rfl⟩, rfl⟩
    exact fromSocks5_append hencodable rest

end Address

/-! ## No access is out of range -/

/-- `Address::from_socks5`, where an access out of range panics. -/
def Checked.fromSocks5 (data : List UInt8) : Exec (Except ProxyError (Address × Nat)) :=
  if data.length = 0 then pure (.error (.socksInvalidAddressType 0xFF))
  else do
    let atyp ← Exec.index data 0
    if atyp = 0x01 then
      if data.length < 7 then pure (.error (.io ⟨.unexpectedEof, utf8 "地址数据不完整"⟩))
      else do
        let a ← Exec.index data 1
        let b ← Exec.index data 2
        let c ← Exec.index data 3
        let d ← Exec.index data 4
        let high ← Exec.index data 5
        let low ← Exec.index data 6
        pure (.ok (.ipv4 ⟨a, b, c, d⟩ (ofOctets16 high low), 7))
    else if atyp = 0x03 then
      if data.length < 2 then pure (.error (.io ⟨.unexpectedEof, utf8 "域名长度字段不完整"⟩))
      else do
        let len ← Exec.index data 1
        let domainLen := len.toNat
        if data.length < 2 + domainLen + 2 then
          pure (.error (.io ⟨.unexpectedEof, utf8 "域名数据不完整"⟩))
        else do
          let domain ← Exec.slice data 2 (2 + domainLen)
          if isUtf8 domain then do
            let high ← Exec.index data (2 + domainLen)
            let low ← Exec.index data (2 + domainLen + 1)
            pure (.ok (.domain domain (ofOctets16 high low), 2 + domainLen + 2))
          else pure (.error (.io ⟨.invalidData, utf8 "域名不是有效的UTF-8编码"⟩))
    else if atyp = 0x04 then
      if data.length < 19 then pure (.error (.io ⟨.unexpectedEof, utf8 "IPv6地址数据不完整"⟩))
      else do
        let octets ← Exec.slice data 1 17
        -- `copy_from_slice` into an array of 16
        if h : octets.length = 16 then do
          let high ← Exec.index data 17
          let low ← Exec.index data 18
          pure (.ok (.ipv6 ⟨octets, h⟩ (ofOctets16 high low), 19))
        else .panics
    else pure (.error (.socksInvalidAddressType atyp))

/-- No access panics. -/
theorem Checked.fromSocks5_eq (data : List UInt8) :
    Checked.fromSocks5 data = .returns (Address.fromSocks5 data) := by
  unfold Checked.fromSocks5 Address.fromSocks5
  split
  · rfl
  · rename_i hne
    rw [Exec.index_eq (show 0 < data.length by omega), Exec.returns_bind]
    dsimp only
    split
    · split
      · rfl
      · rename_i hroom
        simp only [Exec.index_eq (show 1 < data.length by omega),
          Exec.index_eq (show 2 < data.length by omega),
          Exec.index_eq (show 3 < data.length by omega),
          Exec.index_eq (show 4 < data.length by omega),
          Exec.index_eq (show 5 < data.length by omega),
          Exec.index_eq (show 6 < data.length by omega), Exec.returns_bind, Exec.pure_eq]
    · split
      · split
        · rfl
        · rename_i htwo
          rw [Exec.index_eq (show 1 < data.length by omega), Exec.returns_bind]
          split
          · rfl
          · rename_i hroom
            rw [Exec.slice_eq (by omega), Exec.returns_bind]
            split
            · rw [Exec.index_eq (show 2 + data[1].toNat < data.length by omega),
                Exec.index_eq (show 2 + data[1].toNat + 1 < data.length by omega)]
              rfl
            · rfl
      · split
        · split
          · rfl
          · rename_i hroom
            have hlength : ((data.drop 1).take 16).length = 16 := by
              rw [List.length_take, List.length_drop]
              omega
            rw [Exec.slice_eq (i := 1) (n := 16) (by omega), Exec.returns_bind, dif_pos hlength,
              Exec.index_eq (show 17 < data.length by omega),
              Exec.index_eq (show 18 < data.length by omega)]
            rfl
        · rfl

/-- **The address codec.**  An address is read back from its bytes, whatever follows them; what is
read is written as it stood at the front of the data, which it does not exceed; and no data make
the reader access a byte that is not there. -/
theorem address_codec :
    (∀ (addr : Address) (t : List UInt8), addr.Encodable →
      Address.fromSocks5 (addr.toSocks5Bytes ++ t) = .ok (addr, addr.toSocks5Bytes.length)) ∧
    (∀ (d : List UInt8) (addr : Address) (n : Nat), Address.fromSocks5 d = .ok (addr, n) →
      n ≤ d.length ∧ addr.toSocks5Bytes = d.take n) ∧
    ∀ d : List UInt8, Checked.fromSocks5 d = .returns (Address.fromSocks5 d) := by
  refine ⟨fun addr t h => Address.fromSocks5_append h t, ?_, Checked.fromSocks5_eq⟩
  intro d addr n h
  exact ⟨Address.fromSocks5_le h, (Address.take_of_fromSocks5 h).2.symm⟩

theorem demo_address_codec :
    Address.fromSocks5 ((Address.domain (utf8 "localhost") 80).toSocks5Bytes ++ [1, 2])
        = .ok (.domain (utf8 "localhost") 80, 13) ∧
      (Address.ipv4 ⟨127, 0, 0, 1⟩ 80).toSocks5Bytes = [1, 127, 0, 0, 1, 0, 80, 33].take 7 := by
  refine ⟨?_, (address_codec.2.1 [1, 127, 0, 0, 1, 0, 80, 33] _ 7 (by decide)).2⟩
  exact address_codec.1 (.domain (utf8 "localhost") 80) [1, 2] (by decide)

end PpcaNetwork.MyProxy
