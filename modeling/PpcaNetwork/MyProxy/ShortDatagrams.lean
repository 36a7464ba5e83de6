import PpcaNetwork.MyProxy.AddressCodec
import PpcaNetwork.MyProxy.UdpRelay

/-!
# Short datagrams

`handle_client_packet` of `relay/udp.rs` looks at the length of a datagram before it reads the
address, and asks for ten bytes.  That is the shortest datagram to an IPv4 address; to a domain
there are shorter ones.

* `Addressed` — FRAG 0 and an address that can be read, with the payload behind it.
* `TooShort` — the shortest of the datagrams to a domain.
* `Addressed.length_lt_iff` — they are those of less than ten bytes.
* `client_relayed_iff` — all others are relayed.
-/

namespace PpcaNetwork.MyProxy

/-- A datagram of a client, with the address that it is for and its payload. -/
def Addressed (data : List UInt8) (addr : Address) (payload : List UInt8) : Prop :=
  data[2]? = some 0x00 ∧
    ∃ n, Address.fromSocks5 (data.drop 3) = .ok (addr, n) ∧ payload = data.drop (3 + n)

/-- A domain and a payload that have less than three bytes together. -/
def TooShort : Address → List UInt8 → Prop
  | .domain name _, payload => name.length + payload.length < 3
  | .ipv4 _ _, _ => False
  | .ipv6 _ _, _ => False

section

variable {data payload : List UInt8} {addr : Address}

/-- Three bytes, the address and the payload are the whole datagram. -/
theorem Addressed.length_eq (h : Addressed data addr payload) :
    data.length = 3 + addr.toSocks5Bytes.length + payload.length := by
  obtain ⟨hfrag, n, hread, rfl⟩ := h
  obtain ⟨hlength, -⟩ := List.getElem?_eq_some_iff.mp hfrag
  obtain ⟨-, -, rfl⟩ := Address.fromSocks5_eq_ok_iff.mp hread
  have hle := Address.fromSocks5_le hread
  rw [List.length_drop] at hle ⊢
  omega

/-- The datagrams of less than ten bytes. -/
theorem Addressed.length_lt_iff (h : Addressed data addr payload) :
    data.length < 10 ↔ TooShort addr payload := by
  rw [h.length_eq, addr.length_toSocks5Bytes]
  cases addr with
  | ipv4 ip port => exact iff_of_false (by dsimp only; omega) id
  | ipv6 ip port => exact iff_of_false (by dsimp only; omega) id
  | domain name port =>
    rw [TooShort]
    dsimp only
    omega

/-- What `handle_client_packet` takes for a request. -/
theorem Addressed.clientRequest_eq (h : Addressed data addr payload) :
    clientRequest data = if data.length < 10 then none else some (addr, payload) := by
  split
  · rename_i hshort
    rw [clientRequest, if_pos (.inl hshort)]
  · rename_i hlength
    exact clientRequest_eq_some_iff.mpr ⟨Nat.not_lt.mp hlength, h⟩

end

/-- **When a datagram is relayed.**  The payload goes to the address, and nothing else is sent, if
and only if the datagram is not `TooShort`. -/
theorem client_relayed_iff (r : UdpRelay) (d : Arrival) (addr : Address) (payload : List UInt8)
    (target : SocketAddr) (h : Addressed d.data addr payload)
    (htarget : addr.resolveIpv4 d.lookupHost = .ok target) :
    (r.handleClientPacket d).sends = [⟨payload, target⟩] ↔ ¬ TooShort addr payload := by
  rw [UdpRelay.handleClientPacket_eq.2.1, requested, h.clientRequest_eq, ← h.length_lt_iff]
  by_cases hshort : d.data.length < 10
  · rw [if_pos hshort]
    exact iff_of_false (List.cons_ne_nil _ _).symm (not_not_intro hshort)
  · rw [if_neg hshort]
    dsimp only
    rw [htarget]
    exact iff_of_true rfl hshort

/-- A payload for port 53 of the domain `x`. -/
def demoDatagram (payload : List UInt8) (h : payload.length ≤ 512) : Arrival where
  data := [0x00, 0x00, 0x00, 0x03, 1, 0x78, 0, 53] ++ payload
  peer := .v4 ⟨10, 0, 0, 1⟩ 5000
  length_le := by
    rw [List.length_append]
    exact (Nat.add_le_add_left h _).trans (by decide)
  lookupHost _ := .ok [.v4 ⟨192, 0, 2, 1⟩ 53]
  sendTo _ _ := .ok ()
  sentAt := 0
  cleanedAt := 0

theorem demo_client_relayed :
    ((UdpRelay.new 0).handleClientPacket (demoDatagram [0x41, 0x42] (by decide))).sends
      = [⟨[0x41, 0x42], .v4 ⟨192, 0, 2, 1⟩ 53⟩] :=
  (client_relayed_iff (.new 0) (demoDatagram [0x41, 0x42] (by decide)) (.domain [0x78] 53)
    [0x41, 0x42] _ ⟨by decide, 5, by decide, rfl⟩ rfl).mpr (by simp [TooShort])

/-- Nine bytes are dropped. -/
theorem demo_short_dropped :
    Addressed (demoDatagram [0x41] (by decide)).data (.domain [0x78] 53) [0x41] ∧
      Address.resolveIpv4 (demoDatagram [0x41] (by decide)).lookupHost (.domain [0x78] 53)
        = .ok (.v4 ⟨192, 0, 2, 1⟩ 53) ∧
      ((UdpRelay.new 0).handleClientPacket (demoDatagram [0x41] (by decide))).sends = [] :=
  ⟨⟨by decide, 5, by decide, rfl⟩, rfl, rfl⟩

end PpcaNetwork.MyProxy
