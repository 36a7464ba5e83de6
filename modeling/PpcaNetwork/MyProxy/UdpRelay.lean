import PpcaNetwork.Lib.Run
import PpcaNetwork.Lib.Table
import PpcaNetwork.MyProxy.Socks5

/-!
# The UDP relay

`relay/udp.rs`: the loop behind a `UDP ASSOCIATE`.  A run is the list of the datagrams that
`recv_from` returns; when `recv_from` itself fails, the loop ends and with it the list.

* `Arrival` — a datagram, and what the system answers while it is handled.
* `UdpRelay.handleClientPacket`, `UdpRelay.handleServerPacket` — the two handlers, with the
  calls of `send_to` that they make.
* `Association` — the relay, and what has ended its loop, if anything has.
* `clientRequest` and `serverReply` — what the datagrams of either side say.
* `wish` — what a datagram asks of the relay, which depends on the client slot only.
* `UdpRelay.handle_eq` — the loop does what is asked of it.
-/

namespace PpcaNetwork.MyProxy

/-- A datagram that has been received, and how the system answers while it is handled. -/
structure Arrival where
  data : List UInt8
  peer : SocketAddr
  /-- It fits into the buffer. -/
  length_le : data.length ≤ 65535
  lookupHost : Text → Except IoError (List SocketAddr)
  /-- The outcome of `send_to`, for these bytes and this address. -/
  sendTo : List UInt8 → SocketAddr → Except IoError Unit
  /-- The clock, after the sending. -/
  sentAt : Instant
  /-- The clock, in `cleanup`. -/
  cleanedAt : Instant

/-- A call of `send_to`. -/
structure Send where
  payload : List UInt8
  target : SocketAddr
  deriving DecidableEq

/-- What ends the loop. -/
inductive Ending where
  | error (e : ProxyError)
  | panic
  deriving DecidableEq

/-- `UdpRelay`. -/
structure UdpRelay where
  client : Option SocketAddr
  seen : Table SocketAddr Instant
  idleTimeout : Duration

/-- What a handler leaves: the relay, the calls of `send_to`, and its result. -/
structure Handled where
  relay : UdpRelay
  sends : List Send
  result : Except Ending Unit

namespace UdpRelay

/-- `UdpRelay::new`. -/
def new (idleTimeout : Duration) : UdpRelay where
  client := none
  seen := ∅
  idleTimeout := idleTimeout

/-- `handle_client_packet`. -/
def handleClientPacket (r : UdpRelay) (d : Arrival) : Handled :=
  if h : d.data.length < 10 then ⟨r, [], .ok ()⟩
  else if d.data[2] ≠ 0x00 then ⟨r, [], .ok ()⟩
  else
    match Address.fromSocks5 (d.data.drop 3) with
    | .error _ => ⟨r, [], .ok ()⟩
    | .ok (addr, consumed) =>
      let payload := d.data.drop (3 + consumed)
      let r := if r.client.isNone then { r with client := some d.peer } else r
      match addr.resolveIpv4 d.lookupHost with
      | .error e => ⟨r, [], .error (.error e)⟩
      | .ok target =>
        match d.sendTo payload target with
        | .error e => ⟨r, [⟨payload, target⟩], .error (.error (.io e))⟩
        | .ok () => ⟨{ r with seen := r.seen.insert target d.sentAt }, [⟨payload, target⟩], .ok ()⟩

/-- `handle_server_packet`. -/
def handleServerPacket (r : UdpRelay) (d : Arrival) : Handled :=
  match d.peer with
  | .v6 _ _ _ _ => ⟨r, [], .ok ()⟩
  | .v4 ip port =>
    let reply := [0x00, 0x00, 0x00, 0x01] ++ octetsOf ip ++ octets16 port ++ d.data
    match r.client with
    | none => ⟨r, [], .error .panic⟩
    | some client =>
      match d.sendTo reply client with
      | .error e => ⟨r, [⟨reply, client⟩], .error (.error (.io e))⟩
      | .ok () => ⟨{ r with seen := r.seen.insert d.peer d.sentAt }, [⟨reply, client⟩], .ok ()⟩

/-- `cleanup`. -/
def cleanup (r : UdpRelay) (now : Instant) : UdpRelay :=
  { r with seen := r.seen.retain fun t => now - t < r.idleTimeout }

/-- The test of `run` that sends a datagram to `handle_client_packet`. -/
def FromClient (r : UdpRelay) (d : Arrival) : Prop := some d.peer = r.client ∨ r.client = none

instance (r : UdpRelay) (d : Arrival) : Decidable (r.FromClient d) :=
  inferInstanceAs (Decidable (_ ∨ _))

/-- The handler that `run` calls. -/
def handle (r : UdpRelay) (d : Arrival) : Handled :=
  if r.FromClient d then r.handleClientPacket d else r.handleServerPacket d

end UdpRelay

/-- The relay of an association, and what its `run` has returned, if it has. -/
structure Association where
  relay : UdpRelay
  ended : Option Ending

namespace Association

/-- What `handle_client` sets up, whoever the peer of its TCP connection is. -/
def new (idleTimeout : Duration) : Association := ⟨.new idleTimeout, none⟩

/-- One turn of the loop of `run`, as long as there is one. -/
def step (a : Association) (d : Arrival) : Association :=
  match a.ended with
  | some _ => a
  | none =>
    let h := a.relay.handle d
    match h.result with
    | .error e => ⟨h.relay, some e⟩
    | .ok () => ⟨h.relay.cleanup d.cleanedAt, none⟩

/-- The calls of `send_to` in that turn. -/
def sends (a : Association) (d : Arrival) : List Send :=
  match a.ended with
  | some _ => []
  | none => (a.relay.handle d).sends

end Association

/-! ## What a datagram says -/

/-- The address and the payload of a datagram with FRAG 0 and an address that can be read. -/
def clientRequest (data : List UInt8) : Option (Address × List UInt8) :=
  if data.length < 10 ∨ data[2]? ≠ some 0x00 then none
  else
    match Address.fromSocks5 (data.drop 3) with
    | .error _ => none
    | .ok (addr, consumed) => some (addr, data.drop (3 + consumed))

/-- A datagram of a server, with the header that names the server. -/
def serverReply (ip : Ipv4Addr) (port : UInt16) (data : List UInt8) : List UInt8 :=
  [0x00, 0x00, 0x00] ++ (0x01 :: octetsOf ip ++ octets16 port ++ data)

theorem clientRequest_eq_some_iff {data payload : List UInt8} {addr : Address} :
    clientRequest data = some (addr, payload) ↔ 10 ≤ data.length ∧ data[2]? = some 0x00 ∧
      ∃ n, Address.fromSocks5 (data.drop 3) = .ok (addr, n) ∧ payload = data.drop (3 + n) := by
  unfold clientRequest
  by_cases hframe : data.length < 10 ∨ data[2]? ≠ some 0x00
  · rw [if_pos hframe]
    constructor
    · rintro ⟨⟩
    · rintro ⟨hlength, hfrag, -⟩
      exact absurd hframe (by simp [hfrag, Nat.not_lt.mpr hlength])
  · rw [if_neg hframe]
    obtain ⟨hlength, hfrag⟩ := not_or.mp hframe
    cases Address.fromSocks5 (data.drop 3) with
    | error e => simp
    | ok read =>
      obtain ⟨addr', n⟩ := read
      simp only [Option.some.injEq, Prod.mk.injEq, Except.ok.injEq]
      constructor
      · rintro ⟨rfl, rfl⟩
        exact ⟨Nat.not_lt.mp hlength, not_not.mp hfrag, n, ⟨rfl, rfl⟩, rfl⟩
      · rintro ⟨-, -, n', ⟨rfl, rfl⟩, rfl⟩
        exact ⟨rfl, rfl⟩

/-- The header of a reply is read back as the address of the server. -/
theorem serverReply_reads (ip : Ipv4Addr) (port : UInt16) (data : List UInt8) :
    (serverReply ip port data).take 3 = [0, 0, 0] ∧
    Address.fromSocks5 ((serverReply ip port data).drop 3) = .ok (.ipv4 ip port, 7) ∧
    (serverReply ip port data).drop 10 = data :=
  ⟨rfl, Address.fromSocks5_ipv4 ip port data, rfl⟩

/-- What a datagram asks of the relay. -/
inductive Wish where
  | nothing
  /-- Its target has no IPv4 address. -/
  | unresolved (e : ProxyError)
  | send (s : Send)

/-- What a datagram of the client's side asks for. -/
def requested (d : Arrival) : Wish :=
  match clientRequest d.data with
  | none => .nothing
  | some (addr, payload) =>
    match addr.resolveIpv4 d.lookupHost with
    | .error e => .unresolved e
    | .ok target => .send ⟨payload, target⟩

/-- What a datagram asks for when the client slot holds `client`. -/
def wish (client : Option SocketAddr) (d : Arrival) : Wish :=
  match client with
  | none => requested d
  | some c =>
    if d.peer = c then requested d
    else
      match d.peer with
      | .v4 ip port => .send ⟨serverReply ip port d.data, c⟩
      | .v6 _ _ _ _ => .nothing

/-- The client slot after a datagram. -/
def slotAfter (client : Option SocketAddr) (d : Arrival) : Option SocketAddr :=
  client.or (if (clientRequest d.data).isSome then some d.peer else none)

namespace Wish

/-- What is sent for a wish. -/
def sends : Wish → List Send
  | nothing => []
  | unresolved _ => []
  | send s => [s]

/-- What ends the loop, if `send_to` works as `sendTo` says. -/
def ending (sendTo : List UInt8 → SocketAddr → Except IoError Unit) : Wish → Except Ending Unit
  | nothing => .ok ()
  | unresolved e => .error (.error e)
  | send s => (sendTo s.payload s.target).mapError fun e => .error (.io e)

end Wish

/-! ## What becomes of one datagram -/

namespace UdpRelay

variable {r : UdpRelay} {d : Arrival}

theorem handleClientPacket_of_none (h : clientRequest d.data = none) :
    r.handleClientPacket d = ⟨r, [], .ok ()⟩ := by
  unfold handleClientPacket
  split
  · rfl
  · rename_i hlength
    split
    · rfl
    · rename_i hfrag
      have hread : ∀ addr n, Address.fromSocks5 (d.data.drop 3) ≠ .ok (addr, n) := by
        intro addr n hread
        have hsome : clientRequest d.data = some (addr, d.data.drop (3 + n)) := by
          refine clientRequest_eq_some_iff.mpr ⟨Nat.not_lt.mp hlength, ?_, n, hread, rfl⟩
          rw [List.getElem?_eq_getElem (by omega), not_not.mp hfrag]
        rw [h] at hsome
        cases hsome
      cases hcase : Address.fromSocks5 (d.data.drop 3) with
      | error e => rfl
      | ok read => exact absurd hcase (hread read.1 read.2)

/-- A datagram of the client's side does what it asks for, and its sender is the client then. -/
theorem handleClientPacket_eq :
    (r.handleClientPacket d).relay.client = slotAfter r.client d ∧
    (r.handleClientPacket d).sends = (requested d).sends ∧
    (r.handleClientPacket d).result = (requested d).ending d.sendTo := by
  unfold slotAfter requested
  cases h : clientRequest d.data with
  | none =>
    rw [handleClientPacket_of_none h]
    exact ⟨Option.or_none.symm, rfl, rfl⟩
  | some request =>
    obtain ⟨addr, payload⟩ := request
    obtain ⟨hlength, hfrag, n, hread, rfl⟩ := clientRequest_eq_some_iff.mp h
    obtain ⟨_, hzero⟩ := List.getElem?_eq_some_iff.mp hfrag
    unfold handleClientPacket
    rw [dif_neg (Nat.not_lt.mpr hlength), if_neg (not_not.mpr hzero), hread]
    dsimp only
    have hpin : (if r.client.isNone then { r with client := some d.peer } else r).client
        = r.client.or (some d.peer) := by
      cases hclient : r.client <;> simp [hclient]
    cases addr.resolveIpv4 d.lookupHost with
    | error e => exact ⟨hpin, rfl, rfl⟩
    | ok target =>
      dsimp only [Wish.ending]
      cases d.sendTo (d.data.drop (3 + n)) target with
      | error e => exact ⟨hpin, rfl, rfl⟩
      | ok u => exact ⟨hpin, rfl, rfl⟩

/-- A datagram from elsewhere is sent to the client, behind the address that it is from. -/
theorem handleServerPacket_eq {c : SocketAddr} (hclient : r.client = some c)
    (hpeer : d.peer ≠ c) :
    (r.handleServerPacket d).relay.client = some c ∧
    (r.handleServerPacket d).sends = (wish (some c) d).sends ∧
    (r.handleServerPacket d).result = (wish (some c) d).ending d.sendTo := by
  have hwish : wish (some c) d = match d.peer with
      | .v4 ip port => .send ⟨serverReply ip port d.data, c⟩
      | .v6 _ _ _ _ => .nothing := if_neg hpeer
  rw [hwish]
  unfold handleServerPacket
  cases hcase : d.peer with
  | v6 ip port flowinfo scopeId => exact ⟨hclient, rfl, rfl⟩
  | v4 ip port =>
    dsimp only
    have hreply : [0x00, 0x00, 0x00, 0x01] ++ octetsOf ip ++ octets16 port ++ d.data
        = serverReply ip port d.data := rfl
    rw [hclient, hreply]
    dsimp only [Wish.ending]
    cases d.sendTo (serverReply ip port d.data) c with
    | error e => exact ⟨hclient, rfl, rfl⟩
    | ok u => exact ⟨rfl, rfl, rfl⟩

/-- The loop does what a datagram asks for. -/
theorem handle_eq :
    (r.handle d).relay.client = slotAfter r.client d ∧
    (r.handle d).sends = (wish r.client d).sends ∧
    (r.handle d).result = (wish r.client d).ending d.sendTo := by
  unfold handle
  by_cases hfrom : r.FromClient d
  · have hwish : wish r.client d = requested d := by
      rcases hfrom with hsome | hnone
      · rw [← hsome, wish, if_pos rfl]
      · rw [hnone, wish]
    rw [if_pos hfrom, hwish]
    exact handleClientPacket_eq
  · obtain ⟨hne, hsome⟩ := not_or.mp hfrom
    obtain ⟨c, hc⟩ := Option.ne_none_iff_exists'.mp hsome
    have hpeer : d.peer ≠ c := fun h => hne (by rw [h, hc])
    rw [if_neg hfrom, hc]
    exact handleServerPacket_eq hc hpeer

end UdpRelay

/-! ## What becomes of a run -/

namespace Association

variable {a : Association} {d : Arrival}

theorem sends_eq (h : a.ended = none) : a.sends d = (wish a.relay.client d).sends := by
  unfold sends
  rw [h]
  exact UdpRelay.handle_eq.2.1

theorem client_step (h : a.ended = none) :
    (a.step d).relay.client = slotAfter a.relay.client d := by
  unfold step
  rw [h]
  dsimp only
  split <;> exact UdpRelay.handle_eq.1

theorem step_of_ended {e : Ending} (h : a.ended = some e) : a.step d = a := by
  rw [step, h]

/-- The loop goes on exactly if what the datagram asks for can be done. -/
theorem ended_step_iff (h : a.ended = none) :
    (a.step d).ended = none ↔ (wish a.relay.client d).ending d.sendTo = .ok () := by
  unfold step
  rw [h, ← UdpRelay.handle_eq.2.2]
  dsimp only
  cases (a.relay.handle d).result <;> simp

/-- A loop that has ended stays so. -/
theorem ended_of_run {ds : List Arrival} (h : (run step a ds).ended = none) : a.ended = none := by
  induction ds generalizing a with
  | nil => exact h
  | cons d ds ih =>
    cases hended : a.ended with
    | none => rfl
    | some e =>
      rw [Run.run_cons, step_of_ended hended] at h
      rw [← hended]
      exact ih h

end Association
end PpcaNetwork.MyProxy
