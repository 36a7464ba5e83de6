import PpcaNetwork.Lib.ReadExact
import PpcaNetwork.MyProxy.AddressCodec

/-!
# The handshake and the request

`handshake`, `read_address`, `read_request` and `write_reply` of `socks5_proto.rs`, on a
connection that delivers its bytes in arbitrary reads.

* `Task` — a function that reads from the connection of a client and writes to it; it
  returns, fails with an error, or waits for bytes that never arrive.
* `Task.readExact` — `read_exact`, with `readExact_append` and `bytes_of_readExact`.
* `handshake`, `readAddress`, `readRequest`, `writeReply` — the functions.
* `read_address_agrees` — `read_address` reads what `Address::from_socks5` reads, and no more.
-/

namespace PpcaNetwork.MyProxy

/-! ## Tasks -/

/-- What a client or its target can see of `handle_client`. -/
inductive Event where
  /-- A call of `write_all` on the connection of the client. -/
  | wrote (bytes : List UInt8)
  /-- From here on bytes are passed on. -/
  | relays
  deriving DecidableEq

/-- The connection of a client, with a record of what has been done. -/
structure Client where
  stream : Stream
  events : List Event

/-- How far a task has come. -/
inductive Progress (α : Type) where
  | done (result : α) (c : Client)
  | failed (e : ProxyError) (c : Client)
  /-- It waits for bytes that never arrive. -/
  | waiting (c : Client)

/-- What is done with the client. -/
def Task (α : Type) := Client → Progress α

namespace Task

variable {α β : Type}

/-- What comes next runs only if what came before returned. -/
protected def bind (x : Task α) (f : α → Task β) : Task β := fun c =>
  match x c with
  | .done a c => f a c
  | .failed e c => .failed e c
  | .waiting c => .waiting c

instance : Monad Task where
  pure a := fun c => .done a c
  bind := Task.bind

/-- `return Err(e)`. -/
def fail (e : ProxyError) : Task α := fun c => .failed e c

/-- `?` on a result. -/
def ofExcept : Except ProxyError α → Task α
  | .ok a => pure a
  | .error e => fail e

@[simp] theorem fail_apply (e : ProxyError) (c : Client) : (fail e : Task α) c = .failed e c := rfl

theorem bind_of_done {x : Task α} {f : α → Task β} {c c' : Client} {a : α}
    (h : x c = .done a c') : (x >>= f) c = f a c' := by
  show Task.bind x f c = _
  rw [Task.bind, h]

theorem bind_of_failed {x : Task α} {f : α → Task β} {c c' : Client} {e : ProxyError}
    (h : x c = .failed e c') : (x >>= f) c = .failed e c' := by
  show Task.bind x f c = _
  rw [Task.bind, h]

/-- Two tasks return one behind the other if both return. -/
theorem exists_of_bind {x : Task α} {f : α → Task β} {c c'' : Client} {b : β}
    (h : (x >>= f) c = .done b c'') : ∃ a c', x c = .done a c' ∧ f a c' = .done b c'' := by
  change Task.bind x f c = _ at h
  unfold Task.bind at h
  split at h
  · rename_i a c' hx
    exact ⟨a, c', hx, h⟩
  · cases h
  · cases h

/-! ## Reading -/

/-- The error of a `read` that the operating system rejects. -/
def readError : ProxyError := .io ⟨.other, utf8 "read error"⟩

/-- `read_exact` into a buffer of `n` bytes. -/
def readExact (n : Nat) : Task { bytes : List UInt8 // bytes.length = n } := fun c =>
  match h : Stream.takeExact n c.stream.reads with
  | some (bytes, rest) =>
    .done ⟨bytes, (Stream.takeExact_eq_some h).2⟩ { c with stream := ⟨rest, c.stream.ending⟩ }
  | none =>
    let c' := { c with stream := ⟨[], c.stream.ending⟩ }
    match c.stream.ending with
    | .waiting => .waiting c'
    | .closed => .failed (.io ⟨.unexpectedEof, utf8 "early eof"⟩) c'
    | .failed => .failed readError c'

/-- The connection goes on with other bytes, and nothing has been done. -/
structure Continues (c c' : Client) (tail : List UInt8) : Prop where
  bytes : c'.stream.bytes = tail
  ending : c'.stream.ending = c.stream.ending
  events : c'.events = c.events

/-- Bytes that are still to come are read. -/
theorem readExact_append {c : Client} {bytes tail : List UInt8}
    (h : c.stream.bytes = bytes ++ tail) {n : Nat} (hn : bytes.length = n) :
    ∃ c', readExact n c = .done ⟨bytes, hn⟩ c' ∧ Continues c c' tail := by
  subst hn
  obtain ⟨rest, hrest, htail⟩ := Stream.takeExact_append h
  refine ⟨⟨⟨rest, c.stream.ending⟩, c.events⟩, ?_, htail, rfl, rfl⟩
  unfold readExact
  split
  · rename_i bytes' rest' heq
    rw [hrest] at heq
    obtain ⟨rfl, rfl⟩ := Prod.mk.inj (Option.some.inj heq)
    rfl
  · rename_i heq
    rw [hrest] at heq
    cases heq

/-- What has been read are the bytes that came next. -/
theorem bytes_of_readExact {c c' : Client} {n : Nat}
    {bytes : { bytes : List UInt8 // bytes.length = n }} (h : readExact n c = .done bytes c') :
    c.stream.bytes = bytes.1 ++ c'.stream.bytes ∧ Continues c c' c'.stream.bytes := by
  unfold readExact at h
  split at h
  · rename_i bytes' rest heq
    injection h with hbytes hc
    subst hbytes hc
    exact ⟨(Stream.takeExact_eq_some heq).1, rfl, rfl, rfl⟩
  · dsimp only at h
    split at h <;> cases h

end Task

/-! ## The address of a request -/

/-- The buffer that `read_address` fills: address type, address and port. -/
def readBuffer (atyp : UInt8) : Task (List UInt8) :=
  if atyp = 0x01 then do
    let bytes ← Task.readExact (4 + 2)
    pure (0x01 :: bytes.1)
  else if atyp = 0x03 then do
    let lenBuf ← Task.readExact 1
    let len := lenBuf.1.get ⟨0, by rw [lenBuf.2]; decide⟩
    let bytes ← Task.readExact (len.toNat + 2)
    pure (0x03 :: len :: bytes.1)
  else if atyp = 0x04 then do
    let bytes ← Task.readExact (16 + 2)
    pure (0x04 :: bytes.1)
  else Task.fail (.socksInvalidAddressType atyp)

/-- `read_address`. -/
def readAddress (atyp : UInt8) : Task Address := do
  let buf ← readBuffer atyp
  Task.ofExcept ((Address.fromSocks5 buf).map Prod.fst)

/-- What stands behind the address type in a complete address. -/
inductive AddressForm : UInt8 → List UInt8 → Prop
  | ipv4 {body : List UInt8} (h : body.length = 4 + 2) : AddressForm 0x01 body
  | domain {len : UInt8} {rest : List UInt8} (h : rest.length = len.toNat + 2) :
      AddressForm 0x03 (len :: rest)
  | ipv6 {body : List UInt8} (h : body.length = 16 + 2) : AddressForm 0x04 body

namespace AddressForm

variable {atyp : UInt8} {body body' : List UInt8}

theorem length_eq (h : AddressForm atyp body) (h' : AddressForm atyp body')
    (hfront : body' <+: body) : body'.length = body.length := by
  cases h with
  | ipv4 h => cases h' with | ipv4 h' => rw [h, h']
  | ipv6 h => cases h' with | ipv6 h' => rw [h, h']
  | domain h =>
    cases h' with
    | domain h' =>
      obtain ⟨rfl, -⟩ := List.cons_prefix_cons.mp hfront
      rw [List.length_cons, List.length_cons, h, h']

/-- No complete address begins with another one. -/
theorem eq_of_prefix (h : AddressForm atyp body) (h' : AddressForm atyp body')
    (hfront : body' <+: body) : body' = body := hfront.eq_of_length (h.length_eq h' hfront)

/-- The bytes of an address are complete. -/
theorem of_toSocks5Bytes {addr : Address} (haddr : addr.Encodable)
    (h : addr.toSocks5Bytes = atyp :: body) : AddressForm atyp body := by
  cases addr with
  | ipv4 ip port =>
    obtain ⟨rfl, rfl⟩ := List.cons.inj h
    exact .ipv4 rfl
  | ipv6 ip port =>
    obtain ⟨rfl, rfl⟩ := List.cons.inj h
    exact .ipv6 (by rw [List.length_append, ip.length_octets]; rfl)
  | domain name port =>
    obtain ⟨rfl, rfl⟩ := List.cons.inj h
    refine .domain ?_
    have hlen := haddr.2
    rw [List.length_append, UInt8.toNat_ofNat', length_octets16]
    omega

/-- An address that is read from a complete one is all of it. -/
theorem toSocks5Bytes_eq (h : AddressForm atyp body) {addr : Address} {n : Nat}
    (hread : Address.fromSocks5 (atyp :: body) = .ok (addr, n)) :
    addr.toSocks5Bytes = atyp :: body := by
  obtain ⟨haddr, hfront, -⟩ := Address.fromSocks5_eq_ok_iff.mp hread
  obtain ⟨atyp', body', hbytes⟩ : ∃ atyp' body', addr.toSocks5Bytes = atyp' :: body' := by
    cases addr <;> exact ⟨_, _, rfl⟩
  rw [hbytes] at hfront ⊢
  obtain ⟨rfl, hbody⟩ := List.cons_prefix_cons.mp hfront
  rw [h.eq_of_prefix (of_toSocks5Bytes haddr hbytes) hbody]

end AddressForm

section

variable {atyp : UInt8} {body tail : List UInt8} {c c' : Client}

/-- A complete address that is still to come is read into the buffer. -/
theorem readBuffer_append (h : AddressForm atyp body) (hc : c.stream.bytes = body ++ tail) :
    ∃ c', readBuffer atyp c = .done (atyp :: body) c' ∧ Task.Continues c c' tail := by
  unfold readBuffer
  cases h with
  | ipv4 h =>
    obtain ⟨c', hread, hc'⟩ := Task.readExact_append hc h
    rw [if_pos rfl, Task.bind_of_done hread]
    exact ⟨c', rfl, hc'⟩
  | ipv6 h =>
    obtain ⟨c', hread, hc'⟩ := Task.readExact_append hc h
    rw [if_neg (by decide), if_neg (by decide), if_pos rfl, Task.bind_of_done hread]
    exact ⟨c', rfl, hc'⟩
  | @domain len rest h =>
    obtain ⟨c₁, hread₁, hc₁⟩ := @Task.readExact_append c [len] _ hc 1 rfl
    obtain ⟨c', hread, hc'⟩ := Task.readExact_append hc₁.bytes h
    rw [if_neg (by decide), if_pos rfl, Task.bind_of_done hread₁]
    refine ⟨c', ?_, hc'.bytes, hc'.ending.trans hc₁.ending, hc'.events.trans hc₁.events⟩
    exact Task.bind_of_done hread

/-- What is in the buffer is the complete address that came next. -/
theorem form_of_readBuffer {buf : List UInt8} (h : readBuffer atyp c = .done buf c') :
    ∃ body, buf = atyp :: body ∧ AddressForm atyp body ∧
      c.stream.bytes = body ++ c'.stream.bytes := by
  unfold readBuffer at h
  split at h
  · rename_i htype
    obtain ⟨bytes, c₁, hread, hdone⟩ := Task.exists_of_bind h
    cases hdone
    exact ⟨bytes.1, by rw [htype], htype ▸ .ipv4 bytes.2, (Task.bytes_of_readExact hread).1⟩
  · split at h
    · rename_i htype
      obtain ⟨⟨lenBuf, hlenBuf⟩, c₁, hread₁, hrest⟩ := Task.exists_of_bind h
      obtain ⟨bytes, c₂, hread, hdone⟩ := Task.exists_of_bind hrest
      obtain ⟨len, rfl⟩ := List.length_eq_one_iff.mp hlenBuf
      cases hdone
      refine ⟨len :: bytes.1, by rw [htype]; rfl, htype ▸ .domain bytes.2, ?_⟩
      rw [(Task.bytes_of_readExact hread₁).1, (Task.bytes_of_readExact hread).1]
      rfl
    · split at h
      · rename_i htype
        obtain ⟨bytes, c₁, hread, hdone⟩ := Task.exists_of_bind h
        cases hdone
        exact ⟨bytes.1, by rw [htype], htype ▸ .ipv6 bytes.2, (Task.bytes_of_readExact hread).1⟩
      · cases h

/-- The address that is read from a complete one is returned. -/
theorem readAddress_append {addr : Address} {n : Nat} (h : AddressForm atyp body)
    (hread : Address.fromSocks5 (atyp :: body) = .ok (addr, n))
    (hc : c.stream.bytes = body ++ tail) :
    ∃ c', readAddress atyp c = .done addr c' ∧ Task.Continues c c' tail := by
  obtain ⟨c', hbuf, hc'⟩ := readBuffer_append h hc
  refine ⟨c', ?_, hc'⟩
  rw [readAddress, Task.bind_of_done hbuf, hread]
  rfl

/-- An address that is returned is read from a complete one. -/
theorem form_of_readAddress {addr : Address} (h : readAddress atyp c = .done addr c') :
    ∃ body, AddressForm atyp body ∧ c.stream.bytes = body ++ c'.stream.bytes ∧
      ∃ n, Address.fromSocks5 (atyp :: body) = .ok (addr, n) := by
  obtain ⟨buf, c₁, hbuf, hdone⟩ := Task.exists_of_bind h
  obtain ⟨body, rfl, hform, hc⟩ := form_of_readBuffer hbuf
  cases hread : Address.fromSocks5 (atyp :: body) with
  | error e =>
    rw [hread] at hdone
    cases hdone
  | ok r =>
    rw [hread] at hdone
    cases hdone
    exact ⟨body, hform, hc, r.2, hread⟩

/-- **Streams and datagrams agree.**  `read_address` returns an address exactly if
`Address::from_socks5` reads it from the same bytes, and then it has taken as many bytes from the
connection as that has read behind the address type, however they are cut into reads. -/
theorem read_address_agrees (atyp : UInt8) (c : Client) (addr : Address) (tail : List UInt8) :
    (∃ c', readAddress atyp c = .done addr c' ∧ c'.stream.bytes = tail) ↔
      ∃ n, Address.fromSocks5 (atyp :: c.stream.bytes) = .ok (addr, n) ∧
        tail = c.stream.bytes.drop (n - 1) := by
  constructor
  · rintro ⟨c', hdone, rfl⟩
    obtain ⟨body, hform, hc, n, hread⟩ := form_of_readAddress hdone
    have hbytes := hform.toSocks5Bytes_eq hread
    obtain ⟨haddr, -, -⟩ := Address.fromSocks5_eq_ok_iff.mp hread
    refine ⟨(atyp :: body).length, ?_, ?_⟩
    · rw [hc, ← List.cons_append, ← hbytes]
      exact Address.fromSocks5_append haddr _
    · rw [hc, List.length_cons, Nat.add_sub_cancel, List.drop_left' rfl]
  · rintro ⟨n, hread, rfl⟩
    obtain ⟨haddr, hfront, rfl⟩ := Address.fromSocks5_eq_ok_iff.mp hread
    obtain ⟨atyp', body, hbytes⟩ : ∃ atyp' body, addr.toSocks5Bytes = atyp' :: body := by
      cases addr <;> exact ⟨_, _, rfl⟩
    rw [hbytes] at hfront
    obtain ⟨rfl, tail, hc⟩ := List.cons_prefix_cons.mp hfront
    have hself := Address.fromSocks5_append haddr []
    rw [hbytes, List.append_nil] at hself
    obtain ⟨c', hdone, hc'⟩ := readAddress_append (.of_toSocks5Bytes haddr hbytes) hself hc.symm
    refine ⟨c', hdone, ?_⟩
    rw [hc'.bytes, hbytes, List.length_cons, Nat.add_sub_cancel, ← hc, List.drop_left' rfl]

end

/-! ## Handshake, request and reply -/

/-- How the system answers while a client is served. -/
structure System where
  /-- `write_all` on the connection of the client, after what has been done before. -/
  writeAll : List Event → List UInt8 → Except IoError Unit
  /-- `tokio::net::lookup_host`. -/
  lookupHost : Text → Except IoError (List SocketAddr)
  /-- `TcpStream::connect`. -/
  connect : SocketAddr → Except IoError Unit
  /-- How the passing on of bytes ends, if it does. -/
  copyBidirectional : Option (Except IoError Unit)
  /-- `UdpSocket::bind("0.0.0.0:0")`. -/
  bindUdp : Except IoError Unit
  /-- The port of `udp_socket.local_addr()`. -/
  udpPort : Except IoError UInt16
  /-- `client_stream.local_addr()`. -/
  localAddr : Except IoError SocketAddr

/-- `write_all` on the connection of the client. -/
def writeAll (sys : System) (bytes : List UInt8) : Task Unit := fun c =>
  let c' := { c with events := c.events ++ [.wrote bytes] }
  match sys.writeAll c.events bytes with
  | .ok () => .done () c'
  | .error e => .failed (.io e) c'

/-- `handshake`. -/
def handshake (sys : System) : Task Unit := do
  let header ← Task.readExact 2
  let ver := header.1.get ⟨0, by rw [header.2]; decide⟩
  let nmethods := header.1.get ⟨1, by rw [header.2]; decide⟩
  if ver ≠ 0x05 then Task.fail (.socksInvalidVersion ver)
  else do
    let methods ← Task.readExact nmethods.toNat
    if 0x00 ∉ methods.1 then do
      writeAll sys [0x05, 0xFF]
      Task.fail .socksMethodNotSupported
    else writeAll sys [0x05, 0x00]

/-- `Command`. -/
inductive Command where
  | tcpConnect
  | udpAssociate
  deriving DecidableEq

/-- `Command::from_u8`. -/
def Command.fromU8 (v : UInt8) : Option Command :=
  if v = 0x01 then some .tcpConnect
  else if v = 0x03 then some .udpAssociate
  else none

/-- `Socks5Request`. -/
structure Socks5Request where
  cmd : Command
  addr : Address

/-- `read_request`. -/
def readRequest : Task Socks5Request := do
  let header ← Task.readExact 4
  let ver := header.1.get ⟨0, by rw [header.2]; decide⟩
  let cmd := header.1.get ⟨1, by rw [header.2]; decide⟩
  let atyp := header.1.get ⟨3, by rw [header.2]; decide⟩
  if ver ≠ 0x05 then Task.fail (.socksInvalidVersion ver)
  else
    match Command.fromU8 cmd with
    | none => Task.fail (.socksInvalidCommand cmd)
    | some cmd => do
      let addr ← readAddress atyp
      pure ⟨cmd, addr⟩

/-- `ReplyCode`. -/
inductive ReplyCode where
  | success
  | hostUnreachable
  | connectionRefused
  deriving DecidableEq

/-- `code as u8`. -/
def ReplyCode.toU8 : ReplyCode → UInt8
  | success => 0x00
  | hostUnreachable => 0x04
  | connectionRefused => 0x05

/-- The bytes of a reply. -/
def replyBytes (code : ReplyCode) (bindAddr : Address) : List UInt8 :=
  [0x05, code.toU8, 0x00] ++ bindAddr.toSocks5Bytes

/-- `write_reply`. -/
def writeReply (sys : System) (code : ReplyCode) (bindAddr : Address) : Task Unit :=
  writeAll sys (replyBytes code bindAddr)

end PpcaNetwork.MyProxy
