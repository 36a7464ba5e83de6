import PpcaNetwork.MyProxy.Requests

/-!
# Replies to requests

`handle_client` of `inbounds/socks5.rs`: handshake, request, and then a connection or a UDP
association.  Every `?` on the way returns without a reply.

* `Address.resolveAll` — the candidates for a connection.
* `handleClient` — the function.
* `ClientRequest` — what a client sends that asks for something.
* `AnsweredOnce` — one reply, and whether it reports success rightly.
* `answered_once_iff` — when there is one.
-/

namespace PpcaNetwork.MyProxy

/-! ## Connections -/

/-- `Address::resolve_all`; of the addresses of a domain those of IPv4 come first. -/
def Address.resolveAll (lookupHost : Text → Except IoError (List SocketAddr)) :
    Address → Except ProxyError (List SocketAddr)
  | ipv4 ip port => .ok [.v4 ip port]
  | ipv6 ip port => .ok [.v6 ip port 0 0]
  | domain name port =>
    match lookupHost (name ++ utf8 ":" ++ decimal port.toNat) with
    | .error e => .error (.io e)
    | .ok addrs =>
      if addrs = [] then .error (.dnsResolutionFailed name)
      else .ok (addrs.mergeSort fun a b => a.isIpv4 || !b.isIpv4)

/-- The loop over the candidates: the first one that accepts, or else the last error. -/
def connectFirst (sys : System) :
    List SocketAddr → Option IoError → Except (Option IoError) SocketAddr
  | [], lastErr => .error lastErr
  | candidate :: addrs, _ =>
    match sys.connect candidate with
    | .ok () => .ok candidate
    | .error e => connectFirst sys addrs (some e)

theorem connectFirst_ok_iff {sys : System} {addrs : List SocketAddr} {lastErr : Option IoError} :
    (∃ server, connectFirst sys addrs lastErr = .ok server) ↔
      ∃ candidate ∈ addrs, sys.connect candidate = .ok () := by
  induction addrs generalizing lastErr with
  | nil => simp [connectFirst]
  | cons candidate addrs ih =>
    rw [connectFirst]
    cases hconnect : sys.connect candidate with
    | ok u => simp [hconnect]
    | error e => simp [hconnect, ih]

/-! ## The function -/

/-- `ZERO_ADDR`. -/
def zeroAddr : Address := .ipv4 ⟨0, 0, 0, 0⟩ 0

/-- `let _ = …`. -/
def Task.ignore {α : Type} (x : Task α) : Task Unit := fun c =>
  match x c with
  | .done _ c => .done () c
  | .failed _ c => .done () c
  | .waiting c => .waiting c

/-- `?` on a result of the system. -/
def Task.ofIo {α : Type} (x : Except IoError α) : Task α := Task.ofExcept (x.mapError .io)

/-- It goes on for ever. -/
def Task.wait {α : Type} : Task α := fun c => .waiting c

/-- From here on bytes are passed on. -/
def Task.relays : Task Unit := fun c => .done () { c with events := c.events ++ [.relays] }

/-- `relay::tcp::relay`. -/
def relayTcp (sys : System) : Task Unit := do
  Task.relays
  match sys.copyBidirectional with
  | some copied => Task.ofIo copied
  | none => Task.wait

/-- The branch of `handle_client` for `CONNECT`. -/
def handleConnect (sys : System) (addr : Address) : Task Unit :=
  match addr.resolveAll sys.lookupHost with
  | .error e => do
    Task.ignore (writeReply sys .hostUnreachable zeroAddr)
    Task.fail e
  | .ok addrs =>
    match connectFirst sys addrs none with
    | .error lastErr => do
      Task.ignore (writeReply sys .connectionRefused zeroAddr)
      Task.fail (.io (lastErr.getD ⟨.connectionRefused, utf8 "所有地址连接失败"⟩))
    | .ok _ => do
      Task.ignore (writeReply sys .success zeroAddr)
      relayTcp sys

/-- The branch of `handle_client` for `UDP ASSOCIATE`.  However the relay ends, the function
returns `Ok(())`. -/
def handleAssociate (sys : System) : Task Unit := do
  Task.ofIo sys.bindUdp
  let port ← Task.ofIo sys.udpPort
  let localAddr ← Task.ofIo sys.localAddr
  let localIp : Ipv4Addr :=
    match localAddr with
    | .v4 ip _ => ip
    | .v6 _ _ _ _ => ⟨127, 0, 0, 1⟩
  writeReply sys .success (.ipv4 localIp port)
  Task.relays

/-- `handle_client`. -/
def handleClient (sys : System) : Task Unit := do
  handshake sys
  let request ← readRequest
  match request.cmd with
  | .tcpConnect => handleConnect sys request.addr
  | .udpAssociate => handleAssociate sys

/-! ## What a client asks for -/

/-- A client that offers to do without authentication, and its request.  Of an address type
without a form nothing is known that could follow it. -/
structure ClientRequest where
  methods : List UInt8
  cmd : UInt8
  rsv : UInt8
  atyp : UInt8
  /-- What stands behind the address type. -/
  body : List UInt8
  methods_le : methods.length ≤ 255
  no_auth : 0x00 ∈ methods
  complete : AddressForm atyp body ∨ (atyp ∉ [0x01, 0x03, 0x04] ∧ body = [])

namespace ClientRequest

/-- The bytes of the method selection. -/
def greeting (r : ClientRequest) : List UInt8 :=
  [0x05, UInt8.ofNat r.methods.length] ++ r.methods

/-- The bytes of the request. -/
def bytes (r : ClientRequest) : List UInt8 := [0x05, r.cmd, r.rsv, r.atyp] ++ r.body

/-- The domain of an address of type 3. -/
def domain (r : ClientRequest) : Text := r.body.tail.take (r.body.headD 0).toNat

/-- The address type has a form, and a domain is text. -/
def AddressKnown (r : ClientRequest) : Prop :=
  r.atyp ∈ [0x01, 0x03, 0x04] ∧ (r.atyp = 0x03 → isUtf8 r.domain = true)

/-- The socket of a UDP association can be bound, and its addresses are known. -/
def Bound (sys : System) : Prop :=
  sys.bindUdp = .ok () ∧ (∃ port, sys.udpPort = .ok port) ∧ ∃ addr, sys.localAddr = .ok addr

/-- What the request asks for can be had. -/
def Established (sys : System) (r : ClientRequest) : Prop :=
  ∃ addr n, Address.fromSocks5 (r.atyp :: r.body) = .ok (addr, n) ∧
    (r.cmd = 0x01 ∧ (∃ addrs, addr.resolveAll sys.lookupHost = .ok addrs ∧
        ∃ candidate ∈ addrs, sys.connect candidate = .ok ()) ∨
      r.cmd = 0x03 ∧ Bound sys)

end ClientRequest

/-- The events of a task, whether it has ended or not. -/
def Progress.events {α : Type} : Progress α → List Event
  | .done _ c => c.events
  | .failed _ c => c.events
  | .waiting c => c.events

/-- Behind the answer to the method selection there is one reply, which reports success exactly if
the service is established, and after it nothing but the passing on of bytes. -/
def AnsweredOnce (established : Prop) (events : List Event) : Prop :=
  ∃ code bindAddr later,
    events = .wrote [0x05, 0x00] :: .wrote (replyBytes code bindAddr) :: later ∧
      (∀ e ∈ later, e = .relays) ∧ (code = .success ↔ established)

/-! ## Reading the request -/

section

variable {sys : System} {r : ClientRequest} {c : Client} {rest : List UInt8}

/-- A method selection that offers to do without authentication is accepted. -/
theorem handshake_done (hc : c.stream.bytes = r.greeting ++ rest) (hevents : c.events = [])
    (hwrite : sys.writeAll [] [0x05, 0x00] = .ok ()) :
    ∃ c', handshake sys c = .done () c' ∧ c'.stream.bytes = rest ∧
      c'.events = [.wrote [0x05, 0x00]] := by
  obtain ⟨c₁, hread₁, hc₁⟩ := Task.readExact_append
    (hc.trans (List.append_assoc _ _ _)) (n := 2) rfl
  have hlength : r.methods.length = (UInt8.ofNat r.methods.length).toNat :=
    (UInt8.toNat_ofNat_of_lt (Nat.lt_succ_of_le r.methods_le)).symm
  obtain ⟨c₂, hread₂, hc₂⟩ := Task.readExact_append hc₁.bytes hlength
  refine ⟨{ c₂ with events := c₂.events ++ [.wrote [0x05, 0x00]] }, ?_, hc₂.bytes, ?_⟩
  · rw [handshake, Task.bind_of_done hread₁]
    refine (congrFun (if_neg (not_not_intro rfl)) _).trans ?_
    refine (Task.bind_of_done hread₂).trans ?_
    rw [if_neg (not_not_intro r.no_auth)]
    rw [writeAll, hc₂.events, hc₁.events, hevents, hwrite]
  · rw [hc₂.events, hc₁.events, hevents]
    rfl

/-- A complete address whose domain is text is read. -/
theorem AddressForm.fromSocks5_ok {atyp : UInt8} {body : List UInt8} (h : AddressForm atyp body)
    (htext : atyp = 0x03 → isUtf8 (body.tail.take (body.headD 0).toNat) = true) :
    ∃ addr n, Address.fromSocks5 (atyp :: body) = .ok (addr, n) := by
  unfold Address.fromSocks5
  cases h with
  | ipv4 h => simp [h]
  | ipv6 h => simp [h]
  | @domain len rest h =>
    have hroom : ¬ rest.length + 1 + 1 < 2 + len.toNat + 2 := by omega
    have hutf8 : isUtf8 (rest.take len.toNat) = true := htext rfl
    simp [hroom, hutf8]

namespace ClientRequest

/-- A request can be read if its address type has a form and a domain is text. -/
theorem addressKnown_iff :
    r.AddressKnown ↔ ∃ addr n, Address.fromSocks5 (r.atyp :: r.body) = .ok (addr, n) := by
  constructor
  · rintro ⟨htype, htext⟩
    obtain hform | ⟨hno, -⟩ := r.complete
    · exact hform.fromSocks5_ok htext
    · exact absurd htype hno
  · rintro ⟨addr, n, hread⟩
    obtain ⟨hencodable, ⟨tail, hbytes⟩, -⟩ := Address.fromSocks5_eq_ok_iff.mp hread
    have hknown : r.atyp ∈ [0x01, 0x03, 0x04] → r.atyp ≠ 0x03 → r.AddressKnown :=
      fun htype hne => ⟨htype, fun hdomain => absurd hdomain hne⟩
    cases addr with
    | ipv4 ip port =>
      obtain ⟨htype, -⟩ := List.cons.inj hbytes
      exact hknown (by rw [← htype]; decide) (by rw [← htype]; decide)
    | ipv6 ip port =>
      obtain ⟨htype, -⟩ := List.cons.inj hbytes
      exact hknown (by rw [← htype]; decide) (by rw [← htype]; decide)
    | domain name port =>
      obtain ⟨htype, hbody⟩ := List.cons.inj hbytes
      refine ⟨by rw [← htype]; decide, fun _ => ?_⟩
      have hlen : (UInt8.ofNat name.length).toNat = name.length :=
        UInt8.toNat_ofNat_of_lt (Nat.lt_succ_of_le hencodable.2)
      have hdomain : r.domain = name := by
        rw [domain, ← hbody]
        show (name ++ octets16 port ++ tail).take (UInt8.ofNat name.length).toNat = name
        rw [hlen, List.append_assoc, List.take_left' rfl]
      rw [hdomain]
      exact hencodable.1

/-- Behind the four bytes of the head the command and the address are looked at. -/
theorem readRequest_eq (hc : c.stream.bytes = r.bytes ++ rest) :
    ∃ c₁, Task.Continues c c₁ (r.body ++ rest) ∧
      readRequest c = (match Command.fromU8 r.cmd with
        | none => Task.fail (.socksInvalidCommand r.cmd)
        | some cmd => do
          let addr ← readAddress r.atyp
          pure (Socks5Request.mk cmd addr)) c₁ := by
  obtain ⟨c₁, hread, hc₁⟩ := Task.readExact_append
    (hc.trans (List.append_assoc _ _ _)) (n := 4) rfl
  refine ⟨c₁, hc₁, ?_⟩
  rw [readRequest, Task.bind_of_done hread]
  exact congrFun (if_neg (not_not_intro rfl)) _

/-- What `read_request` makes of a request. -/
theorem readRequest_done {cmd : Command} {addr : Address} {n : Nat}
    (hc : c.stream.bytes = r.bytes ++ rest) (hcmd : Command.fromU8 r.cmd = some cmd)
    (hread : Address.fromSocks5 (r.atyp :: r.body) = .ok (addr, n)) :
    ∃ c', readRequest c = .done ⟨cmd, addr⟩ c' ∧ c'.events = c.events := by
  obtain ⟨c₁, hc₁, hstart⟩ := readRequest_eq hc
  have hform : AddressForm r.atyp r.body := by
    obtain hform | ⟨hno, -⟩ := r.complete
    · exact hform
    · exact absurd (addressKnown_iff.mpr ⟨addr, n, hread⟩).1 hno
  obtain ⟨c', haddr, hc'⟩ := readAddress_append hform hread hc₁.bytes
  rw [hcmd] at hstart
  exact ⟨c', hstart.trans (Task.bind_of_done haddr), hc'.events.trans hc₁.events⟩

/-- An address without a form, or whose domain is not text, is not read. -/
theorem readAddress_failed (hnot : ¬ r.AddressKnown) (hc : c.stream.bytes = r.body ++ rest) :
    ∃ e c', readAddress r.atyp c = .failed e c' ∧ c'.events = c.events := by
  obtain hform | ⟨hno, -⟩ := r.complete
  · obtain ⟨c', hbuf, hc'⟩ := readBuffer_append hform hc
    cases hread : Address.fromSocks5 (r.atyp :: r.body) with
    | ok result => exact absurd (addressKnown_iff.mpr ⟨result.1, result.2, hread⟩) hnot
    | error e =>
      refine ⟨e, c', ?_, hc'.events⟩
      rw [readAddress, Task.bind_of_done hbuf, hread]
      rfl
  · simp only [List.mem_cons, List.not_mem_nil, or_false, not_or] at hno
    refine ⟨.socksInvalidAddressType r.atyp, c, Task.bind_of_failed ?_, rfl⟩
    rw [readBuffer, if_neg hno.1, if_neg hno.2.1, if_neg hno.2.2, Task.fail_apply]

/-- A request that cannot be read is not answered. -/
theorem readRequest_failed (hc : c.stream.bytes = r.bytes ++ rest)
    (hunknown : Command.fromU8 r.cmd = none ∨ ¬ r.AddressKnown) :
    ∃ e c', readRequest c = .failed e c' ∧ c'.events = c.events := by
  obtain ⟨c₁, hc₁, hstart⟩ := readRequest_eq hc
  cases hcmd : Command.fromU8 r.cmd with
  | none =>
    rw [hcmd] at hstart
    exact ⟨_, _, hstart, hc₁.events⟩
  | some cmd =>
    rw [hcmd] at hstart
    have hnot : ¬ r.AddressKnown := by
      refine hunknown.resolve_left ?_
      rw [hcmd]
      exact Option.some_ne_none _
    obtain ⟨e, c', haddr, hc'⟩ := readAddress_failed hnot hc₁.bytes
    exact ⟨e, c', hstart.trans (Task.bind_of_failed haddr), hc'.trans hc₁.events⟩

end ClientRequest

/-! ## Replies -/

/-- `let _ = write_reply(…)` goes on, whether the client takes the reply or not. -/
theorem ignore_writeReply (code : ReplyCode) (bindAddr : Address) :
    Task.ignore (writeReply sys code bindAddr) c =
      .done () { c with events := c.events ++ [.wrote (replyBytes code bindAddr)] } := by
  rw [Task.ignore, writeReply, writeAll]
  cases sys.writeAll c.events (replyBytes code bindAddr) <;> rfl

/-- The passing on of bytes writes no reply. -/
theorem relayTcp_events : (relayTcp sys c).events = c.events ++ [.relays] := by
  have hstart : Task.relays c = .done () { c with events := c.events ++ [.relays] } := rfl
  rw [relayTcp, Task.bind_of_done hstart]
  cases sys.copyBidirectional with
  | none => rfl
  | some copied => cases copied <;> rfl

/-- `CONNECT` is answered, with success if one of the addresses accepts the connection. -/
theorem handleConnect_events (addr : Address) :
    ∃ code later, (handleConnect sys addr c).events
        = c.events ++ .wrote (replyBytes code zeroAddr) :: later ∧
      (∀ e ∈ later, e = .relays) ∧
      (code = .success ↔ ∃ addrs, addr.resolveAll sys.lookupHost = .ok addrs ∧
        ∃ candidate ∈ addrs, sys.connect candidate = .ok ()) := by
  unfold handleConnect
  cases hresolve : addr.resolveAll sys.lookupHost with
  | error e =>
    refine ⟨.hostUnreachable, [], ?_, by simp, by simp⟩
    dsimp only
    rw [Task.bind_of_done (ignore_writeReply _ _)]
    rfl
  | ok addrs =>
    have hconnect := @connectFirst_ok_iff sys addrs none
    cases hfirst : connectFirst sys addrs none with
    | error lastErr =>
      refine ⟨.connectionRefused, [], ?_, by simp, ?_⟩
      · dsimp only
        rw [hfirst]
        dsimp only
        rw [Task.bind_of_done (ignore_writeReply _ _)]
        rfl
      · simpa [hfirst] using hconnect
    | ok server =>
      refine ⟨.success, [.relays], ?_, by simp, ?_⟩
      · dsimp only
        rw [hfirst]
        dsimp only
        rw [Task.bind_of_done (ignore_writeReply _ _), relayTcp_events]
        simp
      · simpa [hfirst] using hconnect

theorem ofIo_ok_bind {α β : Type} (a : α) (f : α → Task β) : (Task.ofIo (.ok a) >>= f) = f a := rfl

theorem events_of_ofIo_error {α β : Type} (e : IoError) (f : α → Task β) :
    ((Task.ofIo (.error e) >>= f) c).events = c.events := rfl

/-- Bytes are passed on only if the client takes the reply. -/
theorem writeReply_relays_events (code : ReplyCode) (bindAddr : Address) :
    ∃ later, ((writeReply sys code bindAddr >>= fun _ => Task.relays) c).events
        = c.events ++ .wrote (replyBytes code bindAddr) :: later ∧ ∀ e ∈ later, e = .relays := by
  cases hwrite : sys.writeAll c.events (replyBytes code bindAddr) with
  | ok u =>
    have hdone : writeReply sys code bindAddr c =
        .done () { c with events := c.events ++ [.wrote (replyBytes code bindAddr)] } := by
      rw [writeReply, writeAll, hwrite]
    refine ⟨[.relays], ?_, by simp⟩
    rw [Task.bind_of_done hdone]
    exact List.append_assoc _ _ _
  | error e =>
    have hfailed : writeReply sys code bindAddr c =
        .failed (.io e) { c with events := c.events ++ [.wrote (replyBytes code bindAddr)] } := by
      rw [writeReply, writeAll, hwrite]
    exact ⟨[], by rw [Task.bind_of_failed hfailed]; rfl, by simp⟩

/-- `UDP ASSOCIATE` is answered with success if the socket can be bound. -/
theorem handleAssociate_events_of_bound (h : ClientRequest.Bound sys) :
    ∃ bindAddr later, (handleAssociate sys c).events
        = c.events ++ .wrote (replyBytes .success bindAddr) :: later ∧
        ∀ e ∈ later, e = .relays := by
  obtain ⟨hbind, ⟨port, hport⟩, localAddr, hlocal⟩ := h
  unfold handleAssociate
  rw [hbind, hport, hlocal, ofIo_ok_bind, ofIo_ok_bind, ofIo_ok_bind]
  exact ⟨_, writeReply_relays_events .success _⟩

/-- Without a socket there is no answer. -/
theorem handleAssociate_events_of_not_bound (h : ¬ ClientRequest.Bound sys) :
    (handleAssociate sys c).events = c.events := by
  unfold handleAssociate
  cases hbind : sys.bindUdp with
  | error e => exact events_of_ofIo_error e _
  | ok u =>
    rw [ofIo_ok_bind]
    cases hport : sys.udpPort with
    | error e => exact events_of_ofIo_error e _
    | ok port =>
      rw [ofIo_ok_bind]
      cases hlocal : sys.localAddr with
      | error e => exact events_of_ofIo_error e _
      | ok addr => exact absurd ⟨hbind, ⟨port, hport⟩, addr, hlocal⟩ h

/-! ## When a request is answered -/

theorem Command.fromU8_eq_some_iff {v : UInt8} {cmd : Command} :
    Command.fromU8 v = some cmd ↔
      (v = 0x01 ∧ cmd = .tcpConnect) ∨ (v = 0x03 ∧ cmd = .udpAssociate) := by
  unfold Command.fromU8
  split
  · rename_i h
    simp [h, eq_comm]
  · rename_i h
    split
    · rename_i h'
      simp [h', eq_comm]
    · rename_i h'
      simp [h, h']

namespace ClientRequest

/-- The command is one of the two that are served, the request can be read, and the socket of a UDP
association can be bound. -/
def Answerable (sys : System) (r : ClientRequest) : Prop :=
  (r.cmd = 0x01 ∨ r.cmd = 0x03) ∧ r.AddressKnown ∧ (r.cmd = 0x03 → Bound sys)

theorem established_connect_iff {addr : Address} {n : Nat} (hcmd : r.cmd = 0x01)
    (hread : Address.fromSocks5 (r.atyp :: r.body) = .ok (addr, n)) :
    r.Established sys ↔ ∃ addrs, addr.resolveAll sys.lookupHost = .ok addrs ∧
      ∃ candidate ∈ addrs, sys.connect candidate = .ok () := by
  rw [Established, hread, hcmd]
  constructor
  · rintro ⟨addr', n', h, hservice⟩
    cases h
    obtain ⟨-, h⟩ | ⟨h, -⟩ := hservice
    · exact h
    · exact absurd h (by decide)
  · exact fun h => ⟨addr, n, rfl, .inl ⟨rfl, h⟩⟩

theorem established_associate_iff {addr : Address} {n : Nat} (hcmd : r.cmd = 0x03)
    (hread : Address.fromSocks5 (r.atyp :: r.body) = .ok (addr, n)) :
    r.Established sys ↔ Bound sys := by
  rw [Established, hread, hcmd]
  constructor
  · rintro ⟨addr', n', -, hservice⟩
    obtain ⟨h, -⟩ | ⟨-, h⟩ := hservice
    · exact absurd h (by decide)
    · exact h
  · exact fun h => ⟨addr, n, rfl, .inr ⟨rfl, h⟩⟩

end ClientRequest

/-- The answer to the method selection is no reply. -/
theorem not_answeredOnce {p : Prop} : ¬ AnsweredOnce p [.wrote [0x05, 0x00]] := by
  rintro ⟨code, bindAddr, later, h, -⟩
  cases h

/-- A request that cannot be read gets no reply. -/
theorem not_answeredOnce_of_unknown {p : Prop} (hc : c.stream.bytes = r.bytes ++ rest)
    (hevents : c.events = [.wrote [0x05, 0x00]]) (f : Socks5Request → Task Unit)
    (hunknown : Command.fromU8 r.cmd = none ∨ ¬ r.AddressKnown) :
    ¬ AnsweredOnce p ((readRequest >>= f) c).events := by
  obtain ⟨e, c', hfailed, hc'⟩ := r.readRequest_failed hc hunknown
  rw [Task.bind_of_failed hfailed]
  show ¬ AnsweredOnce p c'.events
  rw [hc', hevents]
  exact not_answeredOnce

/-- `CONNECT` always gets one reply. -/
theorem handleConnect_answered {addr : Address} {n : Nat}
    (hevents : c.events = [.wrote [0x05, 0x00]])
    (hcmd : r.cmd = 0x01) (hread : Address.fromSocks5 (r.atyp :: r.body) = .ok (addr, n)) :
    AnsweredOnce (r.Established sys) (handleConnect sys addr c).events := by
  obtain ⟨code, later, hconnect, hlater, hcode⟩ := @handleConnect_events sys c addr
  refine ⟨code, zeroAddr, later, ?_, hlater, ?_⟩
  · exact hconnect.trans (by rw [hevents]; rfl)
  · rw [hcode, ClientRequest.established_connect_iff hcmd hread]

/-- `UDP ASSOCIATE` gets its one reply if the socket can be bound. -/
theorem handleAssociate_answered_iff {addr : Address} {n : Nat}
    (hevents : c.events = [.wrote [0x05, 0x00]]) (hcmd : r.cmd = 0x03)
    (hread : Address.fromSocks5 (r.atyp :: r.body) = .ok (addr, n)) :
    AnsweredOnce (r.Established sys) (handleAssociate sys c).events ↔ ClientRequest.Bound sys := by
  rw [ClientRequest.established_associate_iff hcmd hread]
  by_cases hbound : ClientRequest.Bound sys
  · obtain ⟨bindAddr, later, hassociate, hlater⟩ := @handleAssociate_events_of_bound sys c hbound
    refine iff_of_true ⟨.success, bindAddr, later, ?_, hlater, iff_of_true rfl hbound⟩ hbound
    exact hassociate.trans (by rw [hevents]; rfl)
  · rw [handleAssociate_events_of_not_bound hbound, hevents]
    exact iff_of_false not_answeredOnce hbound

end

/-- **When a request is answered.**  Whatever the system answers, a client that has agreed on a
method and sends a request gets one reply, with success exactly if the service is established, if
and only if the request is `Answerable`. -/
theorem answered_once_iff (sys : System) (r : ClientRequest) (c : Client) (rest : List UInt8)
    (hc : c.stream.bytes = r.greeting ++ (r.bytes ++ rest)) (hevents : c.events = [])
    (hwrite : sys.writeAll [] [0x05, 0x00] = .ok ()) :
    AnsweredOnce (r.Established sys) (handleClient sys c).events ↔ r.Answerable sys := by
  obtain ⟨c₁, hshake, hc₁, hevents₁⟩ := handshake_done hc hevents hwrite
  rw [handleClient, Task.bind_of_done hshake]
  cases hcmd : Command.fromU8 r.cmd with
  | none =>
    refine iff_of_false (not_answeredOnce_of_unknown hc₁ hevents₁ _ (.inl hcmd)) ?_
    rintro ⟨hserved | hserved, -⟩
    all_goals
      rw [hserved] at hcmd
      cases hcmd
  | some cmd =>
    by_cases hknown : r.AddressKnown
    · obtain ⟨addr, n, hread⟩ := ClientRequest.addressKnown_iff.mp hknown
      obtain ⟨c₂, hdone, hevents₂⟩ := r.readRequest_done hc₁ hcmd hread
      rw [Task.bind_of_done hdone]
      rw [hevents₁] at hevents₂
      obtain ⟨hserved, rfl⟩ | ⟨hserved, rfl⟩ := Command.fromU8_eq_some_iff.mp hcmd
      · refine iff_of_true (handleConnect_answered hevents₂ hserved hread)
          ⟨.inl hserved, hknown, ?_⟩
        intro h
        rw [hserved] at h
        exact absurd h (by decide)
      · refine (handleAssociate_answered_iff hevents₂ hserved hread).trans ?_
        constructor
        · exact fun hbound => ⟨.inr hserved, hknown, fun _ => hbound⟩
        · exact fun h => h.2.2 hserved
    · exact iff_of_false (not_answeredOnce_of_unknown hc₁ hevents₁ _ (.inr hknown))
        fun h => hknown h.2.1

/-! ## Two requests -/

/-- A client that offers only to do without authentication, and asks for 127.0.0.1:80. -/
def demoCommand (cmd : UInt8) : ClientRequest where
  methods := [0x00]
  cmd := cmd
  rsv := 0x00
  atyp := 0x01
  body := [127, 0, 0, 1, 0, 80]
  methods_le := by decide
  no_auth := by decide
  complete := .inl (.ipv4 rfl)

/-- Nothing fails. -/
def demoSystem : System where
  writeAll := fun _ _ => .ok ()
  lookupHost := fun _ => .ok []
  connect := fun _ => .ok ()
  copyBidirectional := some (.ok ())
  bindUdp := .ok ()
  udpPort := .ok 40000
  localAddr := .ok (.v4 ⟨127, 0, 0, 1⟩ 1080)

/-- Each of the two messages of the client arrives in one read. -/
def demoClient (cmd : UInt8) : Client :=
  ⟨⟨[⟨(demoCommand cmd).greeting, List.cons_ne_nil _ _⟩,
    ⟨(demoCommand cmd).bytes, List.cons_ne_nil _ _⟩], .waiting⟩, []⟩

theorem demo_connect_answered :
    AnsweredOnce ((demoCommand 0x01).Established demoSystem)
      (handleClient demoSystem (demoClient 0x01)).events :=
  (answered_once_iff demoSystem (demoCommand 0x01) (demoClient 0x01) [] rfl rfl rfl).mpr
    ⟨.inl rfl, ⟨by decide, fun h => absurd h (by decide)⟩, fun h => absurd h (by decide)⟩

/-- A `BIND` request gets no reply. -/
theorem demo_bind_unanswered :
    (demoClient 0x02).stream.bytes = (demoCommand 0x02).greeting ++ (demoCommand 0x02).bytes ∧
      (handleClient demoSystem (demoClient 0x02)).events = [.wrote [0x05, 0x00]] ∧
      ¬ AnsweredOnce ((demoCommand 0x02).Established demoSystem)
        (handleClient demoSystem (demoClient 0x02)).events := by
  have hevents : (handleClient demoSystem (demoClient 0x02)).events = [.wrote [0x05, 0x00]] := by
    decide
  refine ⟨by decide, hevents, ?_⟩
  rw [hevents]
  exact not_answeredOnce

end PpcaNetwork.MyProxy
