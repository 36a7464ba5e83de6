import PpcaNetwork.Toolkit.Traceroute

/-!
# ICMP errors that quote a probe

`parse_icmp_error` looks for the first eight bytes behind the header of the packet that an
error quotes, and reads the length of that header off its first byte.

* `Checked.parseIcmpError` — the function, with the accesses that can panic.
* `IpHeader`, `Quotes` — what an error message quotes.
* `parseIcmpError_eq_some_iff` — what the function accepts; `readRight_iff` — when that is
  what an error quotes.
* `IsProbe` — what the two programs send.
* `icmp_errors_quote` — where the two agree, and that the probes are found.
-/

namespace PpcaNetwork.Toolkit

/-! ## The accesses -/

namespace Checked

/-- `parse_icmp_error`, access by access. -/
def parseIcmpError (icmpBody : List UInt8) :
    Exec (Option (UInt8 × UInt8 × UInt8 × Vector UInt8 8)) :=
  if icmpBody.length < 8 + 20 + 8 then pure none
  else do
    let icmpType ← Exec.index icmpBody 0
    let icmpCode ← Exec.index icmpBody 1
    if icmpType ≠ icmpTimeExceeded ∧ icmpType ≠ icmpDestUnreach then pure none
    else
      let innerIp ← Exec.sliceFrom icmpBody 8
      let versionIhl ← Exec.index innerIp 0
      let innerIhl := (versionIhl &&& 0x0F).toNat * 4
      let protocol ← Exec.index innerIp 9
      if innerIp.length < innerIhl + 8 then pure none
      else
        let transport ← Exec.slice innerIp innerIhl (innerIhl + 8)
        -- `try_into().unwrap()`
        if h : transport.length = 8 then
          pure (some (icmpType, icmpCode, protocol, ⟨transport.toArray, h⟩))
        else .panics

/-- No access is out of range. -/
theorem parseIcmpError_eq (icmpBody : List UInt8) :
    parseIcmpError icmpBody = .returns (Toolkit.parseIcmpError icmpBody) := by
  unfold parseIcmpError Toolkit.parseIcmpError
  split
  · rfl
  next hlen =>
    have hinner : (icmpBody.drop 8).length = icmpBody.length - 8 := List.length_drop ..
    rw [Exec.index_eq (by omega), Exec.returns_bind, Exec.index_eq (by omega), Exec.returns_bind]
    dsimp only
    split
    · rfl
    · rw [Exec.sliceFrom_eq (by omega), Exec.returns_bind, Exec.index_eq (by omega),
        Exec.returns_bind, Exec.index_eq (by omega), Exec.returns_bind]
      split
      · rfl
      next hihl =>
        rw [Exec.slice_eq (by omega), Exec.returns_bind]
        have hlength : (((icmpBody.drop 8).drop
            (((icmpBody.drop 8)[0] &&& 0x0F).toNat * 4)).take 8).length = 8 := by
          rw [List.length_take, List.length_drop]
          omega
        rw [dif_pos hlength, Exec.pure_eq, Exec.returns.injEq, Option.some.injEq]
        refine congrArg _ (congrArg _ (congrArg _ (Vector.ext fun i hi => ?_)))
        simp [Nat.add_assoc]

end Checked

/-! ## What the function accepts -/

/-- The two types of error that are looked at. -/
def IsError (icmpType : UInt8) : Prop := icmpType = icmpTimeExceeded ∨ icmpType = icmpDestUnreach

instance (icmpType : UInt8) : Decidable (IsError icmpType) :=
  inferInstanceAs (Decidable (_ ∨ _))

/-- The length of a header, as its first byte has it. -/
def headerLength (versionIhl : UInt8) : Nat := (versionIhl &&& 0x0F).toNat * 4

section Accepted

variable {body : List UInt8} {icmpType icmpCode protocol versionIhl : UInt8}
  {transport : Vector UInt8 8}

/-- What is read of a message, where `versionIhl` is the first byte of the quoted packet. -/
structure Accepted (body : List UInt8) (versionIhl icmpType icmpCode protocol : UInt8)
    (transport : Vector UInt8 8) : Prop where
  length_le : 36 ≤ body.length
  isError : IsError icmpType
  type_eq : body[0]? = some icmpType
  code_eq : body[1]? = some icmpCode
  first_eq : body[8]? = some versionIhl
  protocol_eq : body[17]? = some protocol
  transport_at : StandsAt body (8 + headerLength versionIhl) transport.toList

/-- An error whose quoted packet goes on for eight bytes behind the length of its header is read. -/
theorem parseIcmpError_eq_some_iff :
    parseIcmpError body = some (icmpType, icmpCode, protocol, transport) ↔
      ∃ versionIhl, Accepted body versionIhl icmpType icmpCode protocol transport := by
  have hinner : (body.drop 8).length = body.length - 8 := List.length_drop ..
  constructor
  · intro h
    unfold parseIcmpError at h
    split at h
    · cases h
    next hlen =>
      dsimp only at h
      split at h
      · cases h
      next htype =>
        split at h
        · cases h
        next hihl =>
          simp only [Option.some.injEq, Prod.mk.injEq] at h
          obtain ⟨rfl, rfl, rfl, rfl⟩ := h
          simp only [List.getElem_drop, Nat.add_zero, Nat.reduceAdd] at hihl ⊢
          have hlength : 8 + headerLength body[8] + 8 ≤ body.length := by
            unfold headerLength
            omega
          refine ⟨body[8], by omega, by unfold IsError; tauto, ?_, ?_, ?_, ?_, ?_⟩
          · exact List.getElem?_eq_getElem _
          · exact List.getElem?_eq_getElem _
          · exact List.getElem?_eq_getElem _
          · exact List.getElem?_eq_getElem _
          · have hslice := StandsAt.slice hlength
            convert hslice using 1
            refine List.ext_getElem (by simp; omega) fun i hi _ => ?_
            simp [headerLength, Nat.add_assoc]
  · rintro ⟨versionIhl, h⟩
    have hlen := h.length_le
    have hends := h.transport_at.length_le
    rw [Vector.length_toList] at hends
    obtain ⟨_, htype⟩ := List.getElem?_eq_some_iff.mp h.type_eq
    obtain ⟨_, hcode⟩ := List.getElem?_eq_some_iff.mp h.code_eq
    obtain ⟨_, hfirst⟩ := List.getElem?_eq_some_iff.mp h.first_eq
    obtain ⟨_, hprotocol⟩ := List.getElem?_eq_some_iff.mp h.protocol_eq
    have hisError := h.isError
    unfold IsError at hisError
    unfold headerLength at hends
    unfold parseIcmpError
    rw [dif_neg (by omega)]
    simp only [List.getElem_drop, Nat.add_zero, Nat.reduceAdd, htype, hcode, hfirst, hprotocol]
    rw [if_neg (by tauto), dif_neg (by omega), Option.some.injEq]
    refine congrArg _ (congrArg _ (congrArg _ (Vector.ext fun i hi => ?_)))
    have hbyte := h.transport_at.getElem_eq i (by simpa using hi) (by unfold headerLength; omega)
    simpa [headerLength, Nat.add_assoc] using hbyte

/-! ## What an error quotes -/

/-- The bytes of an IPv4 header with its options: as many as its first byte says, which also
has the version. -/
structure IpHeader (header : List UInt8) (protocol : UInt8) : Prop where
  length_le : 20 ≤ header.length
  first : ∃ versionIhl : UInt8, header[0]? = some versionIhl ∧ versionIhl >>> 4 = 4 ∧
    headerLength versionIhl = header.length
  protocol_eq : header[9]? = some protocol

/-- A message that quotes a packet with a whole header, of which the first eight bytes behind it
are there. -/
def Quotes (body : List UInt8) (icmpType icmpCode protocol : UInt8)
    (transport : Vector UInt8 8) : Prop :=
  ∃ fields header behind, fields.length = 6 ∧ IpHeader header protocol ∧
    body = icmpType :: icmpCode :: fields ++ header ++ transport.toList ++ behind

/-- The first byte of an IPv4 header: version 4, and at least the twenty bytes without options. -/
def Regular (versionIhl : UInt8) : Prop := versionIhl >>> 4 = 4 ∧ 5 ≤ (versionIhl &&& 0x0F).toNat

instance (versionIhl : UInt8) : Decidable (Regular versionIhl) :=
  inferInstanceAs (Decidable (_ ∧ _))

/-- What is quoted is accepted. -/
theorem Quotes.accepted (hisError : IsError icmpType)
    (h : Quotes body icmpType icmpCode protocol transport) :
    ∃ versionIhl, Regular versionIhl ∧
      Accepted body versionIhl icmpType icmpCode protocol transport := by
  obtain ⟨fields, header, behind, hfields, hheader, hbody⟩ := h
  obtain ⟨versionIhl, hfirst, hversion, hlength⟩ := hheader.first
  have hle := hheader.length_le
  have hquoted : StandsAt body 8 (header ++ transport.toList) :=
    ⟨icmpType :: icmpCode :: fields, behind, by simp [hbody], by simp [hfields]⟩
  obtain ⟨hheader_at, htransport_at⟩ := hquoted.append
  have hends := htransport_at.length_le
  rw [Vector.length_toList] at hends
  refine ⟨versionIhl, ⟨hversion, by unfold headerLength at hlength; omega⟩, by omega, hisError,
    by simp [hbody], by simp [hbody], ?_, ?_, ?_⟩
  · rw [← hfirst]
    exact hheader_at.getElem?_add (i := 0) (by omega)
  · rw [← hheader.protocol_eq]
    exact hheader_at.getElem?_add (i := 9) (by omega)
  · rw [hlength]
    exact htransport_at

/-- What is accepted is quoted, when the quoted packet has an IPv4 header. -/
theorem Accepted.quotes (h : Accepted body versionIhl icmpType icmpCode protocol transport)
    (hregular : Regular versionIhl) : Quotes body icmpType icmpCode protocol transport := by
  obtain ⟨hversion, hwords⟩ := hregular
  have hlen := h.length_le
  have hends := h.transport_at.length_le
  rw [Vector.length_toList] at hends
  have hheader : ((body.drop 8).take (headerLength versionIhl)).length =
      headerLength versionIhl := by
    rw [List.length_take, List.length_drop]
    omega
  have h20 : 20 ≤ headerLength versionIhl := by
    unfold headerLength
    omega
  have hwhole : StandsAt body 8
      ((body.drop 8).take (headerLength versionIhl) ++ transport.toList) := by
    refine StandsAt.join (StandsAt.slice (by omega)) ?_
    rw [hheader]
    exact h.transport_at
  obtain ⟨before, behind, hbody, hbefore⟩ := hwhole
  match before, hbefore with
  | b0 :: b1 :: fields, hbefore =>
    have htype := h.type_eq
    have hcode := h.code_eq
    rw [hbody] at htype hcode
    simp only [List.cons_append, List.getElem?_cons_zero, List.getElem?_cons_succ,
      Option.some.injEq] at htype hcode
    subst htype hcode
    refine ⟨fields, (body.drop 8).take (headerLength versionIhl), behind, by simpa using hbefore,
      ?_, by simpa only [List.append_assoc] using hbody⟩
    refine ⟨by omega, ⟨versionIhl, ?_, hversion, hheader.symm⟩, ?_⟩
    · rw [List.getElem?_take_of_lt (by omega), List.getElem?_drop]
      exact h.first_eq
    · rw [List.getElem?_take_of_lt (by omega), List.getElem?_drop]
      exact h.protocol_eq

end Accepted

/-- Eight bytes of a message. -/
theorem exists_standsAt {body : List UInt8} {offset : Nat} (h : offset + 8 ≤ body.length) :
    ∃ transport : Vector UInt8 8, StandsAt body offset transport.toList := by
  have hlength : ((body.drop offset).take 8).length = 8 := by
    rw [List.length_take, List.length_drop]
    omega
  exact ⟨⟨((body.drop offset).take 8).toArray, hlength⟩, StandsAt.slice h⟩

/-- The function reads a message as it should: it is an error that quotes a packet, and the
protocol and the eight bytes are those of that packet. -/
def ReadRight (body : List UInt8) : Prop :=
  ∀ icmpType icmpCode protocol transport,
    parseIcmpError body = some (icmpType, icmpCode, protocol, transport) ↔
      IsError icmpType ∧ Quotes body icmpType icmpCode protocol transport

/-- An error that is long enough for the quoted packet, as that has its length, quotes the first
byte of an IPv4 header. -/
def RegularIfLong (body : List UInt8) : Prop :=
  ∀ icmpType versionIhl, body[0]? = some icmpType → body[8]? = some versionIhl →
    IsError icmpType → 36 ≤ body.length → 8 + headerLength versionIhl + 8 ≤ body.length →
      Regular versionIhl

theorem readRight_iff (body : List UInt8) : ReadRight body ↔ RegularIfLong body := by
  constructor
  · intro h icmpType versionIhl htype hfirst hisError hlen hends
    obtain ⟨transport, htransport⟩ := exists_standsAt hends
    have haccepted : Accepted body versionIhl icmpType body[1] body[17] transport :=
      ⟨hlen, hisError, htype, List.getElem?_eq_getElem _, hfirst, List.getElem?_eq_getElem _,
        htransport⟩
    obtain ⟨-, hquotes⟩ := (h _ _ _ _).mp (parseIcmpError_eq_some_iff.mpr ⟨_, haccepted⟩)
    obtain ⟨versionIhl', hregular, haccepted'⟩ := hquotes.accepted hisError
    have hsame : versionIhl = versionIhl' :=
      Option.some.inj (hfirst.symm.trans haccepted'.first_eq)
    rw [hsame]
    exact hregular
  · intro h icmpType icmpCode protocol transport
    rw [parseIcmpError_eq_some_iff]
    constructor
    · rintro ⟨versionIhl, haccepted⟩
      have hends := haccepted.transport_at.length_le
      rw [Vector.length_toList] at hends
      exact ⟨haccepted.isError, haccepted.quotes (h _ _ haccepted.type_eq haccepted.first_eq
        haccepted.isError haccepted.length_le hends)⟩
    · rintro ⟨hisError, hquotes⟩
      obtain ⟨versionIhl, -, haccepted⟩ := hquotes.accepted hisError
      exact ⟨versionIhl, haccepted⟩

/-! ## The probes -/

/-- What the two programs send with a marker.  The source port and the checksum of a datagram
are the system's. -/
inductive IsProbe : Mode → UInt16 → List UInt8 → Prop where
  | udp (srcPort dstPort cs : UInt16) :
    IsProbe .udp dstPort (octets16 srcPort ++ octets16 dstPort ++ octets16 (8 + 32) ++
      octets16 cs ++ List.replicate 32 0)
  | icmp (id seq : UInt16) :
    IsProbe (.icmp id) seq (buildEchoRequest id seq (List.replicate 32 0))

namespace Mode

/-- The protocol of the probes. -/
def protocol : Mode → UInt8
  | udp => 17
  | icmp _ => 1

/-- Where the marker stands in the first eight bytes of a probe. -/
def markerAt : Mode → Nat
  | udp => 2
  | icmp _ => 6

/-- The marker that is read of them. -/
def markerOf (mode : Mode) (transport : Vector UInt8 8) : UInt16 :=
  ofOctets16 (transport.toList.getD mode.markerAt 0) (transport.toList.getD (mode.markerAt + 1) 0)

end Mode

section Probes

variable {mode : Mode} {marker : UInt16} {probe : List UInt8}

theorem getD_toList (transport : Vector UInt8 8) (i : Fin 8) :
    transport.toList.getD i 0 = transport.get i := by
  simp [Vector.get]

theorem markerOf_udp (transport : Vector UInt8 8) :
    Mode.udp.markerOf transport = ofOctets16 (transport.get 2) (transport.get 3) := by
  rw [← getD_toList, ← getD_toList]
  rfl

theorem markerOf_icmp (id : UInt16) (transport : Vector UInt8 8) :
    (Mode.icmp id).markerOf transport = ofOctets16 (transport.get 6) (transport.get 7) := by
  rw [← getD_toList, ← getD_toList]
  rfl

/-- The first eight bytes of a probe have its marker. -/
theorem IsProbe.transport (h : IsProbe mode marker probe) :
    ∃ (transport : Vector UInt8 8) (rest : List UInt8), probe = transport.toList ++ rest ∧
      mode.markerOf transport = marker ∧
      ∀ id, mode = .icmp id → ofOctets16 (transport.get 4) (transport.get 5) = id := by
  cases h with
  | udp srcPort _ cs =>
    exact ⟨⟨(octets16 srcPort ++ octets16 marker ++ octets16 (8 + 32) ++ octets16 cs).toArray, rfl⟩,
      List.replicate 32 0, rfl, ofOctets16_octets16 _, fun _ h => nomatch h⟩
  | icmp id _ =>
    rw [buildEchoRequest_eq]
    generalize checksum _ = cs
    refine ⟨⟨([icmpEchoRequest, 0] ++ octets16 cs ++ (octets16 id ++ octets16 marker)).toArray,
      rfl⟩, List.replicate 32 0, rfl, ofOctets16_octets16 _, ?_⟩
    rintro _ ⟨⟩
    exact ofOctets16_octets16 id

end Probes

/-- A message of the error type that is read. -/
theorem message_of_parse {mode : Mode} {body : List UInt8} {icmpType icmpCode : UInt8}
    {transport : Vector UInt8 8}
    (h : parseIcmpError body = some (icmpType, icmpCode, mode.protocol, transport))
    (hmode : mode = .udp ∨ icmpType = icmpTimeExceeded ∧ icmpCode = 0)
    (hid : ∀ id, mode = .icmp id → ofOctets16 (transport.get 4) (transport.get 5) = id) :
    ∃ reached, mode.message body = some ⟨mode.markerOf transport, reached⟩ := by
  cases mode with
  | udp =>
    rw [markerOf_udp]
    exact ⟨_, by simp only [Mode.message, udpMessage, h, Mode.protocol, if_pos]; rfl⟩
  | icmp id =>
    obtain ⟨rfl, rfl⟩ : icmpType = icmpTimeExceeded ∧ icmpCode = 0 := by simpa using hmode
    have hreply : parseEchoReply body = none := by
      obtain ⟨versionIhl, haccepted⟩ := parseIcmpError_eq_some_iff.mp h
      obtain ⟨_, htype⟩ := List.getElem?_eq_some_iff.mp haccepted.type_eq
      unfold parseEchoReply
      split
      · rfl
      · rw [if_pos]
        rw [htype]
        decide
    rw [markerOf_icmp]
    exact ⟨false, by
      simp only [Mode.message, icmpMessage, hreply, h, Mode.protocol, hid id rfl, and_self,
        if_true]⟩

/-- **Error messages.**  No access is out of range; the function reads a message as it should
exactly when the quoted packet, if it is long enough, begins like an IPv4 header; and of every
probe, quoted behind a header with any options, the marker is read back. -/
theorem icmp_errors_quote (body : List UInt8) :
    Checked.parseIcmpError body = .returns (parseIcmpError body) ∧
    (ReadRight body ↔ RegularIfLong body) ∧
    ∀ (mode : Mode) (marker : UInt16) (probe fields header behind : List UInt8)
      (icmpType icmpCode : UInt8) (n : Nat),
      IsProbe mode marker probe → IsError icmpType → fields.length = 6 →
      IpHeader header mode.protocol → 8 ≤ n →
      body = icmpType :: icmpCode :: fields ++ header ++ probe.take n ++ behind →
      ∃ transport, parseIcmpError body = some (icmpType, icmpCode, mode.protocol, transport) ∧
        transport.toList = probe.take 8 ∧ mode.markerOf transport = marker ∧
        (mode = .udp ∨ icmpType = icmpTimeExceeded ∧ icmpCode = 0 →
          ∃ reached, mode.message body = some ⟨marker, reached⟩) := by
  refine ⟨Checked.parseIcmpError_eq body, readRight_iff body, ?_⟩
  intro mode marker probe fields header behind icmpType icmpCode n hprobe hisError hfields hheader
    hn hbody
  obtain ⟨transport, rest, rfl, hmarker, hid⟩ := hprobe.transport
  have htake : (transport.toList ++ rest).take n = transport.toList ++ rest.take (n - 8) := by
    rw [List.take_append, List.take_of_length_le (by simpa using hn), Vector.length_toList]
  have hquotes : Quotes body icmpType icmpCode mode.protocol transport :=
    ⟨fields, header, rest.take (n - 8) ++ behind, hfields, hheader, by rw [hbody, htake]; simp⟩
  obtain ⟨versionIhl, -, haccepted⟩ := hquotes.accepted hisError
  have hparse := parseIcmpError_eq_some_iff.mpr ⟨versionIhl, haccepted⟩
  refine ⟨transport, hparse, ?_, hmarker, fun hmode => ?_⟩
  · exact (List.take_left' Vector.length_toList).symm
  · rw [← hmarker]
    exact message_of_parse hparse hmode hid

/-- A Time Exceeded whose quoted packet gives its header no words at all: its length field is
taken for a port. -/
def demoNoHeader : List UInt8 :=
  [11, 0, 0, 0, 0, 0, 0, 0] ++ [0x40, 0, 0x82, 0x9A, 0, 0, 0, 0, 1, 17] ++ List.replicate 18 0

theorem demo_not_readRight :
    udpMessage demoNoHeader = some ⟨33434, false⟩ ∧ ¬ ∀ body, ReadRight body := by
  refine ⟨rfl, fun h => ?_⟩
  have hregular := (readRight_iff demoNoHeader).mp (h demoNoHeader) 11 0x40 rfl rfl
    (by decide) (by decide) (by decide)
  exact absurd hregular (by decide)

/-- A probe to port 33434, quoted behind a header with one word of options. -/
theorem demo_quoted_marker :
    ∃ reached, udpMessage (11 :: 0 :: List.replicate 6 0 ++
      (0x46 :: List.replicate 8 0 ++ 17 :: List.replicate 14 0) ++
      (octets16 40000 ++ octets16 33434 ++ octets16 (8 + 32) ++ octets16 0 ++
        List.replicate 32 0).take 8 ++ []) = some ⟨33434, reached⟩ := by
  obtain ⟨-, -, h⟩ := icmp_errors_quote _
  obtain ⟨-, -, -, -, hmessage⟩ := h .udp 33434 _ (List.replicate 6 0)
    (0x46 :: List.replicate 8 0 ++ 17 :: List.replicate 14 0) [] 11 0 8 (.udp 40000 33434 0)
    (by decide) (by decide) ⟨by decide, ⟨0x46, by decide⟩, by decide⟩ (by decide) rfl
  exact hmessage (.inl rfl)

end PpcaNetwork.Toolkit
