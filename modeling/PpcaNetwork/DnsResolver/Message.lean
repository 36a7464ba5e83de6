import PpcaNetwork.Lib.Net
import PpcaNetwork.Lib.Text

/-!
# DNS messages on the wire

The codec of `dnsresolver/src/message.rs`: `encode_message` writes names in full,
`decode_message` follows compression pointers.  Every access to the message is
guarded by the bound that the source checks before it, so an access outside the
message cannot be written down.

* `decodeName` — labels up to the root, through pointers that are followed at
  most once each.
* `NameRound`, `decodeQuestion_spec`, `decodeSoa_spec`, `decodeRr_spec`,
  `decodeMany_succ_spec`, `decodeMessage_spec` — what each decoder has read when it succeeds.
* `decodeRr_typed` — a decoded record has data of the form its type calls for.
* `decodeHeader_encodeMessage` — the header of an encoded message reads back.
-/

namespace PpcaNetwork.Dns

/-! ## Constants -/

/-- The type of a record with an IPv4 address. -/
def typeA : UInt16 := 1

/-- The type of a record that names a server of a zone. -/
def typeNs : UInt16 := 2

/-- The type of an alias. -/
def typeCname : UInt16 := 5

/-- The type of the record at the start of a zone. -/
def typeSoa : UInt16 := 6

/-- The type of a record that names a mail server. -/
def typeMx : UInt16 := 15

/-- The type of a record with an IPv6 address. -/
def typeAaaa : UInt16 := 28

/-- The class of the Internet. -/
def classIn : UInt16 := 1

/-- The RCODE of a response without an error. -/
def rcodeNoerror : UInt8 := 0

/-- The RCODE of a response about a name that does not exist. -/
def rcodeNxdomain : UInt8 := 3

/-- The bit of the flags that tells a response from a query. -/
def flagQr : UInt16 := 0x8000

/-! ## Messages -/

/-- The twelve bytes in front: the id, the flags, and how many entries each section has. -/
structure DnsHeader where
  id : UInt16
  flags : UInt16
  qdcount : UInt16
  ancount : UInt16
  nscount : UInt16
  arcount : UInt16
  deriving DecidableEq, Repr

namespace DnsHeader

/-- `is_response`. -/
def isResponse (h : DnsHeader) : Bool := h.flags &&& flagQr != 0

/-- `rcode`: the last four bits of the flags. -/
def rcode (h : DnsHeader) : UInt8 := (h.flags &&& 0x000F).toUInt8

end DnsHeader

/-- An entry of the question section. -/
structure DnsQuestion where
  qname : Text
  qtype : UInt16
  qclass : UInt16
  deriving DecidableEq, Repr

/-- An IPv6 address: the source's `[u8; 16]`. -/
abbrev Ipv6Octets := { octets : List UInt8 // octets.length = 16 }

/-- The data of a record, by its type; what is not known stays as it is. -/
inductive RData where
  | a (ip : Ipv4Addr)
  | aaaa (ip : Ipv6Octets)
  | ns (name : Text)
  | cname (name : Text)
  | mx (preference : UInt16) (exchange : Text)
  | soa (mname rname : Text) (serial refresh retry expire minimum : UInt32)
  | unknown (data : List UInt8)
  deriving DecidableEq, Repr

/-- A resource record. -/
structure DnsRR where
  name : Text
  rtype : UInt16
  cls : UInt16
  ttl : UInt32
  rdata : RData
  deriving DecidableEq, Repr

/-- A message: the header and the four sections. -/
structure DnsMessage where
  header : DnsHeader
  questions : List DnsQuestion
  answers : List DnsRR
  authorities : List DnsRR
  additionals : List DnsRR
  deriving DecidableEq, Repr

/-! ## Numbers in network byte order -/

/-- `u16::to_be_bytes`. -/
def beBytes16 (x : UInt16) : List UInt8 := [(x >>> 8).toUInt8, x.toUInt8]

/-- `u32::to_be_bytes`. -/
def beBytes32 (x : UInt32) : List UInt8 :=
  [(x >>> 24).toUInt8, (x >>> 16).toUInt8, (x >>> 8).toUInt8, x.toUInt8]

/-- `u16::from_be_bytes`. -/
def ofBeBytes16 (b0 b1 : UInt8) : UInt16 := b0.toUInt16 <<< 8 ||| b1.toUInt16

/-- `u32::from_be_bytes`. -/
def ofBeBytes32 (b0 b1 b2 b3 : UInt8) : UInt32 :=
  b0.toUInt32 <<< 24 ||| b1.toUInt32 <<< 16 ||| b2.toUInt32 <<< 8 ||| b3.toUInt32

/-- The number at `msg[i..i + 2]`. -/
def u16At (msg : List UInt8) (i : Nat) (_h : i + 2 ≤ msg.length) : UInt16 :=
  ofBeBytes16 msg[i] msg[i + 1]

/-- The number at `msg[i..i + 4]`. -/
def u32At (msg : List UInt8) (i : Nat) (_h : i + 4 ≤ msg.length) : UInt32 :=
  ofBeBytes32 msg[i] msg[i + 1] msg[i + 2] msg[i + 3]

/-! ## Names -/

/-- The byte `.`. -/
def dot : UInt8 := 0x2E

/-- The name of the root. -/
def rootName : Text := [dot]

/-- `encode_name`: every label behind its length, and a zero byte; empty labels are skipped. -/
def encodeName (name : Text) : List UInt8 :=
  (((trimEndMatches dot name).splitOn dot).flatMap fun label =>
    if label.isEmpty then [] else UInt8.ofNat label.length :: label) ++ [0]

/-- The loop of `decode_name`.  Every round moves forward in the message or
follows a pointer that has not been followed before, so `fuel` is no limit. -/
def decodeNameLoop (msg : List UInt8) : (fuel : Nat) → (labels : List Text) → (offset : Nat) →
    (jumped : Bool) → (jumpEnd : Nat) → (visited : List Nat) → Option (List Text × Nat)
  | 0, _, _, _, _, _ => none
  | fuel + 1, labels, offset, jumped, jumpEnd, visited =>
    if h : offset < msg.length then
      let len := msg[offset]
      if len = 0 then some (labels, if jumped then jumpEnd else offset + 1)
      else if len &&& 0xC0 = 0xC0 then
        if h' : offset + 2 ≤ msg.length then
          let ptr := (u16At msg offset h' &&& 0x3FFF).toNat
          if ptr ∈ visited then none
          else
            decodeNameLoop msg fuel labels ptr true (if jumped then jumpEnd else offset + 2)
              (ptr :: visited)
        else none
      else
        let labelLen := len.toNat
        if offset + 1 + labelLen ≤ msg.length then
          let label := (msg.drop (offset + 1)).take labelLen
          if isUtf8 label then
            decodeNameLoop msg fuel (labels ++ [toAsciiLowercase label]) (offset + 1 + labelLen)
              jumped jumpEnd visited
          else none
        else none
    else none

/-- How many rounds `decode_name` can take: at most one round for every offset
between two pointers, of which there are at most `2 ^ 14`. -/
def decodeNameFuel (msg : List UInt8) : Nat := (2 ^ 14 + 1) * (msg.length + 1)

/-- `decode_name`: the name, with a dot at its end, and the offset behind it. -/
def decodeName (msg : List UInt8) (start : Nat) : Option (Text × Nat) :=
  (decodeNameLoop msg (decodeNameFuel msg) [] start false start []).map fun (labels, consumed) =>
    (if labels.isEmpty then rootName else joinText [dot] labels ++ [dot], consumed)

/-! ## Header and question -/

/-- `encode_header`. -/
def encodeHeader (h : DnsHeader) : List UInt8 :=
  beBytes16 h.id ++ beBytes16 h.flags ++ beBytes16 h.qdcount ++ beBytes16 h.ancount ++
    beBytes16 h.nscount ++ beBytes16 h.arcount

/-- `decode_header`. -/
def decodeHeader (msg : List UInt8) : Option DnsHeader :=
  if h : 12 ≤ msg.length then
    some {
      id := u16At msg 0 (by omega)
      flags := u16At msg 2 (by omega)
      qdcount := u16At msg 4 (by omega)
      ancount := u16At msg 6 (by omega)
      nscount := u16At msg 8 (by omega)
      arcount := u16At msg 10 (by omega) }
  else none

/-- `decode_question`. -/
def decodeQuestion (msg : List UInt8) (offset : Nat) : Option (DnsQuestion × Nat) :=
  match decodeName msg offset with
  | none => none
  | some (qname, off) =>
    if h : off + 4 ≤ msg.length then
      some ({ qname := qname
              qtype := u16At msg off (by omega)
              qclass := u16At msg (off + 2) (by omega) }, off + 4)
    else none

/-- `encode_question`. -/
def encodeQuestion (q : DnsQuestion) : List UInt8 :=
  encodeName q.qname ++ beBytes16 q.qtype ++ beBytes16 q.qclass

/-! ## Resource records -/

/-- The source's `ip.to_vec()`. -/
def ipv4Octets (ip : Ipv4Addr) : List UInt8 := [ip.a, ip.b, ip.c, ip.d]

/-- `encode_rdata`. -/
def encodeRdata : RData → List UInt8
  | .a ip => ipv4Octets ip
  | .aaaa ip => ip.1
  | .ns name | .cname name => encodeName name
  | .mx preference exchange => beBytes16 preference ++ encodeName exchange
  | .soa mname rname serial refresh retry expire minimum =>
    encodeName mname ++ encodeName rname ++ beBytes32 serial ++ beBytes32 refresh ++
      beBytes32 retry ++ beBytes32 expire ++ beBytes32 minimum
  | .unknown data => data

/-- `encode_rr`: the length of the data as a `u16`. -/
def encodeRr (rr : DnsRR) : List UInt8 :=
  encodeName rr.name ++ beBytes16 rr.rtype ++ beBytes16 rr.cls ++ beBytes32 rr.ttl ++
    beBytes16 (UInt16.ofNat (encodeRdata rr.rdata).length) ++ encodeRdata rr.rdata

/-- `decode_rdata` for a `SOA` record. -/
def decodeSoa (msg : List UInt8) (start len : Nat) (h : start + len ≤ msg.length) :
    Option RData :=
  match decodeName msg start with
  | none => none
  | some (mname, o1) =>
    match decodeName msg o1 with
    | none => none
    | some (rname, o2) =>
      if h' : o2 + 20 ≤ start + len then
        some (.soa mname rname (u32At msg o2 (by omega)) (u32At msg (o2 + 4) (by omega))
          (u32At msg (o2 + 8) (by omega)) (u32At msg (o2 + 12) (by omega))
          (u32At msg (o2 + 16) (by omega)))
      else none

/-- The data of a record of type `rtype` in the `len` bytes from `start`. -/
def decodeRdata (msg : List UInt8) (rtype : UInt16) (start len : Nat)
    (h : start + len ≤ msg.length) : Option RData :=
  if rtype = typeA then
    if h' : 4 ≤ len then some (.a ⟨msg[start], msg[start + 1], msg[start + 2], msg[start + 3]⟩)
    else none
  else if rtype = typeAaaa then
    if h' : 16 ≤ len then
      some (.aaaa ⟨(msg.drop start).take 16, by rw [List.length_take, List.length_drop]; omega⟩)
    else none
  else if rtype = typeNs then (decodeName msg start).map fun (name, _) => .ns name
  else if rtype = typeCname then (decodeName msg start).map fun (name, _) => .cname name
  else if rtype = typeMx then
    if h' : 3 ≤ len then
      (decodeName msg (start + 2)).map fun (name, _) => .mx (u16At msg start (by omega)) name
    else none
  else if rtype = typeSoa then decodeSoa msg start len h
  else some (.unknown ((msg.drop start).take len))

/-- `decode_rr`: the record, and the offset behind the length that it gives for its data. -/
def decodeRr (msg : List UInt8) (offset : Nat) : Option (DnsRR × Nat) :=
  match decodeName msg offset with
  | none => none
  | some (name, off) =>
    if h : off + 10 ≤ msg.length then
      let rtype := u16At msg off (by omega)
      let rdlength := (u16At msg (off + 8) (by omega)).toNat
      let rdStart := off + 10
      if h' : rdStart + rdlength ≤ msg.length then
        (decodeRdata msg rtype rdStart rdlength h').map fun rdata =>
          ({ name := name
             rtype := rtype
             cls := u16At msg (off + 2) (by omega)
             ttl := u32At msg (off + 4) (by omega)
             rdata := rdata }, rdStart + rdlength)
      else none
    else none

/-! ## Whole messages -/

/-- One of the loops of `decode_message`: `count` items, one after the other. -/
def decodeMany {α : Type} (decode : Nat → Option (α × Nat)) : Nat → Nat → Option (List α × Nat)
  | 0, off => some ([], off)
  | count + 1, off =>
    match decode off with
    | none => none
    | some (item, off) => (decodeMany decode count off).map fun (items, off) => (item :: items, off)

/-- `decode_message`: as many entries as the header says. -/
def decodeMessage (msg : List UInt8) : Option DnsMessage := do
  let header ← decodeHeader msg
  let (questions, off) ← decodeMany (decodeQuestion msg) header.qdcount.toNat 12
  let (answers, off) ← decodeMany (decodeRr msg) header.ancount.toNat off
  let (authorities, off) ← decodeMany (decodeRr msg) header.nscount.toNat off
  let (additionals, _) ← decodeMany (decodeRr msg) header.arcount.toNat off
  return { header, questions, answers, authorities, additionals }

/-- `encode_message`. -/
def encodeMessage (msg : DnsMessage) : List UInt8 :=
  encodeHeader msg.header ++ msg.questions.flatMap encodeQuestion ++ msg.answers.flatMap encodeRr ++
    msg.authorities.flatMap encodeRr ++ msg.additionals.flatMap encodeRr

/-! ## The header of an encoded message -/

theorem ofBeBytes16_toBeBytes (x : UInt16) : ofBeBytes16 (x >>> 8).toUInt8 x.toUInt8 = x := by
  apply UInt16.toNat_inj.mp
  have hx := x.toNat_lt
  have hhigh : x.toNat >>> 8 % 256 = x.toNat / 256 := by
    rw [Nat.shiftRight_eq_div_pow]
    omega
  have hfit : (x.toNat / 256) <<< 8 % 65536 = (x.toNat / 256) <<< 8 := by
    rw [Nat.shiftLeft_eq]
    omega
  simp only [ofBeBytes16, UInt16.toNat_or, UInt16.toNat_shiftLeft, UInt8.toNat_toUInt16,
    UInt16.toNat_toUInt8, UInt16.toNat_shiftRight]
  simp [hhigh, hfit]
  rw [← Nat.shiftLeft_add_eq_or_of_lt (Nat.mod_lt _ (by decide)), Nat.shiftLeft_eq]
  omega

theorem decodeHeader_encodeHeader (h : DnsHeader) (rest : List UInt8) :
    decodeHeader (encodeHeader h ++ rest) = some h := by
  have hlen : 12 ≤ (encodeHeader h ++ rest).length := by
    simp [encodeHeader, beBytes16]
  rw [decodeHeader, dif_pos hlen]
  simp [u16At, encodeHeader, beBytes16, ofBeBytes16_toBeBytes]

/-- The header of an encoded message reads back. -/
theorem decodeHeader_encodeMessage (msg : DnsMessage) :
    decodeHeader (encodeMessage msg) = some msg.header := by
  simp only [encodeMessage, List.append_assoc]
  exact decodeHeader_encodeHeader msg.header _

/-! ## What the decoders have read -/

/-- One round of `decode_name` that leads to `r`: it is at the root, at a pointer that has not
been followed yet, or at a label. -/
inductive NameRound (msg : List UInt8) (fuel : Nat) (labels : List Text) (offset : Nat)
    (jumped : Bool) (jumpEnd : Nat) (visited : List Nat) (r : List Text × Nat) : Prop
  | root (hoff : offset < msg.length) (hzero : msg[offset] = 0)
      (hr : r = (labels, if jumped then jumpEnd else offset + 1))
  | pointer (hroom : offset + 2 ≤ msg.length) (hpointer : msg[offset] &&& 0xC0 = 0xC0)
      (hnew : (u16At msg offset hroom &&& 0x3FFF).toNat ∉ visited)
      (hnext : decodeNameLoop msg fuel labels (u16At msg offset hroom &&& 0x3FFF).toNat true
        (if jumped then jumpEnd else offset + 2)
        ((u16At msg offset hroom &&& 0x3FFF).toNat :: visited) = some r)
  | label (hoff : offset < msg.length) (hzero : msg[offset] ≠ 0)
      (hpointer : ¬ msg[offset] &&& 0xC0 = 0xC0)
      (hroom : offset + 1 + msg[offset].toNat ≤ msg.length)
      (hutf8 : isUtf8 ((msg.drop (offset + 1)).take msg[offset].toNat) = true)
      (hnext : decodeNameLoop msg fuel
        (labels ++ [toAsciiLowercase ((msg.drop (offset + 1)).take msg[offset].toNat)])
        (offset + 1 + msg[offset].toNat) jumped jumpEnd visited = some r)

theorem decodeNameLoop_round {msg : List UInt8} {fuel : Nat} {labels : List Text} {offset : Nat}
    {jumped : Bool} {jumpEnd : Nat} {visited : List Nat} {r : List Text × Nat}
    (hd : decodeNameLoop msg (fuel + 1) labels offset jumped jumpEnd visited = some r) :
    NameRound msg fuel labels offset jumped jumpEnd visited r := by
  rw [decodeNameLoop] at hd
  by_cases hoff : offset < msg.length
  · rw [dif_pos hoff] at hd
    by_cases hzero : msg[offset] = 0
    · simp only [hzero, if_true] at hd
      exact .root hoff hzero (Option.some.inj hd).symm
    · simp only [hzero, if_false] at hd
      split at hd
      · rename_i hpointer
        split at hd
        · rename_i hroom
          split at hd
          · exact absurd hd (by simp)
          · rename_i hnew
            exact .pointer hroom hpointer hnew hd
        · exact absurd hd (by simp)
      · rename_i hpointer
        split at hd
        · rename_i hroom
          split at hd
          · rename_i hutf8
            exact .label hoff hzero hpointer hroom hutf8 hd
          · exact absurd hd (by simp)
        · exact absurd hd (by simp)
  · rw [dif_neg hoff] at hd
    exact absurd hd (by simp)

section

variable {msg : List UInt8} {offset end' : Nat}

theorem decodeQuestion_spec {question : DnsQuestion}
    (hd : decodeQuestion msg offset = some (question, end')) :
    ∃ (off : Nat) (h : off + 4 ≤ msg.length), decodeName msg offset = some (question.qname, off) ∧
      question.qtype = u16At msg off (by omega) ∧
      question.qclass = u16At msg (off + 2) (by omega) ∧ end' = off + 4 := by
  unfold decodeQuestion at hd
  split at hd
  · exact absurd hd (by simp)
  · rename_i qname off hname
    split at hd
    · rename_i h
      obtain ⟨rfl, rfl⟩ := Prod.mk.inj (Option.some.inj hd)
      exact ⟨off, h, hname, rfl, rfl, rfl⟩
    · exact absurd hd (by simp)

theorem decodeSoa_spec {start len : Nat} {h : start + len ≤ msg.length} {rdata : RData}
    (hd : decodeSoa msg start len h = some rdata) :
    ∃ mname o1 rname o2, decodeName msg start = some (mname, o1) ∧
      decodeName msg o1 = some (rname, o2) ∧ ∃ h' : o2 + 20 ≤ start + len,
        rdata = .soa mname rname (u32At msg o2 (by omega)) (u32At msg (o2 + 4) (by omega))
          (u32At msg (o2 + 8) (by omega)) (u32At msg (o2 + 12) (by omega))
          (u32At msg (o2 + 16) (by omega)) := by
  unfold decodeSoa at hd
  split at hd
  · exact absurd hd (by simp)
  · rename_i mname o1 hmname
    split at hd
    · exact absurd hd (by simp)
    · rename_i rname o2 hrname
      split at hd
      · rename_i h'
        exact ⟨mname, o1, rname, o2, hmname, hrname, h', (Option.some.inj hd).symm⟩
      · exact absurd hd (by simp)

theorem decodeRr_spec {rr : DnsRR} (hd : decodeRr msg offset = some (rr, end')) :
    ∃ (off : Nat) (h : off + 10 ≤ msg.length)
      (h' : off + 10 + (u16At msg (off + 8) (by omega)).toNat ≤ msg.length),
      decodeName msg offset = some (rr.name, off) ∧ rr.rtype = u16At msg off (by omega) ∧
        rr.cls = u16At msg (off + 2) (by omega) ∧ rr.ttl = u32At msg (off + 4) (by omega) ∧
        decodeRdata msg rr.rtype (off + 10) (u16At msg (off + 8) (by omega)).toNat h' =
          some rr.rdata ∧ end' = off + 10 + (u16At msg (off + 8) (by omega)).toNat := by
  unfold decodeRr at hd
  split at hd
  · exact absurd hd (by simp)
  · rename_i name off hname
    split at hd
    · rename_i h
      simp only at hd
      split at hd
      · rename_i h'
        obtain ⟨rdata, hrdata, heq⟩ := Option.map_eq_some_iff.mp hd
        obtain ⟨rfl, rfl⟩ := Prod.mk.inj heq
        exact ⟨off, h, h', hname, rfl, rfl, rfl, hrdata, rfl⟩
      · exact absurd hd (by simp)
    · exact absurd hd (by simp)

/-- A round of one of the loops of `decode_message`. -/
theorem decodeMany_succ_spec {α : Type} {decode : Nat → Option (α × Nat)} {count : Nat}
    {items : List α} (hd : decodeMany decode (count + 1) offset = some (items, end')) :
    ∃ item next rest, items = item :: rest ∧ decode offset = some (item, next) ∧
      decodeMany decode count next = some (rest, end') := by
  rw [decodeMany] at hd
  split at hd
  · exact absurd hd (by simp)
  · rename_i item next hitem
    obtain ⟨⟨rest, last⟩, hrest, heq⟩ := Option.map_eq_some_iff.mp hd
    obtain ⟨rfl, rfl⟩ := Prod.mk.inj heq
    exact ⟨item, next, rest, rfl, hitem, hrest⟩

/-- The header, the questions and the answers of a message. -/
theorem decodeMessage_spec {m : DnsMessage} (hd : decodeMessage msg = some m) :
    decodeHeader msg = some m.header ∧
      ∃ off, decodeMany (decodeQuestion msg) m.header.qdcount.toNat 12 = some (m.questions, off) ∧
        ∃ off', decodeMany (decodeRr msg) m.header.ancount.toNat off = some (m.answers, off') := by
  simp only [decodeMessage, Option.bind_eq_bind, Option.bind_eq_some_iff, Prod.exists] at hd
  obtain ⟨header, hheader, questions, off, hquestions, answers, off', hanswers, authorities, off'',
    -, additionals, last, -, heq⟩ := hd
  obtain rfl := Option.some.inj heq
  exact ⟨hheader, off, hquestions, off', hanswers⟩

end

/-! ## The data of a record, by its type -/

section

variable {msg : List UInt8} {start len : Nat}

theorem decodeRdata_a (h : start + len ≤ msg.length) (hlen : 4 ≤ len) :
    decodeRdata msg typeA start len h =
      some (.a ⟨msg[start], msg[start + 1], msg[start + 2], msg[start + 3]⟩) := dif_pos hlen

theorem decodeRdata_aaaa (h : start + len ≤ msg.length) (hlen : 16 ≤ len) :
    decodeRdata msg typeAaaa start len h =
      some (.aaaa ⟨(msg.drop start).take 16, by rw [List.length_take, List.length_drop]; omega⟩) :=
  dif_pos hlen

theorem decodeRdata_ns (h : start + len ≤ msg.length) :
    decodeRdata msg typeNs start len h =
      (decodeName msg start).map fun (name, _) => .ns name := rfl

theorem decodeRdata_cname (h : start + len ≤ msg.length) :
    decodeRdata msg typeCname start len h =
      (decodeName msg start).map fun (name, _) => .cname name := rfl

theorem decodeRdata_mx (h : start + len ≤ msg.length) :
    decodeRdata msg typeMx start len h =
      if h' : 3 ≤ len then
        (decodeName msg (start + 2)).map fun (name, _) => .mx (u16At msg start (by omega)) name
      else none := rfl

theorem decodeRdata_soa (h : start + len ≤ msg.length) :
    decodeRdata msg typeSoa start len h = decodeSoa msg start len h := rfl

theorem decodeRdata_unknown {rtype : UInt16} (h : start + len ≤ msg.length)
    (hother : rtype ∉ [typeA, typeAaaa, typeNs, typeCname, typeMx, typeSoa]) :
    decodeRdata msg rtype start len h = some (.unknown ((msg.drop start).take len)) := by
  simp only [List.mem_cons, List.not_mem_nil, or_false, not_or] at hother
  obtain ⟨ha, haaaa, hns, hcname, hmx, hsoa⟩ := hother
  rw [decodeRdata, if_neg ha, if_neg haaaa, if_neg hns, if_neg hcname, if_neg hmx, if_neg hsoa]

end

/-! ## Decoded records -/

/-- The data of a record has the form that its type calls for. -/
def DnsRR.Typed (rr : DnsRR) : Prop :=
  match rr.rdata with
  | .a _ => rr.rtype = typeA
  | .aaaa _ => rr.rtype = typeAaaa
  | .ns _ => rr.rtype = typeNs
  | .cname _ => rr.rtype = typeCname
  | .mx .. => rr.rtype = typeMx
  | .soa .. => rr.rtype = typeSoa
  | .unknown _ => rr.rtype ∉ [typeA, typeAaaa, typeNs, typeCname, typeMx, typeSoa]

/-- Only a `CNAME` record carries a `CNAME` target. -/
theorem DnsRR.Typed.rtype_eq_cname {rr : DnsRR} (h : rr.Typed) {target : Text}
    (hr : rr.rdata = .cname target) : rr.rtype = typeCname := by
  unfold Typed at h
  rw [hr] at h
  exact h

theorem decodeRdata_typed {msg : List UInt8} {rtype : UInt16} {start len : Nat}
    {h : start + len ≤ msg.length} {rdata : RData}
    (hd : decodeRdata msg rtype start len h = some rdata) (name : Text) (cls : UInt16)
    (ttl : UInt32) : DnsRR.Typed ⟨name, rtype, cls, ttl, rdata⟩ := by
  unfold decodeRdata at hd
  split_ifs at hd with ha _ haaaa _ hns hcname hmx _ hsoa
  · obtain rfl := Option.some.inj hd
    exact ha
  · obtain rfl := Option.some.inj hd
    exact haaaa
  · obtain ⟨-, -, rfl⟩ := Option.map_eq_some_iff.mp hd
    exact hns
  · obtain ⟨-, -, rfl⟩ := Option.map_eq_some_iff.mp hd
    exact hcname
  · obtain ⟨-, -, rfl⟩ := Option.map_eq_some_iff.mp hd
    exact hmx
  · obtain ⟨_, _, _, _, -, -, _, rfl⟩ := decodeSoa_spec hd
    exact hsoa
  · obtain rfl := Option.some.inj hd
    simp [DnsRR.Typed, ha, haaaa, hns, hcname, hmx, hsoa]

/-- A decoded record has data of the form its type calls for. -/
theorem decodeRr_typed {msg : List UInt8} {offset end' : Nat} {rr : DnsRR}
    (hd : decodeRr msg offset = some (rr, end')) : rr.Typed := by
  obtain ⟨off, _, _, -, -, -, -, hrdata, -⟩ := decodeRr_spec hd
  exact decodeRdata_typed hrdata rr.name rr.cls rr.ttl

/-- What every decoded item satisfies, the items of a whole loop satisfy. -/
theorem decodeMany_forall {α : Type} {decode : Nat → Option (α × Nat)} {P : α → Prop}
    (hP : ∀ off item end', decode off = some (item, end') → P item) {count off end' : Nat}
    {items : List α} (hd : decodeMany decode count off = some (items, end')) :
    ∀ item ∈ items, P item := by
  induction count generalizing off items end' with
  | zero =>
    obtain ⟨rfl, -⟩ := Prod.mk.inj (Option.some.inj hd)
    simp
  | succ count ih =>
    obtain ⟨item, next, rest, rfl, hitem, hrest⟩ := decodeMany_succ_spec hd
    intro x hx
    rcases List.mem_cons.mp hx with rfl | hx
    · exact hP off x next hitem
    · exact ih hrest x hx

/-- Every answer of a decoded message is typed. -/
theorem decodeMessage_answers_typed {datagram : List UInt8} {msg : DnsMessage}
    (hd : decodeMessage datagram = some msg) : ∀ rr ∈ msg.answers, rr.Typed := by
  obtain ⟨-, off, -, off', hanswers⟩ := decodeMessage_spec hd
  exact decodeMany_forall (fun _ _ _ => decodeRr_typed) hanswers

end PpcaNetwork.Dns
