import PpcaNetwork.Lib.Exec
import PpcaNetwork.DnsResolver.Message

/-!
# Decoding untrusted messages

The decoders of `message.rs` once more, now with accesses that panic when they are out
of bounds and with the loop of `decode_name` as long as it takes.

* `Checked` — the decoders statement by statement, as executions.
* `roundsLeft` — the measure of the loop: the pointer targets that are still unvisited,
  then the distance to the end.
* `Checked.decodeNameLoop_eq` and the lemmas after it — every decoder returns, with what
  the total one of the same name computes.
* `decodeName_bounds`, `decodeQuestion_bounds`, `decodeRr_bounds` — where they end.
* `decoding_safe` — all of it, for every message.
-/

namespace PpcaNetwork.Dns

/-! ## The decoders as executions -/

namespace Checked

open Exec

/-- `u16::from_be_bytes([msg[i], msg[i + 1]])`. -/
def u16At (msg : List UInt8) (i : Nat) : Exec UInt16 := do
  return ofBeBytes16 (← index msg i) (← index msg (i + 1))

/-- `u32::from_be_bytes([msg[i], msg[i + 1], msg[i + 2], msg[i + 3]])`. -/
def u32At (msg : List UInt8) (i : Nat) : Exec UInt32 := do
  return ofBeBytes32 (← index msg i) (← index msg (i + 1)) (← index msg (i + 2))
    (← index msg (i + 3))

/-- The loop of `decode_name`, given `rounds` rounds. -/
def decodeNameLoop (msg : List UInt8) : (rounds : Nat) → (labels : List Text) → (offset : Nat) →
    (jumped : Bool) → (jumpEnd : Nat) → (visited : List Nat) → Exec (Option (List Text × Nat))
  | 0, _, _, _, _, _ => .running
  | rounds + 1, labels, offset, jumped, jumpEnd, visited =>
    if msg.length ≤ offset then return none
    else do
      let len ← index msg offset
      if len = 0 then return some (labels, if jumped then jumpEnd else offset + 1)
      else if len &&& 0xC0 = 0xC0 then
        if msg.length ≤ offset + 1 then return none
        else do
          let ptr := ((← u16At msg offset) &&& 0x3FFF).toNat
          if ptr ∈ visited then return none
          else
            decodeNameLoop msg rounds labels ptr true (if jumped then jumpEnd else offset + 2)
              (ptr :: visited)
      else
        let labelLen := len.toNat
        if msg.length < offset + 1 + labelLen then return none
        else do
          let label ← slice msg (offset + 1) (offset + 1 + labelLen)
          if isUtf8 label then
            decodeNameLoop msg rounds (labels ++ [toAsciiLowercase label]) (offset + 1 + labelLen)
              jumped jumpEnd visited
          else return none

/-- `decode_name`. -/
def decodeName (msg : List UInt8) (rounds start : Nat) : Exec (Option (Text × Nat)) := do
  match ← decodeNameLoop msg rounds [] start false start [] with
  | none => return none
  | some (labels, consumed) =>
    return some (if labels.isEmpty then rootName else joinText [dot] labels ++ [dot], consumed)

/-- `decode_header`. -/
def decodeHeader (msg : List UInt8) : Exec (Option DnsHeader) :=
  if msg.length < 12 then return none
  else do
    return some {
      id := ← u16At msg 0
      flags := ← u16At msg 2
      qdcount := ← u16At msg 4
      ancount := ← u16At msg 6
      nscount := ← u16At msg 8
      arcount := ← u16At msg 10 }

/-- `decode_question`. -/
def decodeQuestion (msg : List UInt8) (rounds offset : Nat) :
    Exec (Option (DnsQuestion × Nat)) := do
  match ← decodeName msg rounds offset with
  | none => return none
  | some (qname, off) =>
    if msg.length < off + 4 then return none
    else
      return some ({ qname := qname, qtype := ← u16At msg off, qclass := ← u16At msg (off + 2) },
        off + 4)

/-- `decode_rdata` for a `SOA` record. -/
def decodeSoa (msg : List UInt8) (rounds start len : Nat) : Exec (Option RData) := do
  match ← decodeName msg rounds start with
  | none => return none
  | some (mname, o1) =>
    match ← decodeName msg rounds o1 with
    | none => return none
    | some (rname, o2) =>
      if start + len < o2 + 20 then return none
      else
        return some (.soa mname rname (← u32At msg o2) (← u32At msg (o2 + 4))
          (← u32At msg (o2 + 8)) (← u32At msg (o2 + 12)) (← u32At msg (o2 + 16)))

/-- `decode_rdata`. -/
def decodeRdata (msg : List UInt8) (rounds : Nat) (rtype : UInt16) (start len : Nat) :
    Exec (Option RData) := do
  let s ← slice msg start (start + len)
  if rtype = typeA then
    if len < 4 then return none
    else return some (.a ⟨← index s 0, ← index s 1, ← index s 2, ← index s 3⟩)
  else if rtype = typeAaaa then
    if len < 16 then return none
    else do
      let ip ← slice s 0 16
      -- `copy_from_slice` panics when the lengths differ
      if h : ip.length = 16 then return some (.aaaa ⟨ip, h⟩) else .panics
  else if rtype = typeNs then
    return (← decodeName msg rounds start).map fun (name, _) => .ns name
  else if rtype = typeCname then
    return (← decodeName msg rounds start).map fun (name, _) => .cname name
  else if rtype = typeMx then
    if len < 3 then return none
    else do
      let preference := ofBeBytes16 (← index s 0) (← index s 1)
      return (← decodeName msg rounds (start + 2)).map fun (name, _) => .mx preference name
  else if rtype = typeSoa then decodeSoa msg rounds start len
  else return some (.unknown s)

/-- `decode_rr`. -/
def decodeRr (msg : List UInt8) (rounds offset : Nat) : Exec (Option (DnsRR × Nat)) := do
  match ← decodeName msg rounds offset with
  | none => return none
  | some (name, off) =>
    if msg.length < off + 10 then return none
    else do
      let rtype ← u16At msg off
      let cls ← u16At msg (off + 2)
      let ttl ← u32At msg (off + 4)
      let rdlength := (← u16At msg (off + 8)).toNat
      let rdStart := off + 10
      if msg.length < rdStart + rdlength then return none
      else
        return (← decodeRdata msg rounds rtype rdStart rdlength).map fun rdata =>
          ({ name := name, rtype := rtype, cls := cls, ttl := ttl, rdata := rdata },
            rdStart + rdlength)

/-- One of the loops of `decode_message`. -/
def decodeMany {α : Type} (decode : Nat → Exec (Option (α × Nat))) :
    Nat → Nat → Exec (Option (List α × Nat))
  | 0, off => return some ([], off)
  | count + 1, off => do
    match ← decode off with
    | none => return none
    | some (item, off) =>
      return (← decodeMany decode count off).map fun (items, off) => (item :: items, off)

/-- `decode_message`. -/
def decodeMessage (msg : List UInt8) (rounds : Nat) : Exec (Option DnsMessage) := do
  match ← decodeHeader msg with
  | none => return none
  | some header =>
    match ← decodeMany (decodeQuestion msg rounds) header.qdcount.toNat 12 with
    | none => return none
    | some (questions, off) =>
      match ← decodeMany (decodeRr msg rounds) header.ancount.toNat off with
      | none => return none
      | some (answers, off) =>
        match ← decodeMany (decodeRr msg rounds) header.nscount.toNat off with
        | none => return none
        | some (authorities, off) =>
          match ← decodeMany (decodeRr msg rounds) header.arcount.toNat off with
          | none => return none
          | some (additionals, _) =>
            return some { header, questions, answers, authorities, additionals }

/-! ## Accesses within bounds -/

theorem u16At_eq {msg : List UInt8} {i : Nat} (h : i + 2 ≤ msg.length) :
    u16At msg i = .returns (Dns.u16At msg i h) := by
  rw [u16At, index_eq (show i < msg.length by omega), index_eq (show i + 1 < msg.length by omega)]
  rfl

theorem u32At_eq {msg : List UInt8} {i : Nat} (h : i + 4 ≤ msg.length) :
    u32At msg i = .returns (Dns.u32At msg i h) := by
  rw [u32At, index_eq (show i < msg.length by omega), index_eq (show i + 1 < msg.length by omega),
    index_eq (show i + 2 < msg.length by omega), index_eq (show i + 3 < msg.length by omega)]
  rfl

end Checked

/-! ## The measure of the loop -/

/-- The pointer targets visited so far: all different, and of 14 bits. -/
structure PointersVisited (visited : List Nat) : Prop where
  nodup : visited.Nodup
  lt : ∀ ptr ∈ visited, ptr < 2 ^ 14

namespace PointersVisited

theorem nil : PointersVisited [] := ⟨List.nodup_nil, by simp⟩

theorem cons {visited : List Nat} (h : PointersVisited visited) {ptr : Nat}
    (hnew : ptr ∉ visited) (hlt : ptr < 2 ^ 14) : PointersVisited (ptr :: visited) := by
  refine ⟨List.nodup_cons.mpr ⟨hnew, h.nodup⟩, ?_⟩
  intro p hp
  rcases List.mem_cons.mp hp with rfl | hp
  · exact hlt
  · exact h.lt p hp

/-- There are `2 ^ 14` of them at most. -/
theorem length_le {visited : List Nat} (h : PointersVisited visited) :
    visited.length ≤ 2 ^ 14 := by
  have hsub : visited ⊆ List.range (2 ^ 14) := by
    intro ptr hptr
    exact List.mem_range.mpr (h.lt ptr hptr)
  have hle := (List.subperm_of_subset h.nodup hsub).length_le
  rwa [List.length_range] at hle

end PointersVisited

/-- A pointer has 14 bits. -/
theorem pointer_lt (x : UInt16) : (x &&& (0x3FFF : UInt16)).toNat < 2 ^ 14 := by
  have hle : x.toNat &&& 16383 ≤ 16383 := Nat.and_le_right
  rw [UInt16.toNat_and]
  exact Nat.lt_of_le_of_lt hle (by decide)

/-- How many rounds the loop can still take: between two pointers it moves towards the
end of the message, and each pointer uses up a target. -/
def roundsLeft (msg : List UInt8) (offset : Nat) (visited : List Nat) : Nat :=
  (2 ^ 14 - visited.length) * (msg.length + 1) + (msg.length - offset) + 1

/-- A label brings the end nearer. -/
theorem roundsLeft_label {msg : List UInt8} {offset offset' : Nat} (visited : List Nat)
    (hmore : offset < msg.length) (hnext : offset < offset') :
    roundsLeft msg offset' visited < roundsLeft msg offset visited := by
  rw [roundsLeft, roundsLeft]
  omega

/-- A pointer uses up a target, wherever it leads. -/
theorem roundsLeft_pointer (msg : List UInt8) (offset : Nat) {ptr : Nat} {visited : List Nat}
    (hv : PointersVisited (ptr :: visited)) :
    roundsLeft msg ptr (ptr :: visited) < roundsLeft msg offset visited := by
  have hle : visited.length + 1 ≤ 2 ^ 14 := hv.length_le
  obtain ⟨left, hleft⟩ : ∃ left, 2 ^ 14 - visited.length = left + 1 :=
    ⟨2 ^ 14 - visited.length - 1, by omega⟩
  have hless : 2 ^ 14 - (ptr :: visited).length = left := by
    rw [List.length_cons]
    omega
  rw [roundsLeft, roundsLeft, hleft, hless, Nat.add_mul]
  omega

theorem roundsLeft_start_le (msg : List UInt8) (start : Nat) :
    roundsLeft msg start [] ≤ decodeNameFuel msg := by
  rw [roundsLeft, decodeNameFuel, List.length_nil, Nat.add_mul]
  omega

/-! ## Every decoder returns -/

namespace Checked

open Exec

/-- The loop returns once it is given the rounds that it can take, with the result of
the total loop. -/
theorem decodeNameLoop_eq {msg : List UInt8} {rounds fuel : Nat} {labels : List Text}
    {offset : Nat} {jumped : Bool} {jumpEnd : Nat} {visited : List Nat}
    (hv : PointersVisited visited) (hrounds : roundsLeft msg offset visited ≤ rounds)
    (hfuel : roundsLeft msg offset visited ≤ fuel) :
    decodeNameLoop msg rounds labels offset jumped jumpEnd visited =
      .returns (Dns.decodeNameLoop msg fuel labels offset jumped jumpEnd visited) := by
  induction rounds generalizing fuel labels offset jumped jumpEnd visited with
  | zero => exact absurd hrounds (by simp [roundsLeft])
  | succ rounds ih =>
    obtain ⟨fuel, rfl⟩ : ∃ n, fuel = n + 1 := by
      refine ⟨fuel - 1, ?_⟩
      rw [roundsLeft] at hfuel
      omega
    rw [decodeNameLoop, Dns.decodeNameLoop]
    by_cases hoff : offset < msg.length
    · rw [if_neg (Nat.not_le.mpr hoff), dif_pos hoff, index_eq hoff, returns_bind]
      by_cases hzero : msg[offset] = 0
      · simp only [hzero, if_true, pure_eq]
      · simp only [hzero, if_false]
        by_cases hpointer : msg[offset] &&& 0xC0 = 0xC0
        · simp only [hpointer, if_true]
          by_cases hroom : offset + 2 ≤ msg.length
          · rw [if_neg (by omega), dif_pos hroom, u16At_eq hroom, returns_bind]
            by_cases hseen : (Dns.u16At msg offset hroom &&& 0x3FFF).toNat ∈ visited
            · rw [if_pos hseen, if_pos hseen, pure_eq]
            · -- the target is new: it is used up
              have hv' := hv.cons hseen (pointer_lt (Dns.u16At msg offset hroom))
              have hless := roundsLeft_pointer msg offset hv'
              rw [if_neg hseen, if_neg hseen]
              exact ih hv' (by omega) (by omega)
          · rw [if_pos (by omega), dif_neg hroom, pure_eq]
        · simp only [hpointer, if_false]
          by_cases hroom : offset + 1 + msg[offset].toNat ≤ msg.length
          · rw [if_neg (by omega), if_pos hroom, slice_eq hroom, returns_bind]
            have hless := roundsLeft_label visited hoff
              (show offset < offset + 1 + msg[offset].toNat by omega)
            split
            · exact ih hv (by omega) (by omega)
            · rw [pure_eq]
          · rw [if_pos (by omega), if_neg hroom, pure_eq]
    · rw [if_pos (by omega), dif_neg hoff, pure_eq]

variable {msg : List UInt8} {rounds : Nat}

theorem decodeName_eq (hrounds : decodeNameFuel msg ≤ rounds) (start : Nat) :
    decodeName msg rounds start = .returns (Dns.decodeName msg start) := by
  have hstart := roundsLeft_start_le msg start
  rw [decodeName, decodeNameLoop_eq .nil (hstart.trans hrounds) hstart, returns_bind,
    Dns.decodeName]
  cases Dns.decodeNameLoop msg (decodeNameFuel msg) [] start false start [] with
  | none => rfl
  | some r => rfl

theorem decodeHeader_eq (msg : List UInt8) :
    decodeHeader msg = .returns (Dns.decodeHeader msg) := by
  rw [decodeHeader, Dns.decodeHeader]
  by_cases h : 12 ≤ msg.length
  · rw [if_neg (by omega), dif_pos h, u16At_eq (show 0 + 2 ≤ msg.length by omega),
      u16At_eq (show 2 + 2 ≤ msg.length by omega), u16At_eq (show 4 + 2 ≤ msg.length by omega),
      u16At_eq (show 6 + 2 ≤ msg.length by omega), u16At_eq (show 8 + 2 ≤ msg.length by omega),
      u16At_eq (show 10 + 2 ≤ msg.length by omega)]
    rfl
  · rw [if_pos (by omega), dif_neg h, pure_eq]

theorem decodeQuestion_eq (hrounds : decodeNameFuel msg ≤ rounds) (offset : Nat) :
    decodeQuestion msg rounds offset = .returns (Dns.decodeQuestion msg offset) := by
  rw [decodeQuestion, decodeName_eq hrounds, returns_bind, Dns.decodeQuestion]
  cases Dns.decodeName msg offset with
  | none => rfl
  | some r =>
    obtain ⟨qname, off⟩ := r
    by_cases h : off + 4 ≤ msg.length
    · simp only [if_neg (show ¬ msg.length < off + 4 by omega), dif_pos h,
        u16At_eq (show off + 2 ≤ msg.length by omega),
        u16At_eq (show off + 2 + 2 ≤ msg.length by omega), returns_bind, pure_eq]
    · simp only [if_pos (show msg.length < off + 4 by omega), dif_neg h, pure_eq]

theorem decodeSoa_eq (hrounds : decodeNameFuel msg ≤ rounds) {start len : Nat}
    (h : start + len ≤ msg.length) :
    decodeSoa msg rounds start len = .returns (Dns.decodeSoa msg start len h) := by
  rw [decodeSoa, decodeName_eq hrounds, returns_bind, Dns.decodeSoa]
  cases Dns.decodeName msg start with
  | none => rfl
  | some r =>
    obtain ⟨mname, o1⟩ := r
    simp only [decodeName_eq hrounds, returns_bind]
    cases Dns.decodeName msg o1 with
    | none => rfl
    | some r =>
      obtain ⟨rname, o2⟩ := r
      by_cases hfixed : o2 + 20 ≤ start + len
      · simp only [if_neg (show ¬ start + len < o2 + 20 by omega), dif_pos hfixed,
          u32At_eq (show o2 + 4 ≤ msg.length by omega),
          u32At_eq (show o2 + 4 + 4 ≤ msg.length by omega),
          u32At_eq (show o2 + 8 + 4 ≤ msg.length by omega),
          u32At_eq (show o2 + 12 + 4 ≤ msg.length by omega),
          u32At_eq (show o2 + 16 + 4 ≤ msg.length by omega), returns_bind, pure_eq]
      · simp only [if_pos (show start + len < o2 + 20 by omega), dif_neg hfixed, pure_eq]

theorem decodeRdata_eq (hrounds : decodeNameFuel msg ≤ rounds) (rtype : UInt16)
    {start len : Nat} (h : start + len ≤ msg.length) :
    decodeRdata msg rounds rtype start len = .returns (Dns.decodeRdata msg rtype start len h) := by
  rw [decodeRdata, slice_eq h, returns_bind, Dns.decodeRdata]
  by_cases ha : rtype = typeA
  · rw [if_pos ha, if_pos ha]
    by_cases hlen : 4 ≤ len
    · rw [if_neg (by omega), dif_pos hlen, index_drop_take h (show 0 < len by omega),
        index_drop_take h (show 1 < len by omega), index_drop_take h (show 2 < len by omega),
        index_drop_take h (show 3 < len by omega)]
      rfl
    · rw [if_pos (by omega), dif_neg hlen, pure_eq]
  · rw [if_neg ha, if_neg ha]
    by_cases haaaa : rtype = typeAaaa
    · rw [if_pos haaaa, if_pos haaaa]
      by_cases hlen : 16 ≤ len
      · have hs : ((msg.drop start).take len).length = len := by
          rw [List.length_take, List.length_drop]
          omega
        have hip := slice_eq (i := 0) (n := 16) (show 0 + 16 ≤ _ by rw [hs]; omega)
        simp only [Nat.zero_add, List.drop_zero, List.take_take, Nat.min_eq_left hlen] at hip
        rw [if_neg (by omega), dif_pos hlen, hip, returns_bind, dif_pos, pure_eq]
      · rw [if_pos (by omega), dif_neg hlen, pure_eq]
    · rw [if_neg haaaa, if_neg haaaa]
      by_cases hns : rtype = typeNs
      · rw [if_pos hns, if_pos hns, decodeName_eq hrounds, returns_bind, pure_eq]
      · rw [if_neg hns, if_neg hns]
        by_cases hcname : rtype = typeCname
        · rw [if_pos hcname, if_pos hcname, decodeName_eq hrounds, returns_bind, pure_eq]
        · rw [if_neg hcname, if_neg hcname]
          by_cases hmx : rtype = typeMx
          · rw [if_pos hmx, if_pos hmx]
            by_cases hlen : 3 ≤ len
            · rw [if_neg (by omega), dif_pos hlen, index_drop_take h (show 0 < len by omega),
                index_drop_take h (show 1 < len by omega), returns_bind, returns_bind,
                decodeName_eq hrounds, returns_bind]
              rfl
            · rw [if_pos (by omega), dif_neg hlen, pure_eq]
          · rw [if_neg hmx, if_neg hmx]
            by_cases hsoa : rtype = typeSoa
            · rw [if_pos hsoa, if_pos hsoa, decodeSoa_eq hrounds h]
            · rw [if_neg hsoa, if_neg hsoa, pure_eq]

theorem decodeRr_eq (hrounds : decodeNameFuel msg ≤ rounds) (offset : Nat) :
    decodeRr msg rounds offset = .returns (Dns.decodeRr msg offset) := by
  rw [decodeRr, decodeName_eq hrounds, returns_bind, Dns.decodeRr]
  cases Dns.decodeName msg offset with
  | none => rfl
  | some r =>
    obtain ⟨name, off⟩ := r
    by_cases h : off + 10 ≤ msg.length
    · simp only [if_neg (show ¬ msg.length < off + 10 by omega), dif_pos h,
        u16At_eq (show off + 2 ≤ msg.length by omega),
        u16At_eq (show off + 2 + 2 ≤ msg.length by omega),
        u32At_eq (show off + 4 + 4 ≤ msg.length by omega),
        u16At_eq (show off + 8 + 2 ≤ msg.length by omega), returns_bind, pure_eq]
      split
      · rw [dif_neg (by omega)]
      · rw [dif_pos (by omega), decodeRdata_eq hrounds, returns_bind]
    · simp only [if_pos (show msg.length < off + 10 by omega), dif_neg h, pure_eq]

/-- A loop of `decode_message` returns if each of its rounds does. -/
theorem decodeMany_eq {α : Type} {decode : Nat → Exec (Option (α × Nat))}
    {total : Nat → Option (α × Nat)} (heq : ∀ off, decode off = .returns (total off))
    (count off : Nat) :
    decodeMany decode count off = .returns (Dns.decodeMany total count off) := by
  induction count generalizing off with
  | zero => rfl
  | succ count ih =>
    rw [decodeMany, Dns.decodeMany, heq, returns_bind]
    cases total off with
    | none => rfl
    | some r =>
      obtain ⟨item, next⟩ := r
      simp only [ih, returns_bind, pure_eq]

theorem decodeMessage_eq (hrounds : decodeNameFuel msg ≤ rounds) :
    decodeMessage msg rounds = .returns (Dns.decodeMessage msg) := by
  have hquestions := decodeMany_eq (decodeQuestion_eq hrounds)
  have hrecords := decodeMany_eq (decodeRr_eq hrounds)
  rw [decodeMessage, decodeHeader_eq, returns_bind, Dns.decodeMessage]
  cases Dns.decodeHeader msg with
  | none => rfl
  | some header =>
    simp only [hquestions, hrecords, returns_bind, Option.bind_eq_bind, Option.bind_some]
    cases Dns.decodeMany (Dns.decodeQuestion msg) header.qdcount.toNat 12 with
    | none => rfl
    | some r =>
      simp only [Option.bind_some]
      cases Dns.decodeMany (Dns.decodeRr msg) header.ancount.toNat r.2 with
      | none => rfl
      | some r =>
        simp only [Option.bind_some]
        cases Dns.decodeMany (Dns.decodeRr msg) header.nscount.toNat r.2 with
        | none => rfl
        | some r =>
          simp only [Option.bind_some]
          cases Dns.decodeMany (Dns.decodeRr msg) header.arcount.toNat r.2 with
          | none => rfl
          | some r => rfl

end Checked

/-! ## Where the decoders end -/

/-- The loop ends behind its start and within the message: the end of a name without
pointers is where the loop is, that of a name with pointers is behind the first. -/
theorem decodeNameLoop_bounds {msg : List UInt8} {fuel : Nat} {labels labels' : List Text}
    {start offset end' : Nat} {jumped : Bool} {jumpEnd : Nat} {visited : List Nat}
    (hfresh : jumped = false → start ≤ offset)
    (hjumped : jumped = true → start < jumpEnd ∧ jumpEnd ≤ msg.length)
    (hd : decodeNameLoop msg fuel labels offset jumped jumpEnd visited = some (labels', end')) :
    start < end' ∧ end' ≤ msg.length := by
  induction fuel generalizing labels offset jumped jumpEnd visited with
  | zero => exact absurd hd (by simp [decodeNameLoop])
  | succ fuel ih =>
    -- what a name that ends, or is left through its first pointer, before `next` returns
    have hend : ∀ next, offset < next → next ≤ msg.length →
        start < (if jumped then jumpEnd else next) ∧
          (if jumped then jumpEnd else next) ≤ msg.length := by
      intro next hlt hle
      cases jumped with
      | true => exact hjumped rfl
      | false => exact ⟨Nat.lt_of_le_of_lt (hfresh rfl) hlt, hle⟩
    cases decodeNameLoop_round hd with
    | root hoff hzero hr =>
      obtain ⟨-, rfl⟩ := Prod.mk.inj hr
      exact hend (offset + 1) (by omega) (by omega)
    | pointer hroom hpointer hnew hnext =>
      exact ih (by simp) (fun _ => hend (offset + 2) (by omega) (by omega)) hnext
    | label hoff hzero hpointer hroom hutf8 hnext =>
      refine ih ?_ hjumped hnext
      intro hno
      exact (hfresh hno).trans (by omega)

theorem decodeName_bounds {msg : List UInt8} {start end' : Nat} {name : Text}
    (hd : decodeName msg start = some (name, end')) : start < end' ∧ end' ≤ msg.length := by
  obtain ⟨⟨labels, e⟩, hloop, heq⟩ := Option.map_eq_some_iff.mp hd
  obtain ⟨-, rfl⟩ := Prod.mk.inj heq
  exact decodeNameLoop_bounds (fun _ => Nat.le_refl start) (by simp) hloop

theorem decodeQuestion_bounds {msg : List UInt8} {start end' : Nat} {question : DnsQuestion}
    (hd : decodeQuestion msg start = some (question, end')) :
    start < end' ∧ end' ≤ msg.length := by
  obtain ⟨off, hroom, hname, -, -, rfl⟩ := decodeQuestion_spec hd
  have hoff := (decodeName_bounds hname).1
  omega

theorem decodeRr_bounds {msg : List UInt8} {start end' : Nat} {rr : DnsRR}
    (hd : decodeRr msg start = some (rr, end')) : start < end' ∧ end' ≤ msg.length := by
  obtain ⟨off, _, hroom, hname, -, -, -, -, rfl⟩ := decodeRr_spec hd
  have hoff := (decodeName_bounds hname).1
  omega

/-- **Decoding is safe.**  For every byte string the decoders return once the loops of
`decode_name` are given the rounds that they can take, so no access is out of bounds and
no pointer keeps a loop going; and what they decode ends behind its start and within the
message. -/
theorem decoding_safe (msg : List UInt8) :
    (∃ bound, ∀ rounds, bound ≤ rounds →
      Checked.decodeMessage msg rounds = .returns (decodeMessage msg) ∧
      ∀ start, Checked.decodeName msg rounds start = .returns (decodeName msg start) ∧
        Checked.decodeQuestion msg rounds start = .returns (decodeQuestion msg start) ∧
        Checked.decodeRr msg rounds start = .returns (decodeRr msg start)) ∧
      ∀ start end',
        (∀ name, decodeName msg start = some (name, end') → start < end' ∧ end' ≤ msg.length) ∧
        (∀ question, decodeQuestion msg start = some (question, end') →
          start < end' ∧ end' ≤ msg.length) ∧
        ∀ rr, decodeRr msg start = some (rr, end') → start < end' ∧ end' ≤ msg.length := by
  constructor
  · refine ⟨decodeNameFuel msg, ?_⟩
    intro rounds hrounds
    refine ⟨Checked.decodeMessage_eq hrounds, ?_⟩
    intro start
    exact ⟨Checked.decodeName_eq hrounds start, Checked.decodeQuestion_eq hrounds start,
      Checked.decodeRr_eq hrounds start⟩
  · intro start end'
    exact ⟨fun _ => decodeName_bounds, fun _ => decodeQuestion_bounds, fun _ => decodeRr_bounds⟩

/-- A pointer to itself is followed once. -/
example : Checked.decodeName [0xC0, 0] 3 0 = .returns none := by decide

end PpcaNetwork.Dns
