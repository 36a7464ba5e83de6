import PpcaNetwork.Lib.Exec
import PpcaNetwork.Lib.Numerals
import PpcaNetwork.DnsResolver.Cache

/-!
# The root hints

`load_root_hints` of `dnsresolver/src/cache.rs`: a file of lines, each with the name, the TTL,
the type and the data of a record, whose records are put into the cache.

* `loadLine`, `loadLines`, `loadRootHints` — the loader; a word that is not there panics.
* `lineHint` — the record of a line of the form that the file is meant to have.
* `loadWords_eq_iff` — the words for which the loader does what the form says.
* `root_hints_iff` — the files that load as they should.
-/

namespace PpcaNetwork.Dns

/-! ## The loader -/

/-- `str::parse::<u32>`. -/
def parseU32 (s : Text) : Option UInt32 := (parseUint 10 (2 ^ 32 - 1) s).map UInt32.ofNat

/-- `str::parse::<u8>`. -/
def parseU8 (s : Text) : Option UInt8 := (parseUint 10 (2 ^ 8 - 1) s).map UInt8.ofNat

/-- The TTL of a line without one. -/
def defaultTtl : UInt32 := 3600000

/-- A word for the class IN. -/
def isClassWord (word : Text) : Bool := SameText word (utf8 "IN") || SameText word (utf8 "CLASS1")

/-- The octets that the loader finds between the dots of a word. -/
def octetsOf (word : Text) : List UInt8 := (word.splitOn 0x2E).filterMap parseU8

/-- The record that the loader makes of a type and the word behind it. -/
def hintRecord (name : Text) (ttl : UInt32) (rtype rdata : Text) : Option DnsRR :=
  if rtype = utf8 "A" then
    match octetsOf rdata with
    | [a, b, c, d] =>
      some { name := name, rtype := typeA, cls := classIn, ttl := ttl, rdata := .a ⟨a, b, c, d⟩ }
    | _ => none
  else if rtype = utf8 "NS" then
    some { name := name, rtype := typeNs, cls := classIn, ttl := ttl, rdata := .ns rdata }
  else none

/-- The loop over the words of a line: the record to put, if there is one. -/
def loadWords (parts : List Text) : Exec (Option DnsRR) :=
  if parts.length < 4 then .returns none
  else do
    let name ← Exec.index parts 0
    let word ← Exec.index parts 1
    let ttl := (parseU32 word).getD defaultTtl
    let word ← Exec.index parts 2
    let idx := if isClassWord word then 3 else 2
    let rtype ← Exec.index parts idx
    -- the data is read only where the type calls for it
    if rtype = utf8 "A" ∨ rtype = utf8 "NS" then do
      let rdata ← Exec.index parts (idx + 1)
      return hintRecord name ttl rtype rdata
    else return none

/-- One round of the loop over the lines. -/
def loadLine (line : Text) : Exec (Option DnsRR) :=
  let line := trim line
  if line = [] ∨ line.head? = some 0x3B then .returns none else loadWords (splitWhitespace line)

/-- What a line with a record, or with none, leaves in the cache. -/
def DnsCache.putHint (c : DnsCache) (now : Instant) : Option DnsRR → DnsCache
  | none => c
  | some rr => c.put rr now

/-- The loop over the lines; `clock n` is the time at which the `n`-th line is loaded. -/
def loadLines (clock : Nat → Instant) : (n : Nat) → List Text → DnsCache → Exec DnsCache
  | _, [], cache => .returns cache
  | n, line :: rest, cache => do
    let hint ← loadLine line
    loadLines clock (n + 1) rest (cache.putHint (clock n) hint)

/-- `load_root_hints`, where `content` is what reading the file at `path` gives. -/
def loadRootHints (cache : DnsCache) (clock : Nat → Instant) (path : Text)
    (content : Except Text Text) : Exec (Except Text DnsCache) :=
  match content with
  | .error e => .returns (.error (utf8 "read " ++ path ++ utf8 ": " ++ e))
  | .ok content => do
    let cache ← loadLines clock 0 (lines content) cache
    return .ok cache

/-! ## The form of a file -/

/-- A number in decimal digits, up to `max`. -/
def number (max : Nat) (word : Text) : Option Nat :=
  if word = [] then none else (parseDigits 10 0 word).filter (· ≤ max)

/-- The TTL that a word is. -/
def ttlOf (word : Text) : Option UInt32 := (number (2 ^ 32 - 1) word).map UInt32.ofNat

/-- The octet that a word is. -/
def octetOf (word : Text) : Option UInt8 := (number (2 ^ 8 - 1) word).map UInt8.ofNat

/-- The address that a word is: four octets with dots between them. -/
def addressOf (word : Text) : Option Ipv4Addr :=
  match (word.splitOn 0x2E).map octetOf with
  | [some a, some b, some c, some d] => some ⟨a, b, c, d⟩
  | _ => none

/-- The record of a type and its data. -/
def typedRecord (name : Text) (ttl : UInt32) (rtype rdata : Text) : Option DnsRR :=
  if rtype = utf8 "A" then
    (addressOf rdata).map fun ip =>
      { name := name, rtype := typeA, cls := classIn, ttl := ttl, rdata := .a ip }
  else if rtype = utf8 "NS" then
    some { name := name, rtype := typeNs, cls := classIn, ttl := ttl, rdata := .ns rdata }
  else none

/-- The record of the words `name [ttl] [IN] type rdata`. -/
def wordsHint : List Text → Option DnsRR
  | [name, rtype, rdata] => typedRecord name defaultTtl rtype rdata
  | [name, word, rtype, rdata] =>
    match ttlOf word with
    | some ttl => typedRecord name ttl rtype rdata
    | none => if isClassWord word then typedRecord name defaultTtl rtype rdata else none
  | [name, word, cls, rtype, rdata] =>
    match ttlOf word with
    | some ttl => if isClassWord cls then typedRecord name ttl rtype rdata else none
    | none => none
  | _ => none

/-- The words of a line; a comment has none. -/
def lineWords (line : Text) : List Text :=
  if (trim line).head? = some 0x3B then [] else splitWhitespace (trim line)

/-- The record of a line. -/
def lineHint (line : Text) : Option DnsRR := wordsHint (lineWords line)

/-- The records of a file. -/
def hints (content : Text) : List DnsRR := (lines content).filterMap lineHint

/-- The cache with the records of the lines put into it, one line after the other. -/
def putHints (clock : Nat → Instant) : (n : Nat) → List Text → DnsCache → DnsCache
  | _, [], cache => cache
  | n, line :: rest, cache => putHints clock (n + 1) rest (cache.putHint (clock n) (lineHint line))

/-! ## Words -/

theorem parseUint_of_number {max n : Nat} {word : Text} (h : number max word = some n) :
    parseUint 10 max word = some n := by
  unfold number at h
  split at h
  · cases h
  · rename_i hne
    obtain ⟨hdigits, hle⟩ := Option.filter_eq_some_iff.mp h
    exact parseUint_of_parseDigits hne hdigits (by simpa using hle)

theorem parseU32_of_ttlOf {word : Text} {ttl : UInt32} (h : ttlOf word = some ttl) :
    parseU32 word = some ttl := by
  obtain ⟨n, hn, rfl⟩ := Option.map_eq_some_iff.mp h
  rw [parseU32, parseUint_of_number hn, Option.map_some]

theorem parseU8_of_octetOf {word : Text} {octet : UInt8} (h : octetOf word = some octet) :
    parseU8 word = some octet := by
  obtain ⟨n, hn, rfl⟩ := Option.map_eq_some_iff.mp h
  rw [parseU8, parseUint_of_number hn, Option.map_some]

/-- The octets of an address are found between its dots. -/
theorem octetsOf_of_addressOf {word : Text} {ip : Ipv4Addr} (h : addressOf word = some ip) :
    octetsOf word = [ip.a, ip.b, ip.c, ip.d] := by
  unfold addressOf at h
  split at h
  · rename_i a b c d hoctets
    obtain rfl := Option.some.inj h
    obtain ⟨pa, rest, hsplit, ha, hrest⟩ := List.map_eq_cons_iff.mp hoctets
    obtain ⟨pb, rest, rfl, hb, hrest⟩ := List.map_eq_cons_iff.mp hrest
    obtain ⟨pc, rest, rfl, hc, hrest⟩ := List.map_eq_cons_iff.mp hrest
    obtain ⟨pd, rest, rfl, hd, hrest⟩ := List.map_eq_cons_iff.mp hrest
    obtain rfl := List.map_eq_nil_iff.mp hrest
    simp only [octetsOf, hsplit, List.filterMap_cons, parseU8_of_octetOf ha,
      parseU8_of_octetOf hb, parseU8_of_octetOf hc, parseU8_of_octetOf hd, List.filterMap_nil]
  · cases h

/-- No word that starts with a letter is a number. -/
theorem parseUint_cons_eq_none {max : Nat} {b : UInt8} (h : 0x41 ≤ b) (s : Text) :
    parseUint 10 max (b :: s) = none := by
  rw [UInt8.le_iff_toNat_le] at h
  have hplus : b ≠ 0x2B := by
    rintro rfl
    exact absurd h (by decide)
  have hdigit : digitValue 10 b = none := by
    simp only [digitValue, Option.filter_eq_none_iff, UInt8.le_iff_toNat_le]
    simp only [UInt8.reduceToNat] at *
    intro d hd
    split_ifs at hd
    all_goals simp only [Option.some.injEq, decide_eq_true_eq] at *
    all_goals omega
  rw [parseUint, stripPlus, if_neg hplus, if_neg (by simp), parseDigits, hdigit]
  rfl

/-- A word for the class is no TTL. -/
theorem parseU32_of_isClassWord {word : Text} (h : isClassWord word = true) :
    parseU32 word = none := by
  have hletter : ∀ b : UInt8, asciiLower b = 0x69 ∨ asciiLower b = 0x63 → 0x41 ≤ b := by
    intro b hb
    unfold asciiLower at hb
    split at hb
    · rename_i hupper
      exact hupper.1
    · rcases hb with rfl | rfl
      · decide
      · decide
  simp only [isClassWord, Bool.or_eq_true, decide_eq_true_eq] at h
  cases word with
  | nil => exact absurd h (by decide)
  | cons b s =>
    have hb : asciiLower b = 0x69 ∨ asciiLower b = 0x63 := by
      rcases h with h | h
      · exact .inl (List.cons.inj h).1
      · exact .inr (List.cons.inj h).1
    rw [parseU32, parseUint_cons_eq_none (hletter b hb), Option.map_none]

/-! ## Records -/

/-- The loader makes a record of the two words. -/
def Taken (rtype rdata : Text) : Prop :=
  rtype = utf8 "A" ∧ (octetsOf rdata).length = 4 ∨ rtype = utf8 "NS"

/-- The two words are a type and its data. -/
def Typed (rtype rdata : Text) : Prop :=
  rtype = utf8 "A" ∧ (addressOf rdata).isSome ∨ rtype = utf8 "NS"

instance (rtype rdata : Text) : Decidable (Taken rtype rdata) :=
  inferInstanceAs (Decidable (_ ∨ _))

instance (rtype rdata : Text) : Decidable (Typed rtype rdata) :=
  inferInstanceAs (Decidable (_ ∨ _))

theorem Typed.taken {rtype rdata : Text} (h : Typed rtype rdata) : Taken rtype rdata := by
  rcases h with ⟨hrtype, hsome⟩ | hrtype
  · obtain ⟨ip, hip⟩ := Option.isSome_iff_exists.mp hsome
    exact .inl ⟨hrtype, by rw [octetsOf_of_addressOf hip]; rfl⟩
  · exact .inr hrtype

section Records

variable (name : Text) (ttl : UInt32) {rtype rdata : Text}

theorem hintRecord_eq_none_iff : hintRecord name ttl rtype rdata = none ↔ ¬ Taken rtype rdata := by
  unfold hintRecord Taken
  by_cases ha : rtype = utf8 "A"
  · subst ha
    have hns : utf8 "A" ≠ utf8 "NS" := by decide
    rw [if_pos rfl]
    split
    · rename_i hoctets
      simp [hoctets]
    · rename_i hoctets
      simp only [true_and, hns, or_false, true_iff]
      intro hlen
      obtain ⟨a, b, c, d, heq⟩ := List.length_eq_four.mp hlen
      exact hoctets a b c d heq
  · rw [if_neg ha]
    by_cases hns : rtype = utf8 "NS"
    · simp [hns]
    · simp [ha, hns]

theorem typedRecord_eq_none_of_not_typed (h : ¬ Typed rtype rdata) :
    typedRecord name ttl rtype rdata = none := by
  unfold typedRecord
  obtain ⟨ha, hns⟩ := not_or.mp h
  by_cases hrtype : rtype = utf8 "A"
  · have hnone : addressOf rdata = none := by
      rw [← Option.not_isSome_iff_eq_none]
      exact fun hsome => ha ⟨hrtype, hsome⟩
    rw [if_pos hrtype, hnone, Option.map_none]
  · rw [if_neg hrtype, if_neg hns]

/-- Of a type and its data the loader makes the record that is meant. -/
theorem hintRecord_eq_of_typed (h : Typed rtype rdata) :
    hintRecord name ttl rtype rdata = typedRecord name ttl rtype rdata := by
  unfold hintRecord typedRecord
  rcases h with ⟨rfl, hsome⟩ | rfl
  · obtain ⟨ip, hip⟩ := Option.isSome_iff_exists.mp hsome
    rw [if_pos rfl, if_pos rfl, octetsOf_of_addressOf hip, hip, Option.map_some]
  · rfl

theorem typedRecord_eq_none_iff :
    typedRecord name ttl rtype rdata = none ↔ ¬ Typed rtype rdata := by
  constructor
  · intro hnone htyped
    rw [← hintRecord_eq_of_typed name ttl htyped, hintRecord_eq_none_iff] at hnone
    exact hnone htyped.taken
  · exact typedRecord_eq_none_of_not_typed name ttl

/-- The loader makes the record that is meant exactly where it makes none of other words. -/
theorem hintRecord_eq_iff :
    hintRecord name ttl rtype rdata = typedRecord name ttl rtype rdata ↔
      ¬ (Taken rtype rdata ∧ ¬ Typed rtype rdata) := by
  by_cases htyped : Typed rtype rdata
  · simp [hintRecord_eq_of_typed name ttl htyped, htyped]
  · rw [typedRecord_eq_none_of_not_typed name ttl htyped, hintRecord_eq_none_iff]
    simp [htyped]

end Records

/-! ## Lines -/

/-- The words of a line that the loader does not treat as the form of a file says: it passes
over a record with neither TTL nor class, panics where the data is not there, and makes a
record of words that are none. -/
def Faulty : List Text → Prop
  | [_, rtype, rdata] => Typed rtype rdata
  | [_, word, rtype, rdata] =>
    if isClassWord rtype then rdata = utf8 "A" ∨ rdata = utf8 "NS"
    else Taken rtype rdata ∧ ¬ (((ttlOf word).isSome ∨ isClassWord word) ∧ Typed rtype rdata)
  | [_, word, cls, rtype, rdata] =>
    if isClassWord cls then Taken rtype rdata ∧ ¬ ((ttlOf word).isSome ∧ Typed rtype rdata)
    else Taken cls rtype
  | _ :: _ :: cls :: rtype :: rdata :: _ =>
    if isClassWord cls then Taken rtype rdata else Taken cls rtype
  | _ => False

instance : DecidablePred Faulty
  | [] | [_] | [_, _] => inferInstanceAs (Decidable False)
  | [_, rtype, rdata] => inferInstanceAs (Decidable (Typed rtype rdata))
  | [_, _, _, _] => inferInstanceAs (Decidable (ite _ _ _))
  | [_, _, _, _, _] => inferInstanceAs (Decidable (ite _ _ _))
  | _ :: _ :: _ :: _ :: _ :: _ :: _ => inferInstanceAs (Decidable (ite _ _ _))

section LoadWords

variable (name word cls rtype rdata : Text) (rest : List Text)

/-- The TTL that the loader gives to the record. -/
def ttlOrDefault (word : Text) : UInt32 := (parseU32 word).getD defaultTtl

/-- A type that is neither A nor NS makes no record. -/
theorem ite_hintRecord (ttl : UInt32) :
    (if rtype = utf8 "A" ∨ rtype = utf8 "NS" then
      Exec.returns (hintRecord name ttl rtype rdata) else .returns none) =
      .returns (hintRecord name ttl rtype rdata) := by
  split
  · rfl
  · rename_i h
    obtain ⟨ha, hns⟩ := not_or.mp h
    rw [hintRecord, if_neg ha, if_neg hns]

/-- Behind the class only one of four words is left, and a type wants two. -/
theorem loadWords_four :
    loadWords [name, word, rtype, rdata] =
      if isClassWord rtype then
        if rdata = utf8 "A" ∨ rdata = utf8 "NS" then .panics else .returns none
      else .returns (hintRecord name (ttlOrDefault word) rtype rdata) := by
  unfold loadWords
  rw [if_neg (by simp)]
  by_cases hcls : isClassWord rtype = true
  · simp [hcls, Exec.index]
  · simp only [Exec.index, hcls, List.getElem?_cons_zero, List.getElem?_cons_succ,
      Exec.returns_bind, Exec.pure_eq]
    exact ite_hintRecord name rtype rdata _

/-- Of five words or more those behind the second, or behind the class, are read. -/
theorem loadWords_five :
    loadWords (name :: word :: cls :: rtype :: rdata :: rest) =
      .returns (if isClassWord cls then hintRecord name (ttlOrDefault word) rtype rdata
        else hintRecord name (ttlOrDefault word) cls rtype) := by
  unfold loadWords
  rw [if_neg (by simp)]
  by_cases hcls : isClassWord cls = true
  · simp only [Exec.index, hcls, List.getElem?_cons_zero, List.getElem?_cons_succ,
      Exec.returns_bind, Exec.pure_eq, if_true]
    exact ite_hintRecord name rtype rdata _
  · simp only [Exec.index, hcls, List.getElem?_cons_zero, List.getElem?_cons_succ,
      Exec.returns_bind, Exec.pure_eq]
    exact ite_hintRecord name cls rtype _

end LoadWords

theorem ttlOrDefault_of_ttlOf {word : Text} {ttl : UInt32} (h : ttlOf word = some ttl) :
    ttlOrDefault word = ttl := by
  rw [ttlOrDefault, parseU32_of_ttlOf h, Option.getD_some]

theorem ttlOrDefault_of_isClassWord {word : Text} (h : isClassWord word = true) :
    ttlOrDefault word = defaultTtl := by
  rw [ttlOrDefault, parseU32_of_isClassWord h, Option.getD_none]

/-- A word for the class is no type. -/
theorem not_typed_of_isClassWord {rtype : Text} (h : isClassWord rtype = true) (rdata : Text) :
    ¬ Typed rtype rdata := by
  rintro (⟨rfl, -⟩ | rfl)
  · exact absurd h (by decide)
  · exact absurd h (by decide)

section WordsHint

variable (name word cls rtype rdata : Text)

theorem wordsHint_four_of_class (h : isClassWord rtype = true) :
    wordsHint [name, word, rtype, rdata] = none := by
  have hnone := fun ttl =>
    typedRecord_eq_none_of_not_typed name ttl (not_typed_of_isClassWord h rdata)
  cases httl : ttlOf word with
  | some ttl => simp only [wordsHint, httl, hnone]
  | none => simp only [wordsHint, httl, hnone, ite_self]

theorem hintRecord_eq_wordsHint_four :
    hintRecord name (ttlOrDefault word) rtype rdata = wordsHint [name, word, rtype, rdata] ↔
      ¬ (Taken rtype rdata ∧ ¬ (((ttlOf word).isSome ∨ isClassWord word) ∧ Typed rtype rdata)) := by
  cases httl : ttlOf word with
  | some ttl =>
    simp only [wordsHint, httl, ttlOrDefault_of_ttlOf httl, hintRecord_eq_iff, Option.isSome_some,
      true_or, true_and]
  | none =>
    by_cases hcls : isClassWord word = true
    · simp only [wordsHint, httl, hcls, if_true, ttlOrDefault_of_isClassWord hcls,
        hintRecord_eq_iff, or_true, true_and]
    · simp [wordsHint, httl, hcls, hintRecord_eq_none_iff]

theorem hintRecord_eq_wordsHint_five (h : isClassWord cls = true) :
    hintRecord name (ttlOrDefault word) rtype rdata = wordsHint [name, word, cls, rtype, rdata] ↔
      ¬ (Taken rtype rdata ∧ ¬ ((ttlOf word).isSome ∧ Typed rtype rdata)) := by
  cases httl : ttlOf word with
  | some ttl =>
    simp only [wordsHint, httl, h, if_true, ttlOrDefault_of_ttlOf httl, hintRecord_eq_iff,
      Option.isSome_some, true_and]
  | none => simp [wordsHint, httl, hintRecord_eq_none_iff]

theorem wordsHint_five_of_not_class (h : ¬ isClassWord cls = true) :
    wordsHint [name, word, cls, rtype, rdata] = none := by
  cases httl : ttlOf word with
  | some ttl => simp only [wordsHint, httl, if_neg h]
  | none => simp only [wordsHint, httl]

end WordsHint

/-- The loader does with a line what the form of a file says exactly where the words of the
line are not faulty. -/
theorem loadWords_eq_iff (words : List Text) :
    loadWords words = .returns (wordsHint words) ↔ ¬ Faulty words := by
  match words with
  | [] => simp [loadWords, wordsHint, Faulty]
  | [_] => simp [loadWords, wordsHint, Faulty]
  | [_, _] => simp [loadWords, wordsHint, Faulty]
  | [name, rtype, rdata] =>
    have hshort : loadWords [name, rtype, rdata] = .returns none := if_pos (by simp)
    rw [hshort, Exec.returns.injEq, eq_comm]
    exact typedRecord_eq_none_iff name defaultTtl
  | [name, word, rtype, rdata] =>
    rw [loadWords_four, Faulty]
    by_cases hcls : isClassWord rtype = true
    · rw [if_pos hcls, if_pos hcls, wordsHint_four_of_class name word rtype rdata hcls]
      split
      · rename_i h
        simp [h]
      · rename_i h
        simp [h]
    · rw [if_neg hcls, if_neg hcls, Exec.returns.injEq]
      exact hintRecord_eq_wordsHint_four name word rtype rdata
  | [name, word, cls, rtype, rdata] =>
    rw [loadWords_five, Faulty, Exec.returns.injEq]
    by_cases hcls : isClassWord cls = true
    · rw [if_pos hcls, if_pos hcls]
      exact hintRecord_eq_wordsHint_five name word cls rtype rdata hcls
    · rw [if_neg hcls, if_neg hcls, wordsHint_five_of_not_class name word cls rtype rdata hcls]
      exact hintRecord_eq_none_iff name (ttlOrDefault word)
  | name :: word :: cls :: rtype :: rdata :: more :: rest =>
    have hnone : wordsHint (name :: word :: cls :: rtype :: rdata :: more :: rest) = none := rfl
    rw [loadWords_five, hnone, Faulty, Exec.returns.injEq]
    · split
      · exact hintRecord_eq_none_iff name (ttlOrDefault word)
      · exact hintRecord_eq_none_iff name (ttlOrDefault word)
    · simp

/-! ## Files -/

theorem loadLine_eq (line : Text) : loadLine line = loadWords (lineWords line) := by
  unfold loadLine lineWords
  by_cases hcomment : (trim line).head? = some 0x3B
  · rw [if_pos (.inr hcomment), if_pos hcomment]
    rfl
  · rw [if_neg hcomment]
    by_cases hempty : trim line = []
    · rw [if_pos (.inl hempty), hempty]
      rfl
    · rw [if_neg (by simp [hempty, hcomment])]

/-- Lines that are treated right leave the cache with their records put into it. -/
theorem loadLines_eq_putHints (clock : Nat → Instant) {ls : List Text}
    (h : ∀ line ∈ ls, loadLine line = .returns (lineHint line)) (n : Nat) (cache : DnsCache) :
    loadLines clock n ls cache = .returns (putHints clock n ls cache) := by
  induction ls generalizing n cache with
  | nil => rfl
  | cons line rest ih =>
    rw [loadLines, h line List.mem_cons_self, Exec.returns_bind]
    exact ih (fun l hl => h l (List.mem_cons_of_mem _ hl)) _ _

theorem DnsCache.stores_putHint_iff (c : DnsCache) (now : Instant) (hint : Option DnsRR)
    (rr : DnsRR) : (c.putHint now hint).Stores rr ↔ c.Stores rr ∨ ∃ h ∈ hint, h.Same rr := by
  cases hint with
  | none => simp [DnsCache.putHint]
  | some h => simp [DnsCache.putHint, DnsCache.stores_put_iff]

/-- The cache holds what it held, and the records of the lines. -/
theorem stores_putHints_iff (clock : Nat → Instant) (n : Nat) (ls : List Text) (cache : DnsCache)
    (rr : DnsRR) :
    (putHints clock n ls cache).Stores rr ↔
      cache.Stores rr ∨ ∃ hint ∈ ls.filterMap lineHint, hint.Same rr := by
  induction ls generalizing n cache with
  | nil => simp [putHints]
  | cons line rest ih =>
    rw [putHints, ih, DnsCache.stores_putHint_iff, or_assoc]
    cases hline : lineHint line with
    | none => simp [hline]
    | some hint => simp [hline]

/-- Loading a file does what the form of its lines says. -/
structure LoadsHints (content : Text) : Prop where
  /-- Whatever the cache holds before, the loader returns with the records of the lines put into
  it. -/
  result (cache : DnsCache) (clock : Nat → Instant) (path : Text) :
    loadRootHints cache clock path (.ok content) =
      .returns (.ok (putHints clock 0 (lines content) cache))
  /-- The cache then holds these records and what it held before, and no others. -/
  holds (cache cache' : DnsCache) (clock : Nat → Instant) (path : Text)
    (h : loadRootHints cache clock path (.ok content) = .returns (.ok cache')) (rr : DnsRR) :
    cache'.Stores rr ↔ cache.Stores rr ∨ ∃ hint ∈ hints content, hint.Same rr
  /-- Every line adds its own record, and a line without one adds none. -/
  effect : ∀ line ∈ lines content, loadLine line = .returns (lineHint line)

/-- A file loads as it should exactly when none of its lines is faulty. -/
theorem root_hints_iff (content : Text) :
    LoadsHints content ↔ ∀ line ∈ lines content, ¬ Faulty (lineWords line) := by
  have heffect : ∀ line, loadLine line = .returns (lineHint line) ↔ ¬ Faulty (lineWords line) := by
    intro line
    rw [loadLine_eq]
    exact loadWords_eq_iff (lineWords line)
  constructor
  · intro h line hline
    exact (heffect line).mp (h.effect line hline)
  · intro h
    have hlines : ∀ line ∈ lines content, loadLine line = .returns (lineHint line) := by
      intro line hline
      exact (heffect line).mpr (h line hline)
    have hresult : ∀ cache clock path, loadRootHints cache clock path (.ok content) =
        .returns (.ok (putHints clock 0 (lines content) cache)) := by
      intro cache clock path
      rw [loadRootHints, loadLines_eq_putHints clock hlines, Exec.returns_bind]
      rfl
    refine ⟨hresult, ?_, hlines⟩
    intro cache cache' clock path hload rr
    rw [hresult, Exec.returns.injEq, Except.ok.injEq] at hload
    subst hload
    exact stores_putHints_iff clock 0 (lines content) cache rr

example :
    ∀ line ∈ lines (utf8 "; root\n. 3600000 IN NS a.\n\na. 60 A 198.41.0.4\r\nb. IN A 1.2.3.4"),
      ¬ Faulty (lineWords line) := by decide +kernel

/-- A name server that is not named panics, one without a TTL is passed over, and an address
with a word among its octets is loaded. -/
theorem demo_root_hints :
    (∀ cache clock path,
      loadRootHints cache clock path (.ok (utf8 ". 3600000 IN NS")) = .panics) ∧
    (loadLine (utf8 "x. NS y.") = .returns none ∧ (lineHint (utf8 "x. NS y.")).isSome) ∧
    (lineHint (utf8 "x. 1 A 1.2.3.4.z") = none ∧
      loadLine (utf8 "x. 1 A 1.2.3.4.z") = .returns (some
        { name := utf8 "x.", rtype := typeA, cls := classIn, ttl := 1,
          rdata := .a ⟨1, 2, 3, 4⟩ })) ∧
    ¬ LoadsHints (utf8 ". 3600000 IN NS") := by
  have hpanics : ∀ cache clock path,
      loadRootHints cache clock path (.ok (utf8 ". 3600000 IN NS")) = .panics := fun _ _ _ => rfl
  refine ⟨hpanics, by decide +kernel, by decide +kernel, ?_⟩
  intro h
  have hresult := h.result .new (fun _ => default) []
  rw [hpanics] at hresult
  cases hresult

end PpcaNetwork.Dns
