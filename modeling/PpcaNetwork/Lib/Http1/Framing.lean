import PpcaNetwork.Lib.Http1.Chunked

/-!
# Message framing of HTTP/1.1

How a recipient finds the end of a request and of a response, as RFC 9112 has it.

* `parseHead` and `renderHead` — the start line and the fields, and their round trip.
* `contentLength` and `isFinallyChunked` — the fields that frame a body.
* `requestRule` and `responseRule` — the rule for the body: RFC 9112, 6.3.
* `parseRequest` and `parseResponse` — one message, and what stands behind it.
* `InSync` — bytes that are one response to each of a list of requests; they stay
  so exactly if what is added is one response (`inSync_append_iff`).
* `promisesClose` — the connection is to be closed behind a response.
-/

namespace PpcaNetwork.Http1

/-! ## Fields -/

/-- A byte that a token may have. -/
def isTokenByte (b : UInt8) : Bool :=
  (0x30 ≤ b && b ≤ 0x39) || (0x41 ≤ b && b ≤ 0x5A) || (0x61 ≤ b && b ≤ 0x7A) ||
    (utf8 "!#$%&'*+-.^_`|~").contains b

/-- A method or a field name. -/
def IsToken (s : Text) : Prop := s ≠ [] ∧ ∀ b ∈ s, isTokenByte b = true

instance (s : Text) : Decidable (IsToken s) := inferInstanceAs (Decidable (_ ∧ _))

/-- The bytes of a field value: no control characters but the tab. -/
def isFieldByte (b : UInt8) : Bool := b = 0x09 || (0x20 ≤ b && b ≠ 0x7F)

/-- The text of a field value. -/
def IsFieldText (v : List UInt8) : Prop := ∀ b ∈ v, isFieldByte b = true

instance (v : List UInt8) : Decidable (IsFieldText v) := inferInstanceAs (Decidable (∀ b ∈ v, _))

/-- For fixed texts: the boolean test is evaluated much faster than the instances above. -/
theorem isToken_of_all {s : Text} (hne : s ≠ []) (h : s.all isTokenByte = true) : IsToken s :=
  ⟨hne, List.all_eq_true.mp h⟩

theorem isFieldText_of_all {v : List UInt8} (h : v.all isFieldByte = true) : IsFieldText v :=
  List.all_eq_true.mp h

/-- A field of a head. -/
structure Field where
  name : Text
  value : List UInt8
  deriving DecidableEq, Repr

/-- A field that a recipient understands. -/
structure Field.Valid (f : Field) : Prop where
  name : IsToken f.name
  value : IsFieldText f.value

/-- A value without the blanks around it. -/
def stripOws (v : List UInt8) : List UInt8 := (v.dropWhile isOws).rdropWhile isOws

/-- The field without the blanks around its value. -/
def Field.strip (f : Field) : Field := ⟨f.name, stripOws f.value⟩

@[simp] theorem Field.strip_name (f : Field) : f.strip.name = f.name := rfl

/-- The line of a field. -/
def Field.line (f : Field) : List UInt8 := f.name ++ utf8 ": " ++ f.value

/-- The field that a line has: a token, a colon, and the value. -/
def parseField (line : List UInt8) : Option Field :=
  match line.dropWhile (· ≠ 0x3A) with
  | [] => none
  | _ :: value =>
    let name := line.takeWhile (· ≠ 0x3A)
    if IsToken name ∧ value.all isFieldByte = true then some ⟨name, stripOws value⟩ else none

theorem isFieldByte_of_visible {b : UInt8} (h : IsVisible b) : isFieldByte b = true := by
  obtain ⟨hge, hle⟩ := h
  rw [UInt8.le_iff_toNat_le] at hge hle
  simp only [isFieldByte, Bool.or_eq_true, Bool.and_eq_true, decide_eq_true_eq,
    UInt8.le_iff_toNat_le, ← UInt8.toNat_inj, ne_eq]
  simp only [UInt8.reduceToNat] at *
  omega

theorem IsFieldText.append {v w : List UInt8} (hv : IsFieldText v) (hw : IsFieldText w) :
    IsFieldText (v ++ w) := by
  intro b hb
  rcases List.mem_append.mp hb with hb | hb
  · exact hv b hb
  · exact hw b hb

theorem isFieldText_formatRadix {radix n : Nat} (hradix : 2 ≤ radix) (hradix' : radix ≤ 16) :
    IsFieldText (formatRadix radix n) := by
  intro b hb
  exact isFieldByte_of_visible (visible_formatRadix hradix hradix' b hb)

theorem isFieldText_decimal (n : Nat) : IsFieldText (decimal n) :=
  isFieldText_formatRadix (by decide) (by decide)

theorem isTokenByte_cr : isTokenByte 0x0D = false := by decide +kernel

theorem isTokenByte_colon : isTokenByte 0x3A = false := by decide +kernel

theorem isTokenByte_blank : isTokenByte 0x20 = false := by decide +kernel

theorem IsToken.not_mem {s : Text} (h : IsToken s) {b : UInt8} (hb : isTokenByte b = false) :
    b ∉ s := by
  intro hmem
  exact absurd ((h.2 b hmem).symm.trans hb) (by simp)

theorem parseField_line {f : Field} (h : f.Valid) : parseField f.line = some f.strip := by
  have hcolon : ∀ b ∈ f.name, decide (b ≠ 0x3A) = true := by
    intro b hb
    rw [decide_eq_true_eq]
    rintro rfl
    exact h.name.not_mem isTokenByte_colon hb
  have hline : f.line = f.name ++ (0x3A :: 0x20 :: f.value) := by
    rw [Field.line, List.append_assoc]
    rfl
  have hvalue : (0x20 :: f.value).all isFieldByte = true := by
    rw [List.all_eq_true]
    intro b hb
    rcases List.mem_cons.mp hb with rfl | hb
    · rfl
    · exact h.value b hb
  have hdrop : f.line.dropWhile (· ≠ 0x3A) = 0x3A :: 0x20 :: f.value := by
    rw [hline, List.dropWhile_append_of_pos hcolon]
    rfl
  have htake : f.line.takeWhile (· ≠ 0x3A) = f.name := by
    rw [hline, List.takeWhile_append_of_pos hcolon]
    simp
  rw [parseField, hdrop, htake]
  simp only
  rw [if_pos ⟨h.name, hvalue⟩]
  rfl

/-- The line of a field is a line. -/
theorem Field.Valid.line {f : Field} (h : f.Valid) : f.line ≠ [] ∧ 0x0D ∉ f.line := by
  refine ⟨?_, ?_⟩
  · rw [Field.line, List.append_assoc]
    exact List.append_ne_nil_of_left_ne_nil h.name.1 _
  · rw [Field.line, List.mem_append, List.mem_append]
    rintro ((hmem | hmem) | hmem)
    · exact h.name.not_mem isTokenByte_cr hmem
    · exact absurd hmem (by decide +kernel)
    · exact absurd (h.value _ hmem) (by decide)

/-! ## Heads -/

/-- The start line and the fields of a message. -/
structure Head where
  start : List UInt8
  fields : List Field
  deriving DecidableEq, Repr

/-- The head that `s` starts with, and what stands behind it. -/
def parseHead (s : List UInt8) : Option (Head × List UInt8) :=
  match headLines [] s with
  | some (start :: lines, rest) => (lines.mapM parseField).map fun fields => (⟨start, fields⟩, rest)
  | _ => none

/-- A start line, fields, and the empty line. -/
def renderHead (start : List UInt8) (fields : List Field) : List UInt8 :=
  start ++ crlf ++ fields.flatMap (fun f => f.line ++ crlf) ++ crlf

theorem mapM_parseField {fields : List Field} (h : ∀ f ∈ fields, f.Valid) :
    (fields.map Field.line).mapM parseField = some (fields.map Field.strip) := by
  induction fields with
  | nil => rfl
  | cons f fields ih =>
    rw [List.map_cons, List.mapM_cons, parseField_line (h f (by simp)),
      ih fun x hx => h x (List.mem_cons_of_mem _ hx)]
    rfl

/-- **A head is parsed as it was written**, up to blanks around the values. -/
theorem parseHead_renderHead {start : List UInt8} {fields : List Field}
    (hstart : start ≠ [] ∧ 0x0D ∉ start) (hfields : ∀ f ∈ fields, f.Valid) (rest : List UInt8) :
    parseHead (renderHead start fields ++ rest) = some (⟨start, fields.map Field.strip⟩, rest) := by
  have hlines : ∀ line ∈ start :: fields.map Field.line, line ≠ [] ∧ 0x0D ∉ line := by
    intro line hline
    rcases List.mem_cons.mp hline with rfl | hline
    · exact hstart
    · obtain ⟨f, hf, rfl⟩ := List.mem_map.mp hline
      exact (hfields f hf).line
  have hhead := headLines_lines hlines rest
  rw [List.flatMap_cons, List.flatMap_map] at hhead
  rw [parseHead, renderHead, hhead]
  simp only [mapM_parseField hfields, Option.map_some]

theorem parseHead_append {s rest : List UInt8} {head : Head} (h : parseHead s = some (head, rest))
    (t : List UInt8) : parseHead (s ++ t) = some (head, rest ++ t) := by
  unfold parseHead at h
  split at h
  · rename_i start lines rest' hlines
    obtain ⟨fields, hfields, heq⟩ := Option.map_eq_some_iff.mp h
    obtain ⟨rfl, rfl⟩ := Prod.mk.inj heq
    rw [parseHead, headLines_append hlines]
    simp only [hfields, Option.map_some]
  · exact absurd h (by simp)

/-- What arrives of a head when a connection is cut: it cannot be parsed before all of it is
there. -/
theorem parseHead_take {start : List UInt8} {fields : List Field}
    (hstart : start ≠ [] ∧ 0x0D ∉ start) (hfields : ∀ f ∈ fields, f.Valid) (body : List UInt8)
    (n : Nat) : parseHead ((renderHead start fields ++ body).take n) =
      if n < (renderHead start fields).length then none
      else some (⟨start, fields.map Field.strip⟩,
        body.take (n - (renderHead start fields).length)) := by
  by_cases hn : n < (renderHead start fields).length
  · rw [if_pos hn]
    cases hparsed : parseHead ((renderHead start fields ++ body).take n) with
    | none => rfl
    | some parsed =>
      have hall := parseHead_append hparsed ((renderHead start fields ++ body).drop n)
      rw [List.take_append_drop, parseHead_renderHead hstart hfields] at hall
      have hlength := congrArg List.length (Prod.mk.inj (Option.some.inj hall)).2
      rw [List.length_append, List.length_drop, List.length_append] at hlength
      omega
  · rw [if_neg hn, List.take_append, List.take_of_length_le (Nat.le_of_not_lt hn),
      parseHead_renderHead hstart hfields]

/-! ## The fields that frame a body -/

/-- The values of all fields of a name. -/
def fieldValues (fields : List Field) (name : Text) : List (List UInt8) :=
  (fields.filter fun f => SameText f.name name).map Field.value

/-- The members of a list value; empty ones do not count. -/
def listMembers (values : List (List UInt8)) : List (List UInt8) :=
  ((values.flatMap (·.splitOn 0x2C)).map stripOws).filter (· ≠ [])

/-- What the `Content-Length` fields of a message say. -/
inductive ContentLength where
  | absent
  | invalid
  | length (n : Nat)
  deriving DecidableEq, Repr

/-- `1*DIGIT`. -/
def parseNumber (s : List UInt8) : Option Nat := if s = [] then none else parseDigits 10 0 s

/-- All members are numbers, and the same. -/
def contentLength (fields : List Field) : ContentLength :=
  match fieldValues fields (utf8 "Content-Length") with
  | [] => .absent
  | values =>
    match (listMembers values).mapM parseNumber with
    | some (n :: ns) => if ∀ m ∈ ns, m = n then .length n else .invalid
    | _ => .invalid

/-- The last transfer coding is `chunked`. -/
def isFinallyChunked (fields : List Field) : Bool :=
  match (listMembers (fieldValues fields (utf8 "Transfer-Encoding"))).getLast? with
  | some coding => SameText coding (utf8 "chunked")
  | none => false

/-- How the end of a body is found. -/
inductive BodyRule where
  | length (n : Nat)
  | chunked
  /-- It ends with the connection. -/
  | untilClose
  /-- What follows is no HTTP any more. -/
  | tunnel
  | invalid
  deriving DecidableEq, Repr

/-- RFC 9112, 6.3, for requests. -/
def requestRule (fields : List Field) : BodyRule :=
  if fieldValues fields (utf8 "Transfer-Encoding") ≠ [] then
    if isFinallyChunked fields then .chunked else .invalid
  else
    match contentLength fields with
    | .absent => .length 0
    | .invalid => .invalid
    | .length n => .length n

/-- The response has no body, whatever its fields say. -/
def IsBodiless (method : Text) (status : Nat) : Prop :=
  method = utf8 "HEAD" ∨ status / 100 = 1 ∨ status = 204 ∨ status = 304

instance (method : Text) (status : Nat) : Decidable (IsBodiless method status) :=
  inferInstanceAs (Decidable (_ ∨ _))

/-- The response turns the connection into a tunnel. -/
def OpensTunnel (method : Text) (status : Nat) : Prop :=
  method = utf8 "CONNECT" ∧ status / 100 = 2

instance (method : Text) (status : Nat) : Decidable (OpensTunnel method status) :=
  inferInstanceAs (Decidable (_ ∧ _))

/-- RFC 9112, 6.3, for responses to a request with the given method. -/
def responseRule (method : Text) (status : Nat) (fields : List Field) : BodyRule :=
  if IsBodiless method status then .length 0
  else if OpensTunnel method status then .tunnel
  else if fieldValues fields (utf8 "Transfer-Encoding") ≠ [] then
    if isFinallyChunked fields then .chunked else .untilClose
  else
    match contentLength fields with
    | .absent => .untilClose
    | .invalid => .invalid
    | .length n => .length n

/-- The body that `s` starts with, and what stands behind it, if the bytes
themselves say where it ends. -/
def takeBody (rule : BodyRule) (s : List UInt8) : Option (List UInt8 × List UInt8) :=
  match rule with
  | .length n => if n ≤ s.length then some (s.take n, s.drop n) else none
  | .chunked => decodeChunked s
  | _ => none

theorem takeBody_append {rule : BodyRule} {s body rest : List UInt8}
    (h : takeBody rule s = some (body, rest)) (t : List UInt8) :
    takeBody rule (s ++ t) = some (body, rest ++ t) := by
  cases rule with
  | length n =>
    by_cases hn : n ≤ s.length
    · rw [takeBody, if_pos hn] at h
      obtain ⟨rfl, rfl⟩ := Prod.mk.inj (Option.some.inj h)
      rw [takeBody, if_pos (by rw [List.length_append]; omega), List.take_append_of_le_length hn,
        List.drop_append_of_le_length hn]
    · rw [takeBody, if_neg hn] at h
      exact absurd h (by simp)
  | chunked => exact decodeChunked_append h t
  | untilClose => exact absurd h (by simp [takeBody])
  | tunnel => exact absurd h (by simp [takeBody])
  | invalid => exact absurd h (by simp [takeBody])

/-- The body that is all of `s`. -/
theorem takeBody_length_eq_some_iff {n : Nat} {s body : List UInt8} :
    takeBody (.length n) s = some (body, []) ↔ body = s ∧ n = s.length := by
  rw [takeBody]
  by_cases hn : n ≤ s.length
  · rw [if_pos hn, Option.some.injEq, Prod.mk.injEq, List.drop_eq_nil_iff]
    constructor
    · rintro ⟨rfl, hle⟩
      exact ⟨List.take_of_length_le hle, by omega⟩
    · rintro ⟨rfl, rfl⟩
      exact ⟨List.take_length, le_refl _⟩
  · rw [if_neg hn]
    constructor
    · intro h
      exact absurd h (by simp)
    · rintro ⟨-, rfl⟩
      exact absurd (le_refl _) hn

/-! ## Requests -/

/-- A request. -/
structure Request where
  method : Text
  target : Text
  fields : List Field
  body : List UInt8
  deriving DecidableEq, Repr

/-- The bytes of a request target. -/
def isTargetByte (b : UInt8) : Bool := 0x20 < b && b ≠ 0x7F

/-- The method and the target of a request line. -/
def parseRequestLine (line : List UInt8) : Option (Text × Text) :=
  match line.splitOn 0x20 with
  | [method, target, version] =>
    if IsToken method ∧ target ≠ [] ∧ target.all isTargetByte = true ∧
        version = utf8 "HTTP/1.1" then
      some (method, target)
    else none
  | _ => none

/-- The request that `s` starts with, and what stands behind it. -/
def parseRequest (s : List UInt8) : Option (Request × List UInt8) :=
  match parseHead s with
  | none => none
  | some (head, s) =>
    match parseRequestLine head.start with
    | none => none
    | some (method, target) =>
      (takeBody (requestRule head.fields) s).map fun r =>
        (⟨method, target, head.fields, r.1⟩, r.2)

/-- `s` is one request with the given body, and nothing else. -/
def IsRequest (s body : List UInt8) : Prop := ∃ r, parseRequest s = some (r, []) ∧ r.body = body

instance (s body : List UInt8) : Decidable (IsRequest s body) :=
  decidable_of_iff ((parseRequest s).map (fun r => (r.1.body, r.2)) = some (body, []))
    (by simp [IsRequest, and_assoc, and_comm])

theorem parseRequestLine_line {method target : Text} (hmethod : IsToken method)
    (hne : target ≠ []) (htarget : ∀ b ∈ target, isTargetByte b = true) :
    parseRequestLine (method ++ utf8 " " ++ target ++ utf8 " HTTP/1.1") =
      some (method, target) := by
  have hsplit : (method ++ utf8 " " ++ target ++ utf8 " HTTP/1.1").splitOn 0x20 =
      [method, target, utf8 "HTTP/1.1"] := by
    have hparts : ∀ part ∈ [method, target, utf8 "HTTP/1.1"], 0x20 ∉ part := by
      intro part hpart
      simp only [List.mem_cons, List.not_mem_nil, or_false] at hpart
      rcases hpart with rfl | rfl | rfl
      · exact hmethod.not_mem isTokenByte_blank
      · intro hmem
        exact absurd (htarget _ hmem) (by decide)
      · decide +kernel
    have hjoin := List.splitOn_intercalate (0x20 : UInt8) hparts (by simp)
    have hbytes : method ++ utf8 " " ++ target ++ utf8 " HTTP/1.1" =
        [0x20].intercalate [method, target, utf8 "HTTP/1.1"] := by
      have hblank : utf8 " " = [0x20] := by decide +kernel
      have hversion : utf8 " HTTP/1.1" = 0x20 :: utf8 "HTTP/1.1" := by decide +kernel
      simp [hblank, hversion, List.intercalate]
    rw [hbytes, hjoin]
  rw [parseRequestLine, hsplit]
  simp only
  rw [if_pos ⟨hmethod, hne, List.all_eq_true.mpr htarget, trivial⟩]

/-- A request line is a line. -/
theorem requestLine_line {method target : Text} (hmethod : IsToken method)
    (htarget : ∀ b ∈ target, isTargetByte b = true) :
    method ++ utf8 " " ++ target ++ utf8 " HTTP/1.1" ≠ [] ∧
      0x0D ∉ method ++ utf8 " " ++ target ++ utf8 " HTTP/1.1" := by
  refine ⟨by simp [hmethod.1], ?_⟩
  simp only [List.mem_append]
  rintro (((hmem | hmem) | hmem) | hmem)
  · exact hmethod.not_mem isTokenByte_cr hmem
  · exact absurd hmem (by decide +kernel)
  · exact absurd (htarget _ hmem) (by decide)
  · exact absurd hmem (by decide +kernel)

/-- What the content length says about a body: none stands for 0. -/
def ContentLength.Announces (c : ContentLength) (n : Nat) : Prop :=
  c = .length n ∨ c = .absent ∧ n = 0

instance (c : ContentLength) (n : Nat) : Decidable (c.Announces n) :=
  inferInstanceAs (Decidable (_ ∨ _))

/-- A request without transfer codings is one request with the bytes behind its
head as body exactly if their number is announced. -/
theorem isRequest_iff_announces {method target : Text} {fields : List Field} {body : List UInt8}
    (hmethod : IsToken method) (hne : target ≠ []) (htarget : ∀ b ∈ target, isTargetByte b = true)
    (hfields : ∀ f ∈ fields, f.Valid)
    (hcoding : fieldValues (fields.map Field.strip) (utf8 "Transfer-Encoding") = []) :
    IsRequest (renderHead (method ++ utf8 " " ++ target ++ utf8 " HTTP/1.1") fields ++ body)
        body ↔
      (contentLength (fields.map Field.strip)).Announces body.length := by
  have hparse : parseRequest
      (renderHead (method ++ utf8 " " ++ target ++ utf8 " HTTP/1.1") fields ++ body) =
      (takeBody (requestRule (fields.map Field.strip)) body).map fun r =>
        (⟨method, target, fields.map Field.strip, r.1⟩, r.2) := by
    rw [parseRequest, parseHead_renderHead (requestLine_line hmethod htarget) hfields]
    simp only [parseRequestLine_line hmethod hne htarget]
  have hbody : IsRequest
      (renderHead (method ++ utf8 " " ++ target ++ utf8 " HTTP/1.1") fields ++ body) body ↔
      takeBody (requestRule (fields.map Field.strip)) body = some (body, []) := by
    rw [IsRequest, hparse]
    constructor
    · rintro ⟨r, hr, hrbody⟩
      obtain ⟨⟨b, rest⟩, hb, heq⟩ := Option.map_eq_some_iff.mp hr
      obtain ⟨rfl, rfl⟩ := Prod.mk.inj heq
      obtain rfl : b = body := hrbody
      exact hb
    · intro h
      exact ⟨_, by rw [h]; rfl, rfl⟩
  rw [hbody, requestRule, if_neg (not_not.mpr hcoding)]
  cases contentLength (fields.map Field.strip) with
  | absent =>
    simp only [takeBody_length_eq_some_iff, ContentLength.Announces, reduceCtorEq, false_or,
      true_and]
    exact eq_comm
  | invalid => simp [takeBody, ContentLength.Announces]
  | length n =>
    simp [takeBody_length_eq_some_iff, ContentLength.Announces]

/-! ## Responses -/

/-- A response. -/
structure Response where
  status : Nat
  fields : List Field
  body : List UInt8
  deriving DecidableEq, Repr

/-- The status code of a status line. -/
def parseStatusLine (line : List UInt8) : Option Nat :=
  if (utf8 "HTTP/1.1 ").isPrefixOf line then
    match line.drop 9 with
    | a :: b :: c :: d :: _ => if d = 0x20 then parseDigits 10 0 [a, b, c] else none
    | _ => none
  else none

/-- The final response to a request with the given method that `s` starts with,
and what stands behind it. -/
def parseResponse (method : Text) (s : List UInt8) : Option (Response × List UInt8) :=
  match parseHead s with
  | none => none
  | some (head, s) =>
    match parseStatusLine head.start with
    | none => none
    | some status =>
      if status / 100 = 1 then none
      else
        (takeBody (responseRule method status head.fields) s).map fun r =>
          (⟨status, head.fields, r.1⟩, r.2)

/-- One response to each request, in order, and what stands behind them. -/
def parseResponses : List Text → List UInt8 → Option (List Response × List UInt8)
  | [], s => some ([], s)
  | method :: methods, s =>
    match parseResponse method s with
    | none => none
    | some (r, s) => (parseResponses methods s).map fun rs => (r :: rs.1, rs.2)

/-- `s` is one response to a request with the given method, and nothing else. -/
def IsResponse (method : Text) (s : List UInt8) : Prop :=
  ∃ r, parseResponse method s = some (r, [])

/-- `s` is one response to each of the requests, in order, and nothing else. -/
def InSync (methods : List Text) (s : List UInt8) : Prop :=
  ∃ rs, parseResponses methods s = some (rs, [])

instance (methods : List Text) (s : List UInt8) : Decidable (InSync methods s) :=
  decidable_of_iff ((parseResponses methods s).map Prod.snd = some []) (by simp [InSync])

theorem parseResponse_append {method : Text} {s rest : List UInt8} {r : Response}
    (h : parseResponse method s = some (r, rest)) (t : List UInt8) :
    parseResponse method (s ++ t) = some (r, rest ++ t) := by
  unfold parseResponse at h
  split at h
  · exact absurd h (by simp)
  · rename_i head s' hhead
    split at h
    · exact absurd h (by simp)
    · rename_i status hstatus
      by_cases hinterim : status / 100 = 1
      · rw [if_pos hinterim] at h
        exact absurd h (by simp)
      · rw [if_neg hinterim] at h
        obtain ⟨⟨b, r'⟩, hb, heq⟩ := Option.map_eq_some_iff.mp h
        obtain ⟨rfl, rfl⟩ := Prod.mk.inj heq
        rw [parseResponse, parseHead_append hhead]
        simp only [hstatus, if_neg hinterim, takeBody_append hb, Option.map_some]

/-- The responses to more requests stand behind those to the first. -/
theorem parseResponses_concat {methods : List Text} {method : Text} {s rest : List UInt8}
    {rs : List Response} (h : parseResponses methods s = some (rs, [])) :
    parseResponses (methods ++ [method]) (s ++ rest) =
      (parseResponse method rest).map fun r => (rs ++ [r.1], r.2) := by
  induction methods generalizing s rs with
  | nil =>
    obtain ⟨rfl, rfl⟩ := Prod.mk.inj (Option.some.inj h)
    show parseResponses [method] rest = _
    rw [parseResponses]
    cases parseResponse method rest with
    | none => rfl
    | some r => rfl
  | cons m methods ih =>
    rw [parseResponses] at h
    cases hm : parseResponse m s with
    | none =>
      rw [hm] at h
      exact absurd h (by simp)
    | some r =>
      obtain ⟨r, s'⟩ := r
      rw [hm] at h
      obtain ⟨⟨rs', r'⟩, hrs, heq⟩ := Option.map_eq_some_iff.mp h
      obtain ⟨rfl, rfl⟩ := Prod.mk.inj heq
      rw [List.cons_append, parseResponses, parseResponse_append hm]
      simp only [ih hrs, Option.map_map]
      rfl

/-- **Staying in sync.**  Bytes that are one response to each request stay so
when what is added is one response to the next request, and only then. -/
theorem inSync_append_iff {methods : List Text} {method : Text} {s t : List UInt8}
    (h : InSync methods s) : InSync (methods ++ [method]) (s ++ t) ↔ IsResponse method t := by
  obtain ⟨rs, hrs⟩ := h
  rw [InSync, parseResponses_concat hrs]
  constructor
  · rintro ⟨rs', hrs'⟩
    obtain ⟨⟨r, rest⟩, hr, heq⟩ := Option.map_eq_some_iff.mp hrs'
    obtain ⟨-, rfl⟩ := Prod.mk.inj heq
    exact ⟨r, hr⟩
  · rintro ⟨r, hr⟩
    exact ⟨rs ++ [r], by rw [hr]; rfl⟩

/-! ## Written responses -/

/-- A field that has nothing to do with the framing. -/
structure Field.Plain (f : Field) : Prop where
  valid : f.Valid
  not_length : ¬ SameText f.name (utf8 "Content-Length")
  not_coding : ¬ SameText f.name (utf8 "Transfer-Encoding")

/-- The name of a field that does not frame the body. -/
def isPlainName (name : Text) : Bool :=
  IsToken name && !(SameText name (utf8 "Content-Length") : Bool) &&
    !(SameText name (utf8 "Transfer-Encoding") : Bool)

theorem Field.plain {name : Text} {value : List UInt8} (hname : isPlainName name = true)
    (hvalue : IsFieldText value) : Field.Plain ⟨name, value⟩ := by
  simp only [isPlainName, Bool.and_eq_true, Bool.not_eq_true', decide_eq_true_eq,
    decide_eq_false_iff_not] at hname
  exact ⟨⟨hname.1.1, hvalue⟩, hname.1.2, hname.2⟩

theorem isPlainName_of_all {name : Text} (hne : name ≠ []) (hbytes : name.all isTokenByte = true)
    (hlength : ¬ SameText name (utf8 "Content-Length"))
    (hcoding : ¬ SameText name (utf8 "Transfer-Encoding")) : isPlainName name = true := by
  simp [isPlainName, isToken_of_all hne hbytes, hlength, hcoding]

/-- The status line of a final response. -/
def IsStatusLine (line : List UInt8) (status : Nat) : Prop :=
  0x0D ∉ line ∧ parseStatusLine line = some status ∧ status / 100 ≠ 1

instance (line : List UInt8) (status : Nat) : Decidable (IsStatusLine line status) :=
  inferInstanceAs (Decidable (_ ∧ _))

theorem IsStatusLine.ne_nil {line : List UInt8} {status : Nat} (h : IsStatusLine line status) :
    line ≠ [] := by
  rintro rfl
  have hnone : parseStatusLine [] = none := by decide +kernel
  rw [IsStatusLine, hnone] at h
  exact absurd h.2.1 (by simp)

@[simp] theorem fieldValues_append (fields fields' : List Field) (name : Text) :
    fieldValues (fields ++ fields') name = fieldValues fields name ++ fieldValues fields' name := by
  simp [fieldValues]

theorem fieldValues_strip_cons (f : Field) (fields : List Field) (name : Text) :
    fieldValues ((f :: fields).map Field.strip) name =
      if SameText f.name name then stripOws f.value :: fieldValues (fields.map Field.strip) name
      else fieldValues (fields.map Field.strip) name := by
  by_cases h : SameText f.name name
  · simp [fieldValues, h, Field.strip]
  · simp [fieldValues, h]

theorem fieldValues_of_plain {fields : List Field} (h : ∀ f ∈ fields, f.Plain) :
    fieldValues (fields.map Field.strip) (utf8 "Content-Length") = [] ∧
      fieldValues (fields.map Field.strip) (utf8 "Transfer-Encoding") = [] := by
  induction fields with
  | nil => exact ⟨rfl, rfl⟩
  | cons f fields ih =>
    obtain ⟨hlength, hcoding⟩ := ih fun x hx => h x (List.mem_cons_of_mem _ hx)
    have hf := h f (by simp)
    rw [fieldValues_strip_cons, if_neg hf.not_length, fieldValues_strip_cons,
      if_neg hf.not_coding]
    exact ⟨hlength, hcoding⟩

theorem stripOws_of_visible {v : List UInt8} (h : ∀ b ∈ v, IsVisible b) : stripOws v = v := by
  have hows : ∀ b ∈ v, ¬ isOws b = true := by
    intro b hb
    have hnot : ∀ b, isOws b = true → ¬ IsVisible b := by
      intro b hb
      simp only [isOws, Bool.or_eq_true, decide_eq_true_eq] at hb
      rcases hb with rfl | rfl
      · decide
      · decide
    exact fun hc => hnot b hc (h b hb)
  have hdrop : v.dropWhile isOws = v := by
    rw [List.dropWhile_eq_self_iff]
    intro hpos
    exact hows _ (List.getElem_mem _)
  rw [stripOws, hdrop, List.rdropWhile_eq_self_iff]
  intro hne
  exact hows _ (List.getLast_mem hne)

theorem isOws_of_visible {b : UInt8} (h : IsVisible b) : isOws b = false := by
  rw [← Bool.not_eq_true, isOws, Bool.or_eq_true, decide_eq_true_eq, decide_eq_true_eq]
  rintro (rfl | rfl)
  · exact absurd h (by decide)
  · exact absurd h (by decide)

/-- A value that begins and ends with characters that are no blanks. -/
theorem stripOws_of_ends {b : UInt8} {s t : List UInt8} (hb : IsVisible b)
    (ht : ∀ x ∈ t, IsVisible x) (hne : t ≠ []) : stripOws (b :: s ++ t) = b :: s ++ t := by
  have hdrop : (b :: s ++ t).dropWhile isOws = b :: s ++ t := by
    rw [List.cons_append, List.dropWhile_cons_of_neg (by simp [isOws_of_visible hb])]
  rw [stripOws, hdrop, List.rdropWhile_eq_self_iff]
  intro hall
  rw [List.getLast_append_of_ne_nil hall hne]
  simp [isOws_of_visible (ht _ (List.getLast_mem hne))]

/-- A value without blanks and commas is a member of its list. -/
theorem mem_listMembers {values : List (List UInt8)} {v : List UInt8} (hv : v ∈ values)
    (hne : v ≠ []) (hvisible : ∀ b ∈ v, IsVisible b) (hcomma : 0x2C ∉ v) :
    v ∈ listMembers values := by
  have hmem : v ∈ values.flatMap (·.splitOn 0x2C) :=
    List.mem_flatMap.mpr ⟨v, hv, by simp [List.splitOn_eq_singleton hcomma]⟩
  refine List.mem_filter.mpr ⟨?_, by simpa using hne⟩
  exact List.mem_map.mpr ⟨v, hmem, stripOws_of_visible hvisible⟩

/-- What a list of numbers is made of. -/
theorem forall_of_mapM_parseNumber {members : List (List UInt8)} {ns : List Nat} {P : Nat → Prop}
    (h : members.mapM parseNumber = some ns) (hns : ∀ n ∈ ns, P n) :
    ∀ x ∈ members, ∃ n, parseNumber x = some n ∧ P n := by
  induction members generalizing ns with
  | nil => simp
  | cons x members ih =>
    rw [List.mapM_cons] at h
    cases hx : parseNumber x with
    | none =>
      rw [hx] at h
      exact absurd h (by simp)
    | some n =>
      cases hrest : members.mapM parseNumber with
      | none =>
        rw [hx, hrest] at h
        exact absurd h (by simp)
      | some ns' =>
        rw [hx, hrest] at h
        obtain rfl : n :: ns' = ns := Option.some.inj h
        intro y hy
        rcases List.mem_cons.mp hy with rfl | hy
        · exact ⟨n, hx, hns n (by simp)⟩
        · exact ih hrest (fun m hm => hns m (List.mem_cons_of_mem _ hm)) y hy

/-- All members of a valid `Content-Length` are the length. -/
theorem parseNumber_of_contentLength {fields : List Field} {n : Nat}
    (h : contentLength fields = .length n) :
    ∀ x ∈ listMembers (fieldValues fields (utf8 "Content-Length")), parseNumber x = some n := by
  unfold contentLength at h
  split at h
  · exact absurd h (by simp)
  · rename_i values hvalues
    split at h
    · rename_i m ns hmembers
      split at h
      · rename_i hsame
        obtain rfl := ContentLength.length.inj h
        intro x hx
        obtain ⟨k, hk, rfl⟩ := forall_of_mapM_parseNumber (P := (· = m)) hmembers
          (by simpa using hsame) x hx
        exact hk
      · exact absurd h (by simp)
    · exact absurd h (by simp)

/-- The lengths of a message with one decimal `Content-Length`. -/
theorem contentLength_decimal {fields : List Field} {n : Nat}
    (h : fieldValues fields (utf8 "Content-Length") = [decimal n]) :
    contentLength fields = .length n := by
  have hvisible := visible_decimal n
  have hne : decimal n ≠ [] := formatRadix_ne_nil (by decide)
  have hcomma : 0x2C ∉ decimal n := by
    obtain ⟨ds, hds, -, hlt, -⟩ := formatRadix_eq_map (n := n) (show 2 ≤ 10 by decide)
    rw [decimal, hds]
    intro hmem
    obtain ⟨d, hd, heq⟩ := List.mem_map.mp hmem
    have hall : ∀ d : Fin 10, digitChar d ≠ 0x2C := by decide
    exact hall ⟨d, hlt d hd⟩ heq
  have hmembers : listMembers [decimal n] = [decimal n] := by
    simp [listMembers, List.splitOn_eq_singleton hcomma, stripOws_of_visible hvisible, hne]
  have hnumber : parseNumber (decimal n) = some n := by
    rw [parseNumber, if_neg hne]
    exact parseDigits_formatRadix (by decide) (by decide) n
  rw [contentLength, h]
  simp [hmembers, hnumber]

section Written

variable {method : Text} {start : List UInt8} {status : Nat} {before after : List Field}

/-- A written response is one response exactly if the rule for its body takes all
that stands behind its head. -/
theorem isResponse_renderHead_iff {fields : List Field} (hstart : IsStatusLine start status)
    (hfields : ∀ f ∈ fields, f.Valid) (body : List UInt8) :
    IsResponse method (renderHead start fields ++ body) ↔
      ∃ b, takeBody (responseRule method status (fields.map Field.strip)) body = some (b, []) := by
  have hne := hstart.ne_nil
  obtain ⟨hcr, hstatus, hfinal⟩ := hstart
  rw [IsResponse, parseResponse, parseHead_renderHead ⟨hne, hcr⟩ hfields]
  simp only [hstatus, if_neg hfinal]
  constructor
  · rintro ⟨r, hr⟩
    obtain ⟨⟨b, rest⟩, hb, heq⟩ := Option.map_eq_some_iff.mp hr
    obtain ⟨-, rfl⟩ := Prod.mk.inj heq
    exact ⟨b, hb⟩
  · rintro ⟨b, hb⟩
    exact ⟨_, by rw [hb]; rfl⟩

/-- A response with plain fields before and after the one that frames its body,
when the rule for all other responses is known. -/
theorem isResponse_framed_iff {f : Field} {rule : BodyRule} (hstart : IsStatusLine start status)
    (hf : f.Valid) (hbefore : ∀ f ∈ before, f.Plain) (hafter : ∀ f ∈ after, f.Plain)
    (hrule : ∀ {m s}, ¬ IsBodiless m s → ¬ OpensTunnel m s →
      responseRule m s ((before ++ f :: after).map Field.strip) = rule) (body : List UInt8) :
    IsResponse method (renderHead start (before ++ f :: after) ++ body) ↔
      if IsBodiless method status then body = []
      else ¬ OpensTunnel method status ∧ ∃ b, takeBody rule body = some (b, []) := by
  have hvalid : ∀ x ∈ before ++ f :: after, x.Valid := by
    intro x hx
    rcases List.mem_append.mp hx with hx | hx
    · exact (hbefore x hx).valid
    · rcases List.mem_cons.mp hx with rfl | hx
      · exact hf
      · exact (hafter x hx).valid
  rw [isResponse_renderHead_iff hstart hvalid]
  by_cases hbodiless : IsBodiless method status
  · rw [if_pos hbodiless, responseRule, if_pos hbodiless]
    simp only [takeBody_length_eq_some_iff, exists_eq_left]
    exact ⟨fun h => List.length_eq_zero_iff.mp h.symm, fun h => by rw [h]; rfl⟩
  · rw [if_neg hbodiless]
    by_cases htunnel : OpensTunnel method status
    · rw [responseRule, if_neg hbodiless, if_pos htunnel]
      simp [takeBody, htunnel]
    · rw [hrule hbodiless htunnel]
      simp [htunnel]

/-- A response with a `Content-Length`. -/
theorem isResponse_length_iff (hstart : IsStatusLine start status)
    (hbefore : ∀ f ∈ before, f.Plain) (hafter : ∀ f ∈ after, f.Plain) (n : Nat)
    (body : List UInt8) :
    IsResponse method
        (renderHead start (before ++ ⟨utf8 "Content-Length", decimal n⟩ :: after) ++ body) ↔
      if IsBodiless method status then body = []
      else ¬ OpensTunnel method status ∧ n = body.length := by
  have hname : IsToken (utf8 "Content-Length") :=
    isToken_of_all (by decide +kernel) (by decide +kernel)
  have hother : ¬ SameText (utf8 "Content-Length") (utf8 "Transfer-Encoding") := by decide +kernel
  obtain ⟨hlength, hcoding⟩ := fieldValues_of_plain hbefore
  obtain ⟨hlength', hcoding'⟩ := fieldValues_of_plain hafter
  have hrule : ∀ {m s}, ¬ IsBodiless m s → ¬ OpensTunnel m s →
      responseRule m s
        ((before ++ ⟨utf8 "Content-Length", decimal n⟩ :: after).map Field.strip) = .length n := by
    intro m s hbodiless htunnel
    have hvalues : fieldValues
        ((before ++ ⟨utf8 "Content-Length", decimal n⟩ :: after).map Field.strip)
        (utf8 "Content-Length") = [decimal n] := by
      rw [List.map_append, fieldValues_append, hlength, fieldValues_strip_cons,
        if_pos (SameText.refl _), hlength', stripOws_of_visible (visible_decimal n)]
      rfl
    have hnone : fieldValues
        ((before ++ ⟨utf8 "Content-Length", decimal n⟩ :: after).map Field.strip)
        (utf8 "Transfer-Encoding") = [] := by
      rw [List.map_append, fieldValues_append, hcoding, fieldValues_strip_cons, if_neg hother,
        hcoding']
      rfl
    rw [responseRule, if_neg hbodiless, if_neg htunnel, hnone, contentLength_decimal hvalues]
    simp
  rw [isResponse_framed_iff hstart ⟨hname, isFieldText_decimal n⟩ hbefore hafter hrule]
  simp [takeBody_length_eq_some_iff]

/-- A response in chunked coding. -/
theorem isResponse_chunked_iff (hstart : IsStatusLine start status)
    (hbefore : ∀ f ∈ before, f.Plain) (hafter : ∀ f ∈ after, f.Plain) (body : List UInt8) :
    IsResponse method
        (renderHead start (before ++ ⟨utf8 "Transfer-Encoding", utf8 "chunked"⟩ :: after) ++
          body) ↔
      if IsBodiless method status then body = []
      else ¬ OpensTunnel method status ∧ ∃ b, decodeChunked body = some (b, []) := by
  have hvalid : Field.Valid ⟨utf8 "Transfer-Encoding", utf8 "chunked"⟩ :=
    ⟨isToken_of_all (by decide +kernel) (by decide +kernel), isFieldText_of_all (by decide +kernel)⟩
  obtain ⟨-, hcoding⟩ := fieldValues_of_plain hbefore
  obtain ⟨-, hcoding'⟩ := fieldValues_of_plain hafter
  have hrule : ∀ {m s}, ¬ IsBodiless m s → ¬ OpensTunnel m s →
      responseRule m s
        ((before ++ ⟨utf8 "Transfer-Encoding", utf8 "chunked"⟩ :: after).map Field.strip) =
        .chunked := by
    intro m s hbodiless htunnel
    have hvalues : fieldValues
        ((before ++ ⟨utf8 "Transfer-Encoding", utf8 "chunked"⟩ :: after).map Field.strip)
        (utf8 "Transfer-Encoding") = [utf8 "chunked"] := by
      have hstrip : stripOws (utf8 "chunked") = utf8 "chunked" := by decide +kernel
      rw [List.map_append, fieldValues_append, hcoding, fieldValues_strip_cons,
        if_pos (SameText.refl _), hcoding', hstrip]
      rfl
    have hchunked : isFinallyChunked
        ((before ++ ⟨utf8 "Transfer-Encoding", utf8 "chunked"⟩ :: after).map Field.strip) =
        true := by
      rw [isFinallyChunked, hvalues]
      decide +kernel
    rw [responseRule, if_neg hbodiless, if_neg htunnel, hvalues, hchunked]
    simp
  exact isResponse_framed_iff hstart hvalid hbefore hafter hrule body

/-- A response that nothing frames. -/
theorem isResponse_unframed_iff {fields : List Field} (hstart : IsStatusLine start status)
    (hfields : ∀ f ∈ fields, f.Plain) (body : List UInt8) :
    IsResponse method (renderHead start fields ++ body) ↔
      IsBodiless method status ∧ body = [] := by
  obtain ⟨hlength, hcoding⟩ := fieldValues_of_plain hfields
  rw [isResponse_renderHead_iff hstart fun f hf => (hfields f hf).valid, responseRule, hcoding,
    contentLength, hlength]
  by_cases hbodiless : IsBodiless method status
  · rw [if_pos hbodiless]
    simp only [takeBody_length_eq_some_iff, exists_eq_left, hbodiless, true_and]
    exact ⟨fun h => List.length_eq_zero_iff.mp h.symm, fun h => by rw [h]; rfl⟩
  · rw [if_neg hbodiless]
    by_cases htunnel : OpensTunnel method status
    · simp [htunnel, hbodiless, takeBody]
    · simp [htunnel, hbodiless, takeBody]

end Written

/-! ## The end of a connection -/

/-- The option `close` stands among the fields: RFC 9112, 9.6. -/
def closes (fields : List Field) : Bool :=
  (listMembers (fieldValues fields (utf8 "Connection"))).any fun option =>
    SameText option (utf8 "close")

/-- The connection is to be closed behind the response that `s` starts with, which has
fewer than `n` interim responses in front. -/
def promisesCloseWithin : Nat → List UInt8 → Bool
  | 0, _ => false
  | n + 1, s =>
    match parseHead s with
    | none => false
    | some (head, rest) =>
      closes head.fields ||
        match parseStatusLine head.start with
        | some status => decide (status / 100 = 1) && promisesCloseWithin n rest
        | none => false

/-- The connection is to be closed behind the response that `s` starts with. -/
def promisesClose (s : List UInt8) : Bool := promisesCloseWithin (s.length + 1) s

/-- Fields of other names say nothing about the connection. -/
theorem closes_append_of_ne {fields fields' : List Field}
    (h : ∀ f ∈ fields, ¬ SameText f.name (utf8 "Connection")) :
    closes (fields ++ fields') = closes fields' := by
  have hnone : fieldValues fields (utf8 "Connection") = [] := by
    rw [fieldValues, List.map_eq_nil_iff, List.filter_eq_nil_iff]
    intro f hf
    rw [decide_eq_true_eq]
    exact h f hf
  rw [closes, fieldValues_append, hnone, List.nil_append, ← closes]

theorem promisesClose_nil : promisesClose [] = false := by decide +kernel

/-- What a written response promises stands among its fields. -/
theorem promisesClose_renderHead {start : List UInt8} {status : Nat} {fields : List Field}
    (hstart : IsStatusLine start status) (hfields : ∀ f ∈ fields, f.Valid) (body : List UInt8) :
    promisesClose (renderHead start fields ++ body) = closes (fields.map Field.strip) := by
  have hne := hstart.ne_nil
  obtain ⟨hcr, hstatus, hfinal⟩ := hstart
  rw [promisesClose, promisesCloseWithin, parseHead_renderHead ⟨hne, hcr⟩ hfields]
  simp only [hstatus, decide_eq_false hfinal, Bool.false_and, Bool.or_false]

end PpcaNetwork.Http1
