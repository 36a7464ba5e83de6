import PpcaNetwork.Lib.Http1.Framing
import PpcaNetwork.Lib.Search

/-!
# Requests and their header fields

The request that `httparse` hands to the server, and the functions of
`minicaddy/src/http_proto.rs` that look at its header fields.

* `HttpRequest` — method, path and fields, with what the parser has checked.
* `getHeader` — the first field of a name, if its value is text.
* `wantsKeepAlive` and `checkAuth`.
* `copyHeaders` — the fields that a proxy passes on.
-/

namespace PpcaNetwork.Minicaddy

/-- The errors of `minicaddy/src/error.rs`. -/
inductive ProxyError where
  | io (e : Text)
  | httpInvalidRequest (reason : Text)
  deriving DecidableEq, Repr

/-! ## Requests -/

/-- `httparse::Header`; the value has no blanks around it. -/
abbrev Header := Http1.Field

/-- A request whose head `httparse` has accepted: the method and the field names
are tokens, the path has no blanks or control characters, and the field values
have none but tabs. -/
structure HttpRequest where
  method : Text
  path : Text
  headers : List Header
  method_token : Http1.IsToken method
  path_ne : path ≠ []
  path_visible : ∀ b ∈ path, Http1.isTargetByte b = true
  headers_valid : ∀ h ∈ headers, h.Valid

/-- What a parser of `httparse` says about a buffer. -/
inductive ParseStatus (α : Type) where
  /-- `Complete(size)`. -/
  | complete (size : Nat) (parsed : α)
  /-- `Partial`. -/
  | incomplete
  | error (e : Text)

/-! ## Looking at fields -/

/-- The value of the first field with a name, unless it is not UTF-8. -/
def getHeader (headers : List Header) (name : Text) : Option Text :=
  match headers.find? fun h => SameText h.name name with
  | some h => if isUtf8 h.value then some h.value else none
  | none => none

/-- A value that is text is found. -/
theorem getHeader_eq_some_iff {headers : List Header} {name v : Text} :
    getHeader headers name = some v ↔
      (headers.find? fun h => SameText h.name name).map (·.value) = some v ∧ isUtf8 v = true := by
  unfold getHeader
  cases headers.find? fun h => SameText h.name name with
  | none => simp
  | some h =>
    simp only [Option.ite_none_right_eq_some, Option.map_some, Option.some.injEq]
    constructor
    · rintro ⟨hutf8, rfl⟩
      exact ⟨rfl, hutf8⟩
    · rintro ⟨rfl, hutf8⟩
      exact ⟨hutf8, rfl⟩

/-- `wants_keep_alive`: unless `Connection` is `close`. -/
def wantsKeepAlive (headers : List Header) : Bool :=
  match getHeader headers (utf8 "Connection") with
  | some v => !(SameText v (utf8 "close") : Bool)
  | none => true

/-- `str::strip_prefix`. -/
def stripPrefix (p s : Text) : Option Text :=
  if p.isPrefixOf s then some (s.drop p.length) else none

/-- `strip_prefix` finds the prefix. -/
theorem stripPrefix_eq_some_iff {p s rest : Text} :
    stripPrefix p s = some rest ↔ s = p ++ rest := by
  rw [stripPrefix]
  constructor
  · intro h
    split at h
    · rename_i hprefix
      obtain ⟨t, rfl⟩ := List.isPrefixOf_iff_prefix.mp hprefix
      rw [List.drop_left, Option.some.injEq] at h
      rw [h]
    · cases h
  · rintro rfl
    rw [if_pos (List.isPrefixOf_iff_prefix.mpr (List.prefix_append p rest)), List.drop_left]

/-- `ct_eq`. -/
def ctEq (a b : List UInt8) : Bool :=
  if a.length ≠ b.length then false
  else (a.zip b).foldl (fun diff xy => diff ||| (xy.1 ^^^ xy.2)) 0 = 0

/-- `check_auth`, where `base64Decode` is the decoder of the `base64` crate. -/
def checkAuth (base64Decode : Text → Option (List UInt8)) (headers : List Header)
    (expected : Text) : Bool :=
  match (getHeader headers (utf8 "Authorization")).bind (stripPrefix (utf8 "Basic ")) with
  | none => false
  | some encoded =>
    match base64Decode encoded with
    | none => false
    | some decoded => ctEq decoded expected

/-! ## Passing fields on -/

/-- `HOP_BY_HOP`. -/
def hopByHop : List Text :=
  [utf8 "connection", utf8 "keep-alive", utf8 "transfer-encoding",
    utf8 "te", utf8 "trailer", utf8 "upgrade", utf8 "proxy-authenticate",
    utf8 "proxy-authorization"]

/-- `is_hop_by_hop`. -/
def isHopByHop (name : Text) : Bool := hopByHop.any fun h => SameText h name

/-- A value as it is passed on: empty if it is not UTF-8. -/
def copiedValue (value : List UInt8) : Text := if isUtf8 value then value else []

/-- The text that `copy_headers` appends. -/
def copyHeaders (headers : List Header) : Text :=
  headers.flatMap fun h =>
    if isHopByHop h.name then []
    else h.name ++ utf8 ": " ++ copiedValue h.value ++ crlf

end PpcaNetwork.Minicaddy
