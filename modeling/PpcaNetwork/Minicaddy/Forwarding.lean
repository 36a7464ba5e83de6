import PpcaNetwork.Minicaddy.Proxy

/-!
# What the upstream server is told

The request line and the header fields that `reverse_proxy` writes, as the upstream server reads
them.

* `parseHead_sent` — the head that is written.
* `withoutApi` — a path without a first segment `/api`.
* `target_rewritten_iff` — when that is the target that is written.
* `PassedOn` — a field that is passed on.
* `copy_headers_lines` — which fields are, and in which order.
-/

namespace PpcaNetwork.Minicaddy

open Http1

/-! ## The head -/

section

variable (parseResponse : List UInt8 → ParseStatus Unit) (req : HttpRequest) (body : List UInt8)
  (up : Stream) (clientIp : Ipv4Addr)

/-- The bytes that are written upstream for a request. -/
def sentFor : List UInt8 :=
  (reverseProxy parseResponse req.method req.path req.headers body (.connected up) clientIp).sent

/-- The head that the upstream server reads, and the body behind it. -/
theorem parseHead_sent : parseHead (sentFor parseResponse req body up clientIp) =
    some (⟨req.method ++ utf8 " " ++ upstreamPath req.path ++ utf8 " HTTP/1.1",
      (copiedHeaders req.headers ++ forwardedFields clientIp).map Field.strip⟩, body) := by
  have hvalid : ∀ f ∈ copiedHeaders req.headers ++ forwardedFields clientIp, f.Valid := by
    intro f hf
    rcases List.mem_append.mp hf with hf | hf
    · exact copiedHeaders_valid req.headers_valid f hf
    · exact forwardedFields_valid clientIp f hf
  show parseHead (upstreamRequest req.method req.path req.headers body clientIp) = _
  rw [upstreamRequest_eq]
  exact parseHead_renderHead
    (requestLine_line req.method_token (upstreamPath_target req.path_visible).2) hvalid body

/-- The target that the upstream server reads. -/
def requestTarget (s : List UInt8) : Option Text :=
  (parseHead s).bind fun r => (parseRequestLine r.1.start).map Prod.snd

theorem requestTarget_sent :
    requestTarget (sentFor parseResponse req body up clientIp) = some (upstreamPath req.path) := by
  obtain ⟨hne, htarget⟩ := upstreamPath_target req.path_visible
  rw [requestTarget, parseHead_sent, Option.bind_some,
    parseRequestLine_line req.method_token hne htarget]
  rfl

/-! ## The target -/

/-- A path without its first segment, if that is `/api`. -/
def withoutApi (path : Text) : Text :=
  match stripPrefix (utf8 "/api") path with
  | none => path
  | some [] => utf8 "/"
  | some (c :: rest) =>
    if c = 0x2F then c :: rest
    else if c = 0x3F then 0x2F :: c :: rest
    else path

/-- Behind a leading `/api` the path ends, or the next segment begins. -/
def ApiSegment (path : Text) : Prop :=
  ∀ c rest, stripPrefix (utf8 "/api") path = some (c :: rest) → c = 0x2F

theorem upstreamPath_eq_iff {path : Text} (hslash : path.head? = some 0x2F) :
    ((upstreamPath path).head? = some 0x2F ∧ upstreamPath path = withoutApi path) ↔
      ApiSegment path := by
  have hne : path ≠ [] := by
    rintro rfl
    cases hslash
  unfold upstreamPath withoutApi ApiSegment
  cases hstrip : stripPrefix (utf8 "/api") path with
  | none => simp [hne, hslash]
  | some rest =>
    cases rest with
    | nil =>
      have hroot : (utf8 "/").head? = some 0x2F := by decide +kernel
      simp [hroot]
    | cons c rest =>
      -- the code goes on with `c` whatever it is
      simp only [Option.getD_some, reduceCtorEq, ↓reduceIte, List.head?_cons, Option.some.injEq,
        List.cons.injEq, and_imp]
      constructor
      · rintro ⟨rfl, -⟩ c' rest' rfl -
        rfl
      · intro h
        obtain rfl := h c rest rfl rfl
        simp

/-- **When only the segment is removed.**  The target that the upstream server reads begins with
a slash, and is the path without a first segment `/api`, exactly if a leading `/api` is a whole
segment with no query behind it. -/
theorem target_rewritten_iff (hslash : req.path.head? = some 0x2F) :
    (∃ target, requestTarget (sentFor parseResponse req body up clientIp) = some target ∧
      target.head? = some 0x2F ∧ target = withoutApi req.path) ↔ ApiSegment req.path := by
  rw [requestTarget_sent, ← upstreamPath_eq_iff hslash]
  constructor
  · rintro ⟨target, ⟨⟩, h⟩
    exact h
  · exact fun h => ⟨_, rfl, h⟩

end

/-- A request for a path. -/
def demoApiRequest (path : Text) (path_ne : path ≠ [])
    (path_visible : ∀ b ∈ path, isTargetByte b = true) : HttpRequest where
  method := utf8 "DELETE"
  path := path
  headers := [⟨utf8 "Host", utf8 "api.localhost"⟩]
  method_token := by decide +kernel
  path_ne := path_ne
  path_visible := path_visible
  headers_valid := by
    simp only [List.mem_cons, List.not_mem_nil, or_false, forall_eq]
    exact ⟨by decide +kernel, by decide +kernel⟩

theorem demo_segment_removed :
    ∃ target, requestTarget (sentFor demoParseResponse
        (demoApiRequest (utf8 "/api/users?id=1") (by decide +kernel) (by decide +kernel)) []
        ⟨[], .waiting⟩ ⟨127, 0, 0, 1⟩) = some target ∧
      target.head? = some 0x2F ∧ target = withoutApi (utf8 "/api/users?id=1") :=
  (target_rewritten_iff demoParseResponse
    (demoApiRequest (utf8 "/api/users?id=1") (by decide +kernel) (by decide +kernel)) []
    ⟨[], .waiting⟩ ⟨127, 0, 0, 1⟩ (by decide +kernel)).mpr fun c rest h => by
      have hstrip : stripPrefix (utf8 "/api") (utf8 "/api/users?id=1") =
          some (0x2F :: utf8 "users?id=1") := by decide +kernel
      exact (List.cons.inj (Option.some.inj (h.symm.trans hstrip))).1

/-- `/apix` becomes `x`, and `/api?q` becomes `?q`. -/
theorem demo_segment_cut :
    requestTarget (sentFor demoParseResponse
        (demoApiRequest (utf8 "/apix") (by decide +kernel) (by decide +kernel)) []
        ⟨[], .waiting⟩ ⟨127, 0, 0, 1⟩) = some (utf8 "x") ∧
      withoutApi (utf8 "/apix") = utf8 "/apix" ∧
      requestTarget (sentFor demoParseResponse
        (demoApiRequest (utf8 "/api?q") (by decide +kernel) (by decide +kernel)) []
        ⟨[], .waiting⟩ ⟨127, 0, 0, 1⟩) = some (utf8 "?q") ∧
      withoutApi (utf8 "/api?q") = utf8 "/?q" := by
  refine ⟨?_, ?_, ?_, ?_⟩
  · decide +kernel
  · decide +kernel
  · decide +kernel
  · decide +kernel

/-! ## The fields -/

/-- The field `f'` that is written for the field `f`. -/
structure PassedOn (f f' : Field) : Prop where
  name : f'.name = f.name
  value : isUtf8 f.value = true → f'.value = f.value

/-- **Which fields are passed on.**  There is one line for each field whose name is not one of
the eight in `HOP_BY_HOP`, in their order. -/
theorem copy_headers_lines (headers : List Header) :
    ∃ fields, copyHeaders headers = fields.flatMap (fun f => f.line ++ crlf) ∧
      List.Forall₂ PassedOn (headers.filter fun h => !isHopByHop h.name) fields := by
  refine ⟨copiedHeaders headers, copyHeaders_eq headers, ?_⟩
  rw [copiedHeaders, List.forall₂_map_right_iff, List.forall₂_same]
  intro h _
  exact ⟨rfl, fun hutf8 => if_pos hutf8⟩

/-- The names that the `Connection` fields list. -/
def connectionOptions (headers : List Header) : List Text :=
  listMembers (fieldValues headers (utf8 "Connection"))

/-- The fields that are neither of a standard name nor listed by `Connection`. -/
def endToEnd (headers : List Header) : List Header :=
  headers.filter fun h =>
    !isHopByHop h.name && !(connectionOptions headers).any fun name => SameText name h.name

/-- A field that `Connection` lists, and a value that is not UTF-8. -/
def demoListed : List Header :=
  [⟨utf8 "Connection", utf8 "X-Trace"⟩, ⟨utf8 "X-Trace", utf8 "1"⟩, ⟨utf8 "X-Name", [0xE9]⟩]

/-- The first is passed on, and the second is emptied. -/
theorem demo_listed_passed_on :
    copyHeaders demoListed = utf8 "X-Trace: 1\r\nX-Name: \r\n" ∧
      endToEnd demoListed = [⟨utf8 "X-Name", [0xE9]⟩] ∧
      copyHeaders demoListed ≠ (endToEnd demoListed).flatMap fun f => f.line ++ crlf := by
  refine ⟨?_, ?_, ?_⟩
  · decide +kernel
  · decide +kernel
  · decide +kernel

end PpcaNetwork.Minicaddy
