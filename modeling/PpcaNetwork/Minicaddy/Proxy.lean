import PpcaNetwork.Lib.Net
import PpcaNetwork.Minicaddy.ReadBody

/-!
# The reverse proxy

`reverse_proxy` of `minicaddy/src/inbounds/http_proxy.rs`: what it sends to the
upstream server, and what it relays to the client.

* `upstreamRequest` — the bytes written upstream.
* `reverseProxy` — the handler.
* `proxied_framing_iff` — for which requests the bytes written upstream are one
  request with the body that was read.
-/

namespace PpcaNetwork.Minicaddy

open Http1

/-! ## The handler -/

/-- The server behind an address. -/
inductive Upstream where
  /-- It cannot be connected to. -/
  | refused (e : Text)
  /-- What it sends. -/
  | connected (s : Stream)

/-- `{}` of an address. -/
def ipText (ip : Ipv4Addr) : Text :=
  joinText (utf8 ".")
    [decimal ip.a.toNat, decimal ip.b.toNat, decimal ip.c.toNat, decimal ip.d.toNat]

/-- The path that `reverse_proxy` asks for. -/
def upstreamPath (path : Text) : Text :=
  let path := (stripPrefix (utf8 "/api") path).getD path
  if path = [] then utf8 "/" else path

/-- The bytes that `reverse_proxy` writes upstream. -/
def upstreamRequest (method path : Text) (headers : List Header) (body : List UInt8)
    (clientIp : Ipv4Addr) : List UInt8 :=
  method ++ utf8 " " ++ upstreamPath path ++ utf8 " HTTP/1.1" ++ crlf ++ copyHeaders headers ++
    (utf8 "X-Forwarded-For: " ++ ipText clientIp ++ crlf) ++
    (utf8 "X-Forwarded-Proto: http" ++ crlf) ++ crlf ++ body

/-- A response with a text for people to read. -/
def plainResponse (status : Text) (fields : List Field) (body : Text) : List UInt8 :=
  renderHead (utf8 "HTTP/1.1 " ++ status)
    (fields ++ [⟨utf8 "Content-Type", utf8 "text/plain"⟩,
      ⟨utf8 "Content-Length", decimal body.length⟩,
      ⟨utf8 "Connection", utf8 "close"⟩]) ++ body

/-- The bytes that `write_502` writes. -/
def write502 (reason : Text) : List UInt8 :=
  plainResponse (utf8 "502 Bad Gateway") [] (utf8 "502 Bad Gateway\nUpstream: " ++ reason)

/-- The response of an upstream server, whose head has to come in one read. -/
def relay (parseResponse : List UInt8 → ParseStatus Unit) (s : Stream) : Handled :=
  match s.reads, s.ending with
  | [], .waiting => ⟨[], .waiting⟩
  | [], .closed => ⟨write502 (utf8 "upstream closed connection"), .done⟩
  | [], .failed => ⟨[], .failed readError⟩
  | buf :: reads, ending =>
    match parseResponse buf.1 with
    | .incomplete => ⟨write502 (utf8 "incomplete response"), .done⟩
    | .error _ => ⟨write502 (utf8 "bad response"), .done⟩
    | .complete headerSize _ =>
      ⟨buf.1.take headerSize ++ buf.1.drop headerSize ++ packetBytes reads,
        match ending with
        | .waiting => .waiting
        | .closed => .done
        | .failed => .failed readError⟩

/-- What a handler that talks to an upstream server writes there and to the client. -/
structure Proxied extends Handled where
  sent : List UInt8

/-- `reverse_proxy`, when what it writes is taken. -/
def reverseProxy (parseResponse : List UInt8 → ParseStatus Unit) (method path : Text)
    (headers : List Header) (body : List UInt8) (upstream : Upstream) (clientIp : Ipv4Addr) :
    Proxied :=
  match upstream with
  | .refused e => ⟨⟨write502 e, .done⟩, []⟩
  | .connected s =>
    ⟨relay parseResponse s, upstreamRequest method path headers body clientIp⟩

/-! ## The request as the upstream server reads it -/

/-- The fields that `copy_headers` writes. -/
def copiedHeaders (headers : List Header) : List Field :=
  (headers.filter fun h => !isHopByHop h.name).map fun h => ⟨h.name, copiedValue h.value⟩

/-- The fields that are added. -/
def forwardedFields (clientIp : Ipv4Addr) : List Field :=
  [⟨utf8 "X-Forwarded-For", ipText clientIp⟩, ⟨utf8 "X-Forwarded-Proto", utf8 "http"⟩]

theorem copyHeaders_eq (headers : List Header) :
    copyHeaders headers = (copiedHeaders headers).flatMap fun f => f.line ++ crlf := by
  induction headers with
  | nil => rfl
  | cons h headers ih =>
    rw [copyHeaders, List.flatMap_cons, ← copyHeaders, ih, copiedHeaders, copiedHeaders]
    cases hhop : isHopByHop h.name with
    | true => simp [hhop]
    | false => simp [hhop, Field.line]

/-- What is written upstream is a head with the copied and the added fields, and
the body. -/
theorem upstreamRequest_eq (method path : Text) (headers : List Header) (body : List UInt8)
    (clientIp : Ipv4Addr) :
    upstreamRequest method path headers body clientIp =
      renderHead (method ++ utf8 " " ++ upstreamPath path ++ utf8 " HTTP/1.1")
        (copiedHeaders headers ++ forwardedFields clientIp) ++ body := by
  have hfor : utf8 "X-Forwarded-For: " = utf8 "X-Forwarded-For" ++ utf8 ": " := by decide +kernel
  have hproto : utf8 "X-Forwarded-Proto: http" =
      utf8 "X-Forwarded-Proto" ++ utf8 ": " ++ utf8 "http" := by decide +kernel
  rw [upstreamRequest, renderHead, copyHeaders_eq, List.flatMap_append, hfor, hproto]
  simp [forwardedFields, Field.line]

theorem copiedHeaders_valid {headers : List Header} (h : ∀ f ∈ headers, f.Valid) :
    ∀ f ∈ copiedHeaders headers, f.Valid := by
  intro f hf
  obtain ⟨x, hx, rfl⟩ := List.mem_map.mp hf
  have hvalid := h x (List.mem_of_mem_filter hx)
  refine ⟨hvalid.name, ?_⟩
  intro b hb
  by_cases hutf : isUtf8 x.value = true
  · simp only [copiedValue, if_pos hutf] at hb
    exact hvalid.value b hb
  · simp only [copiedValue, if_neg hutf, List.not_mem_nil] at hb

theorem ipText_visible (ip : Ipv4Addr) : ∀ b ∈ ipText ip, IsVisible b := by
  have hdot : ∀ b ∈ utf8 ".", IsVisible b := by decide +kernel
  intro b hb
  simp only [ipText, joinText, List.intercalate, List.intersperse, List.flatten_cons,
    List.flatten_nil, List.append_nil, List.mem_append] at hb
  rcases hb with hb | hb | hb | hb | hb | hb | hb
  · exact visible_decimal _ b hb
  · exact hdot b hb
  · exact visible_decimal _ b hb
  · exact hdot b hb
  · exact visible_decimal _ b hb
  · exact hdot b hb
  · exact visible_decimal _ b hb

theorem forwardedFields_valid (ip : Ipv4Addr) : ∀ f ∈ forwardedFields ip, f.Valid := by
  intro f hf
  simp only [forwardedFields, List.mem_cons, List.not_mem_nil, or_false] at hf
  rcases hf with rfl | rfl
  · have hname : IsToken (utf8 "X-Forwarded-For") :=
      isToken_of_all (by decide +kernel) (by decide +kernel)
    exact ⟨hname, fun b hb => isFieldByte_of_visible (ipText_visible ip b hb)⟩
  · exact ⟨isToken_of_all (by decide +kernel) (by decide +kernel),
      isFieldText_of_all (by decide +kernel)⟩

theorem upstreamPath_target {path : Text} (h : ∀ b ∈ path, isTargetByte b = true) :
    upstreamPath path ≠ [] ∧ ∀ b ∈ upstreamPath path, isTargetByte b = true := by
  have hstripped : ∀ b ∈ (stripPrefix (utf8 "/api") path).getD path, isTargetByte b = true := by
    intro b hb
    rw [stripPrefix] at hb
    split at hb
    · exact h b (List.mem_of_mem_drop hb)
    · exact h b hb
  unfold upstreamPath
  by_cases hempty : (stripPrefix (utf8 "/api") path).getD path = []
  · rw [if_pos hempty]
    exact ⟨by decide +kernel, by decide +kernel⟩
  · rw [if_neg hempty]
    exact ⟨hempty, hstripped⟩

/-- No transfer coding is passed on. -/
theorem copiedHeaders_coding (headers : List Header) (clientIp : Ipv4Addr) :
    fieldValues ((copiedHeaders headers ++ forwardedFields clientIp).map Field.strip)
      (utf8 "Transfer-Encoding") = [] := by
  rw [fieldValues, List.map_eq_nil_iff, List.filter_eq_nil_iff]
  intro f hf
  rw [decide_eq_true_eq]
  intro hname
  obtain ⟨x, hx, rfl⟩ := List.mem_map.mp hf
  rcases List.mem_append.mp hx with hx | hx
  · obtain ⟨h, hmem, rfl⟩ := List.mem_map.mp hx
    have hnot : isHopByHop h.name = false := by
      simpa using (List.mem_filter.mp hmem).2
    have hhop : isHopByHop h.name = true := by
      rw [isHopByHop, List.any_eq_true]
      refine ⟨utf8 "transfer-encoding", by decide +kernel, ?_⟩
      have hlower : SameText (utf8 "transfer-encoding") (utf8 "Transfer-Encoding") := by
        decide +kernel
      exact decide_eq_true (hlower.trans hname.symm)
    exact absurd (hhop.symm.trans hnot) (by simp)
  · simp only [forwardedFields, List.mem_cons, List.not_mem_nil, or_false] at hx
    rcases hx with rfl | rfl
    · exact absurd hname (by
        show ¬ SameText (utf8 "X-Forwarded-For") (utf8 "Transfer-Encoding")
        decide +kernel)
    · exact absurd hname (by
        show ¬ SameText (utf8 "X-Forwarded-Proto") (utf8 "Transfer-Encoding")
        decide +kernel)

/-- The content length is the one of the copied fields. -/
theorem contentLength_copiedHeaders (headers : List Header) (clientIp : Ipv4Addr) :
    contentLength ((copiedHeaders headers ++ forwardedFields clientIp).map Field.strip) =
      contentLength ((copiedHeaders headers).map Field.strip) := by
  have hnone : fieldValues ((forwardedFields clientIp).map Field.strip)
      (utf8 "Content-Length") = [] := by
    have hfor : ¬ SameText (utf8 "X-Forwarded-For") (utf8 "Content-Length") := by decide +kernel
    have hproto : ¬ SameText (utf8 "X-Forwarded-Proto") (utf8 "Content-Length") := by
      decide +kernel
    simp [fieldValues, forwardedFields, hfor, hproto]
  have hsame : fieldValues ((copiedHeaders headers ++ forwardedFields clientIp).map Field.strip)
      (utf8 "Content-Length") =
      fieldValues ((copiedHeaders headers).map Field.strip) (utf8 "Content-Length") := by
    rw [List.map_append, fieldValues, List.filter_append, List.map_append, ← fieldValues,
      ← fieldValues, hnone, List.append_nil]
  rw [contentLength, hsame, ← contentLength]

/-! ## Framing -/

/-- The `Content-Length` fields that are passed on announce the body that was
read: a chunked body by its decoded length, any other by the length that
`read_body` took. -/
def LengthForwarded (headers : List Header) (body : List UInt8) : Prop :=
  (contentLength ((copiedHeaders headers).map Field.strip)).Announces
    (if isChunked headers then body.length else bodyLength headers)

instance (headers : List Header) (body : List UInt8) : Decidable (LengthForwarded headers body) :=
  inferInstanceAs (Decidable (ContentLength.Announces _ _))

/-- **When the proxy keeps the framing.**  For every request whose body has been
read, in whatever reads it came, the bytes written upstream are one request with
that body and nothing behind it exactly if the fields passed on announce its
length. -/
theorem proxied_framing_iff (parseResponse : List UInt8 → ParseStatus Unit) (req : HttpRequest)
    (clientIp : Ipv4Addr) (up : Stream) {s rest : Stream} {buffered body leftover : List UInt8}
    (h : readBody s buffered req.headers = .ok (body, leftover) rest) :
    IsRequest (reverseProxy parseResponse req.method req.path req.headers body (.connected up)
        clientIp).sent body ↔ LengthForwarded req.headers body := by
  obtain ⟨hne, htarget⟩ := upstreamPath_target req.path_visible
  have hvalid : ∀ f ∈ copiedHeaders req.headers ++ forwardedFields clientIp, f.Valid := by
    intro f hf
    rcases List.mem_append.mp hf with hf | hf
    · exact copiedHeaders_valid req.headers_valid f hf
    · exact forwardedFields_valid clientIp f hf
  have hlength : (if isChunked req.headers then body.length else bodyLength req.headers) =
      body.length := by
    cases hchunked : isChunked req.headers with
    | true => rfl
    | false => exact (length_of_readBody hchunked h).symm
  show IsRequest (upstreamRequest req.method req.path req.headers body clientIp) body ↔ _
  rw [upstreamRequest_eq, isRequest_iff_announces req.method_token hne htarget hvalid
    (copiedHeaders_coding req.headers clientIp), contentLength_copiedHeaders, LengthForwarded,
    hlength]

/-- A parser of responses that is never asked. -/
def demoParseResponse : List UInt8 → ParseStatus Unit := fun _ => .incomplete

/-- A request with a body of announced length. -/
def demoUpload : HttpRequest where
  method := utf8 "POST"
  path := utf8 "/api/upload"
  headers := [⟨utf8 "Host", utf8 "api.localhost"⟩, ⟨utf8 "Content-Length", utf8 "5"⟩]
  method_token := by decide +kernel
  path_ne := by decide +kernel
  path_visible := by decide +kernel
  headers_valid := by
    simp only [List.mem_cons, List.not_mem_nil, or_false, forall_eq_or_imp, forall_eq]
    exact ⟨⟨by decide +kernel, by decide +kernel⟩, ⟨by decide +kernel, by decide +kernel⟩⟩

/-- A body of announced length goes through. -/
theorem demo_upload_forwarded :
    IsRequest (reverseProxy demoParseResponse demoUpload.method demoUpload.path demoUpload.headers
      (utf8 "hello") (.connected ⟨[], .waiting⟩) ⟨127, 0, 0, 1⟩).sent (utf8 "hello") :=
  (proxied_framing_iff demoParseResponse demoUpload ⟨127, 0, 0, 1⟩ ⟨[], .waiting⟩
    (show readBody ⟨[], .waiting⟩ (utf8 "helloGET") demoUpload.headers =
      .ok (utf8 "hello", utf8 "GET") ⟨[], .waiting⟩ by decide +kernel)).mpr (by decide +kernel)

/-- A request with a chunked body. -/
def demoChunkedUpload : HttpRequest where
  method := utf8 "POST"
  path := utf8 "/api/upload"
  headers := [⟨utf8 "Host", utf8 "api.localhost"⟩, ⟨utf8 "Transfer-Encoding", utf8 "chunked"⟩]
  method_token := by decide +kernel
  path_ne := by decide +kernel
  path_visible := by decide +kernel
  headers_valid := by
    simp only [List.mem_cons, List.not_mem_nil, or_false, forall_eq_or_imp, forall_eq]
    exact ⟨⟨by decide +kernel, by decide +kernel⟩, ⟨by decide +kernel, by decide +kernel⟩⟩

/-- A body that reads as a request. -/
def demoSmuggled : List UInt8 := utf8 "GET /admin HTTP/1.1\r\n\r\n"

/-- **A chunked body becomes a request of its own.**  The body is read, and passed
on behind a head that announces none, so that the upstream server reads it as a
second request. -/
theorem demo_body_smuggled :
    readBody ⟨[], .waiting⟩ (utf8 "17\r\nGET /admin HTTP/1.1\r\n\r\n\r\n0\r\n\r\n")
        demoChunkedUpload.headers = .ok (demoSmuggled, []) ⟨[], .waiting⟩ ∧
      ¬ IsRequest (reverseProxy demoParseResponse demoChunkedUpload.method demoChunkedUpload.path
        demoChunkedUpload.headers demoSmuggled (.connected ⟨[], .waiting⟩)
        ⟨127, 0, 0, 1⟩).sent demoSmuggled ∧
      (parseRequest (reverseProxy demoParseResponse demoChunkedUpload.method
        demoChunkedUpload.path demoChunkedUpload.headers demoSmuggled (.connected ⟨[], .waiting⟩)
        ⟨127, 0, 0, 1⟩).sent).map Prod.snd = some demoSmuggled ∧
      IsRequest demoSmuggled [] := by
  refine ⟨?_, ?_, ?_, ?_⟩
  · decide +kernel
  · decide +kernel
  · decide +kernel
  · decide +kernel

end PpcaNetwork.Minicaddy
