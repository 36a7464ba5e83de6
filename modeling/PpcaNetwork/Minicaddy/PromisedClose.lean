import PpcaNetwork.Minicaddy.Pipelining

/-!
# Promises to close

A response with `Connection: close` promises that nothing follows on the connection.
The loop of `serve_connection` looks at the field of the request only, so the promise is
kept where the two agree.

* `not_promisesClose_fileServer` — a keep-alive request for a file is promised nothing.
* `answersOpen` — the requests whose answer promises nothing, or ends the connection.
* `serveRound_keeps_iff` — one round.
* `promise_kept` — every run.
-/

namespace PpcaNetwork.Minicaddy

open Http1

/-! ## Responses that promise nothing -/

/-- The names of the fields of the responses, but for `Connection`. -/
def otherNames : List Text :=
  [utf8 "Content-Length", utf8 "Transfer-Encoding", utf8 "Content-Type",
    utf8 "Content-Encoding", utf8 "Vary", utf8 "Content-Range", utf8 "ETag",
    utf8 "Last-Modified", utf8 "Retry-After", utf8 "WWW-Authenticate"]

/-- A field that has nothing to do with the connection. -/
structure Unconnected (f : Field) : Prop where
  valid : f.Valid
  name_ne : ¬ SameText f.name (utf8 "Connection")

theorem unconnected_of_mem {name : Text} {value : List UInt8} (hname : name ∈ otherNames)
    (hvalue : IsFieldText value) : Unconnected ⟨name, value⟩ := by
  have hall : ∀ name ∈ otherNames, (name ≠ [] ∧ name.all isTokenByte = true) ∧
      ¬ SameText name (utf8 "Connection") := by
    decide +kernel
  obtain ⟨⟨hne, hbytes⟩, hother⟩ := hall name hname
  exact ⟨⟨isToken_of_all hne hbytes, hvalue⟩, hother⟩

section KeepAlive

variable {start : List UInt8} {status : Nat}

/-- A response promises what its last field says. -/
theorem promisesClose_conn (hstart : IsStatusLine start status) {fields : List Field}
    (hfields : ∀ f ∈ fields, Unconnected f) {conn : Text} (hconn : IsFieldText conn)
    (body : List UInt8) :
    promisesClose (renderHead start (fields ++ [⟨utf8 "Connection", conn⟩]) ++ body) =
      closes [Field.strip ⟨utf8 "Connection", conn⟩] := by
  have hname : IsToken (utf8 "Connection") :=
    isToken_of_all (by decide +kernel) (by decide +kernel)
  have hvalid : ∀ f ∈ fields ++ [⟨utf8 "Connection", conn⟩], f.Valid := by
    intro f hf
    rcases List.mem_append.mp hf with hf | hf
    · exact (hfields f hf).valid
    · rw [List.mem_singleton.mp hf]
      exact ⟨hname, hconn⟩
  rw [promisesClose_renderHead hstart hvalid, List.map_append]
  refine closes_append_of_ne ?_
  intro f hf
  obtain ⟨x, hx, rfl⟩ := List.mem_map.mp hf
  exact (hfields x hx).name_ne

theorem not_promisesClose_keepAlive (fields : List Field) (hstart : IsStatusLine start status)
    (hfields : ∀ f ∈ fields, Unconnected f) (body : List UInt8) :
    promisesClose (renderHead start (fields ++ [⟨utf8 "Connection", utf8 "keep-alive"⟩]) ++
      body) = false := by
  rw [promisesClose_conn hstart hfields (text_of_mem (by simp [valueTexts]))]
  decide +kernel

/-- A response with a text always promises to close. -/
theorem promisesClose_plainResponse {status : Text} {code : Nat}
    (hstatus : IsStatusLine (utf8 "HTTP/1.1 " ++ status) code) {fields : List Field}
    (hfields : ∀ f ∈ fields, Unconnected f) (body : Text) :
    promisesClose (plainResponse status fields body) = true := by
  have hall : ∀ f ∈ fields ++ [(⟨utf8 "Content-Type", utf8 "text/plain"⟩ : Field),
      ⟨utf8 "Content-Length", decimal body.length⟩], Unconnected f := by
    intro f hf
    rcases List.mem_append.mp hf with hf | hf
    · exact hfields f hf
    · simp only [List.mem_cons, List.not_mem_nil, or_false] at hf
      rcases hf with rfl | rfl
      · exact unconnected_of_mem (by simp [otherNames]) (text_of_mem (by simp [valueTexts]))
      · exact unconnected_of_mem (by simp [otherNames]) (isFieldText_decimal _)
  have hclose : IsFieldText (utf8 "close") := text_of_mem (by simp [valueTexts])
  have hpromise := promisesClose_conn hstatus hall hclose body
  rw [List.append_assoc] at hpromise
  refine hpromise.trans ?_
  decide +kernel

end KeepAlive

/-! ## Files -/

section FileServer

variable (method : Text) (headers : List Header) (enableGzip : Bool)

theorem not_promisesClose_notFound : promisesClose (notFound (utf8 "keep-alive")) = false := by
  refine not_promisesClose_keepAlive [⟨utf8 "Content-Length", utf8 "9"⟩] isStatusLine_404 ?_ _
  intro f hf
  rw [List.mem_singleton.mp hf]
  exact unconnected_of_mem (by simp [otherNames]) (isFieldText_decimal 9)

theorem not_promisesClose_gzipHead {ct : Text} (hct : IsFieldText ct) (body : List UInt8) :
    promisesClose (gzipHead ct (utf8 "keep-alive") ++ body) = false := by
  have hchunked : IsFieldText (utf8 "chunked") := isFieldText_of_all (by decide +kernel)
  refine not_promisesClose_keepAlive [⟨utf8 "Content-Type", ct⟩,
    ⟨utf8 "Transfer-Encoding", utf8 "chunked"⟩, ⟨utf8 "Content-Encoding", utf8 "gzip"⟩,
    ⟨utf8 "Vary", utf8 "Accept-Encoding"⟩] isStatusLine_200 ?_ body
  simp only [List.forall_mem_cons, List.not_mem_nil, false_implies, implies_true, and_true]
  exact ⟨unconnected_of_mem (by simp [otherNames]) hct,
    unconnected_of_mem (by simp [otherNames]) hchunked,
    unconnected_of_mem (by simp [otherNames]) (text_of_mem (by simp [valueTexts])),
    unconnected_of_mem (by simp [otherNames]) (text_of_mem (by simp [valueTexts]))⟩

theorem not_promisesClose_serveDirectory (crates : Crates) (html : Text) :
    promisesClose (serveDirectory crates (fileRequest method headers true enableGzip) html) =
      false := by
  have hct : IsFieldText (utf8 "text/html; charset=utf-8") := text_of_mem (by simp [valueTexts])
  rw [serveDirectory]
  by_cases hwants : (fileRequest method headers true enableGzip).wantsGzip = true
  · rw [if_pos hwants]
    exact not_promisesClose_gzipHead hct _
  · rw [if_neg hwants]
    refine not_promisesClose_keepAlive [⟨utf8 "Content-Type", utf8 "text/html; charset=utf-8"⟩,
      ⟨utf8 "Content-Length", decimal html.length⟩] isStatusLine_200 ?_ _
    simp only [List.forall_mem_cons, List.not_mem_nil, false_implies, implies_true, and_true]
    exact ⟨unconnected_of_mem (by simp [otherNames]) hct,
      unconnected_of_mem (by simp [otherNames]) (isFieldText_decimal _)⟩

theorem not_promisesClose_serveRange {ct etag : Text} (hct : IsFieldText ct)
    (hetag : IsFieldText etag) (file : File) (start last : Nat) :
    promisesClose (serveRange (fileRequest method headers true enableGzip) file ct etag start
      last).written = false := by
  unfold serveRange
  by_cases hseek : 2 ^ 63 ≤ start
  · simp only [if_pos hseek]
    exact promisesClose_nil
  · simp only [if_neg hseek]
    refine not_promisesClose_keepAlive [⟨utf8 "Content-Range", utf8 "bytes " ++ decimal start ++
        utf8 "-" ++ decimal last ++ utf8 "/" ++ decimal file.size⟩,
      ⟨utf8 "Content-Length", decimal (rangeLen start last)⟩, ⟨utf8 "Content-Type", ct⟩,
      ⟨utf8 "ETag", etag⟩] isStatusLine_206 ?_ _
    simp only [List.forall_mem_cons, List.not_mem_nil, false_implies, implies_true, and_true]
    exact ⟨unconnected_of_mem (by simp [otherNames]) (contentRange_text start last file.size),
      unconnected_of_mem (by simp [otherNames]) (isFieldText_decimal _),
      unconnected_of_mem (by simp [otherNames]) hct,
      unconnected_of_mem (by simp [otherNames]) hetag⟩

theorem not_promisesClose_notModified {etag : Text} (hetag : IsFieldText etag) :
    promisesClose (notModified etag (utf8 "keep-alive")) = false := by
  rw [notModified, ← List.append_nil (renderHead _ _)]
  refine not_promisesClose_keepAlive [⟨utf8 "ETag", etag⟩] isStatusLine_304 ?_ _
  intro f hf
  rw [List.mem_singleton.mp hf]
  exact unconnected_of_mem (by simp [otherNames]) hetag

theorem not_promisesClose_rangeNotSatisfiable (fileSize : Nat) :
    promisesClose (rangeNotSatisfiable fileSize (utf8 "keep-alive")) = false := by
  have hunit : IsFieldText (utf8 "bytes */") := text_of_mem (by simp [valueTexts])
  rw [rangeNotSatisfiable, ← List.append_nil (renderHead _ _)]
  refine not_promisesClose_keepAlive
    [⟨utf8 "Content-Range", utf8 "bytes */" ++ decimal fileSize⟩] isStatusLine_416 ?_ _
  intro f hf
  rw [List.mem_singleton.mp hf]
  exact unconnected_of_mem (by simp [otherNames]) (hunit.append (isFieldText_decimal fileSize))

theorem not_promisesClose_wholeFile {ct etag lastMod : Text} (hct : IsFieldText ct)
    (hetag : IsFieldText etag) (hlastMod : IsFieldText lastMod) (file : File) :
    promisesClose (wholeFile (fileRequest method headers true enableGzip) file ct etag lastMod) =
      false := by
  refine not_promisesClose_keepAlive [⟨utf8 "Content-Length", decimal file.size⟩,
    ⟨utf8 "Content-Type", ct⟩, ⟨utf8 "ETag", etag⟩, ⟨utf8 "Last-Modified", lastMod⟩]
    isStatusLine_200 ?_ _
  simp only [List.forall_mem_cons, List.not_mem_nil, false_implies, implies_true, and_true]
  exact ⟨unconnected_of_mem (by simp [otherNames]) (isFieldText_decimal _),
    unconnected_of_mem (by simp [otherNames]) hct, unconnected_of_mem (by simp [otherNames]) hetag,
    unconnected_of_mem (by simp [otherNames]) hlastMod⟩

theorem not_promisesClose_serveFile (crates : Crates) (target : FsPath) (file : File)
    (secs : Nat) :
    promisesClose (serveFile crates (fileRequest method headers true enableGzip) target file
      secs).written = false := by
  have hetag := etagFor_text secs file.size
  have hct := mimeType_text target
  unfold serveFile
  simp only
  split
  · exact not_promisesClose_notModified hetag
  · split
    · split
      · exact not_promisesClose_serveRange method headers enableGzip hct hetag file _ _
      · exact not_promisesClose_rangeNotSatisfiable _
    · split
      · exact not_promisesClose_gzipHead hct _
      · exact not_promisesClose_wholeFile method headers enableGzip hct hetag
          (formatHttpDate_text _) file

/-- **Files.**  The response to a keep-alive request does not promise to close. -/
theorem not_promisesClose_fileServer (crates : Crates) (fs : FileSystem) (path root : Text) :
    promisesClose (fileServer crates fs method path headers true root enableGzip).written =
      false := by
  unfold fileServer
  simp only
  split
  · exact not_promisesClose_notFound
  · split
    · exact not_promisesClose_serveDirectory method headers enableGzip crates _
    · split
      · exact promisesClose_nil
      · split
        · exact promisesClose_nil
        · exact not_promisesClose_serveFile method headers enableGzip crates _ _ _

end FileServer

/-! ## Requests -/

/-- The response that is relayed promises nothing, or the handling does not end
normally. -/
def upstreamOpen (parseResponse : List UInt8 → ParseStatus Unit) : Upstream → Bool
  | .refused _ => false
  | .connected s =>
    match s.reads with
    | [] => s.ending ≠ .closed
    | buf :: reads =>
      match parseResponse buf.1 with
      | .complete _ _ => s.ending ≠ .closed || !promisesClose (buf.1 ++ packetBytes reads)
      | _ => false

/-- A keep-alive request is answered without a promise to close, or its handling does
not end normally. -/
def answersOpen (server : Server) (world : World) (req : HttpRequest) : Bool :=
  world.allowed &&
    match siteOf server.sites req.headers with
    | none => true
    | some site =>
      authorized server.crates site req.headers &&
        match site.reverseProxy with
        | some upstream => upstreamOpen server.crates.parseResponse (world.upstream upstream)
        | none => site.fileServer

theorem promisesClose_write429 : promisesClose write429 = true := by
  refine promisesClose_plainResponse isStatusLine_429 ?_ _
  intro f hf
  rw [List.mem_singleton.mp hf]
  exact unconnected_of_mem (by simp [otherNames]) (text_of_mem (by simp [valueTexts]))

theorem promisesClose_write401 : promisesClose write401 = true := by
  refine promisesClose_plainResponse isStatusLine_401 ?_ _
  intro f hf
  rw [List.mem_singleton.mp hf]
  exact unconnected_of_mem (by simp [otherNames]) (text_of_mem (by simp [valueTexts]))

theorem promisesClose_noHandler : promisesClose noHandler = true := by
  have hstatus : IsStatusLine (utf8 "HTTP/1.1 " ++ utf8 "404 Not Found") 404 := by decide +kernel
  exact promisesClose_plainResponse hstatus (by simp) _

theorem promisesClose_write502 (reason : Text) : promisesClose (write502 reason) = true := by
  have hstatus : IsStatusLine (utf8 "HTTP/1.1 " ++ utf8 "502 Bad Gateway") 502 := by
    decide +kernel
  exact promisesClose_plainResponse hstatus (by simp) _

/-- What is handled leaves no promise behind on an open connection. -/
def Handled.Open (h : Handled) : Prop := h.ending = .done → promisesClose h.written = false

theorem Handled.not_open {written : List UInt8} (h : promisesClose written = true) :
    ¬ Handled.Open ⟨written, .done⟩ := by
  intro hopen
  exact absurd (h.symm.trans (hopen rfl)) (by simp)

/-- The relayed response. -/
theorem open_relay_iff (parseResponse : List UInt8 → ParseStatus Unit) (s : Stream) :
    (relay parseResponse s).Open ↔ upstreamOpen parseResponse (.connected s) = true := by
  obtain ⟨reads, ending⟩ := s
  cases reads with
  | nil =>
    cases ending with
    | waiting => simp [relay, upstreamOpen, Handled.Open]
    | closed =>
      simp only [upstreamOpen, ne_eq, not_true_eq_false, decide_false, Bool.false_eq_true,
        iff_false]
      exact Handled.not_open (promisesClose_write502 _)
    | failed => simp [relay, upstreamOpen, Handled.Open]
  | cons buf reads =>
    cases hparse : parseResponse buf.1 with
    | incomplete =>
      simp only [relay, upstreamOpen, hparse, Bool.false_eq_true, iff_false]
      exact Handled.not_open (promisesClose_write502 _)
    | error e =>
      simp only [relay, upstreamOpen, hparse, Bool.false_eq_true, iff_false]
      exact Handled.not_open (promisesClose_write502 _)
    | complete headerSize _ =>
      simp only [relay, upstreamOpen, hparse, Handled.Open, List.take_append_drop]
      cases ending with
      | waiting => simp
      | closed => simp
      | failed => simp

/-- **One request.**  A keep-alive request leaves no promise behind on an open
connection exactly if it is answered without one. -/
theorem open_respond_iff {server : Server} {world : World} {req : HttpRequest}
    (hkeep : wantsKeepAlive req.headers = true) (body : List UInt8) :
    (respond server world req body).Open ↔ answersOpen server world req = true := by
  unfold respond answersOpen
  by_cases hallowed : world.allowed = true
  · rw [if_pos hallowed, hallowed, Bool.true_and]
    cases hsite : siteOf server.sites req.headers with
    | none => simp [Handled.Open]
    | some site =>
      simp only
      by_cases hauth : authorized server.crates site req.headers = true
      · rw [if_pos hauth, hauth, Bool.true_and]
        cases hproxy : site.reverseProxy with
        | some upstream =>
          simp only
          cases hupstream : world.upstream upstream with
          | refused e =>
            simp only [upstreamOpen, Bool.false_eq_true, iff_false]
            exact Handled.not_open (promisesClose_write502 e)
          | connected s => exact open_relay_iff server.crates.parseResponse s
        | none =>
          simp only
          by_cases hserves : site.fileServer = true
          · rw [if_pos hserves, hkeep]
            exact iff_of_true
              (fun _ => not_promisesClose_fileServer req.method req.headers site.gzip _ _ _ _)
              hserves
          · rw [if_neg hserves]
            exact iff_of_false (Handled.not_open promisesClose_noHandler) hserves
      · rw [if_neg hauth, Bool.eq_false_of_not_eq_true hauth]
        simp only [Bool.false_and, Bool.false_eq_true, iff_false]
        exact Handled.not_open promisesClose_write401
  · rw [if_neg hallowed, Bool.eq_false_of_not_eq_true hallowed]
    simp only [Bool.false_and, Bool.false_eq_true, iff_false]
    exact Handled.not_open promisesClose_write429

/-! ## One round -/

/-- The bytes that a round writes. -/
def writtenBy (server : Server) (c : Conn) (world : World) : List UInt8 :=
  match c.ended, pending server c with
  | none, .request req body _ _ => (respond server world req body).written
  | none, .rejected _ => badRequest
  | _, _ => []

/-- If the round handles a request, it is one that asks to close or is answered without
a promise. -/
def roundOpen (server : Server) (c : Conn) (world : World) : Bool :=
  match c.ended, pending server c with
  | none, .request req _ _ _ => !wantsKeepAlive req.headers || answersOpen server world req
  | _, _ => true

/-- The connection ends with every round that promises it exactly if the request is
answered openly. -/
theorem serveRound_keeps_iff (server : Server) (c : Conn) (world : World) :
    (promisesClose (writtenBy server c world) = true →
        (serveRound server c world).ended ≠ none) ↔ roundOpen server c world = true := by
  unfold writtenBy serveRound roundOpen
  cases hended : c.ended with
  | some e => simp [promisesClose_nil]
  | none =>
    cases hpending : pending server c with
    | request req body leftover rest =>
      simp only [ne_eq, afterHandling_eq_none_iff, Bool.or_eq_true, Bool.not_eq_true']
      cases hkeep : wantsKeepAlive req.headers with
      | true =>
        rw [← open_respond_iff hkeep body, Handled.Open]
        cases hpromise : promisesClose (respond server world req body).written with
        | true => simp
        | false => simp
      | false => simp
    | stuck e => simp
    | rejected e => simp
    | more => simp [promisesClose_nil]

/-! ## Every run -/

/-- Once a round of the run has written a response that promises to close, no request
is handled and nothing is written. -/
def KeepsPromise (server : Server) (c : Conn) (worlds : List World) : Prop :=
  ∀ pre world post, worlds = pre ++ world :: post →
    promisesClose (writtenBy server (run (serveRound server) c pre) world) = true →
      calls server (run (serveRound server) c (pre ++ [world])) post = [] ∧
        (run (serveRound server) c worlds).written =
          (run (serveRound server) c (pre ++ [world])).written

/-- **A promised close happens.**  For every stream, whatever sites there are and
whatever the world answers: if every keep-alive request that is handled is answered
openly, the promise is kept throughout the run. -/
theorem promise_kept {server : Server} {s : Stream} {worlds : List World}
    (h : Run.Guarded (serveRound server) (fun c world => roundOpen server c world = true)
      (Conn.start s) worlds) : KeepsPromise server (Conn.start s) worlds := by
  rintro pre world post rfl hpromise
  obtain ⟨-, hround, -⟩ := Run.guarded_append.mp h
  have hended := (serveRound_keeps_iff server _ world).mpr hround hpromise
  obtain ⟨e, he⟩ := Option.ne_none_iff_exists'.mp hended
  have hlast : run (serveRound server) (Conn.start s) (pre ++ [world]) =
      serveRound server (run (serveRound server) (Conn.start s) pre) world := by
    rw [Run.run_append, Run.run_cons, Run.run_nil]
  have hrest : run (serveRound server) (Conn.start s) (pre ++ world :: post) =
      serveRound server (run (serveRound server) (Conn.start s) pre) world := by
    rw [Run.run_append, Run.run_cons, run_of_ended he]
  rw [hlast, hrest]
  exact ⟨calls_of_ended he post, rfl⟩

/-! ## Two connections -/

/-- A request that asks to close. -/
def demoClosingGet : HttpRequest :=
  { demoGet with
    headers := demoGet.headers ++ [⟨utf8 "Connection", utf8 "close"⟩]
    headers_valid := by
      intro f hf
      rcases List.mem_append.mp hf with hf | hf
      · exact demoGet.headers_valid f hf
      · rw [List.mem_singleton.mp hf]
        exact ⟨by decide +kernel, by decide +kernel⟩ }

/-- The same request on the wire. -/
def demoClosingBytes : List UInt8 :=
  utf8 "GET /a.css HTTP/1.1\r\nHost: localhost\r\nConnection: close\r\n\r\n"

/-- The server of the demo, where `httparse` knows this request only. -/
def demoClosingServer : Server :=
  { demoServer with
    crates :=
      { demoCrates with
        parseRequest := fun buffer =>
          if demoClosingBytes.isPrefixOf buffer then
            .complete demoClosingBytes.length demoClosingGet
          else .incomplete } }

/-- Two requests that ask to close, in one read. -/
def demoClosingGets : Stream :=
  ⟨[⟨demoClosingBytes ++ demoClosingBytes, by decide +kernel⟩], .waiting⟩

/-- The first of them is promised to be the last one, and is. -/
theorem demo_promise_kept :
    promisesClose (writtenBy demoClosingServer
        (run (serveRound demoClosingServer) (Conn.start demoClosingGets) [demoWorld])
        demoWorld) = true ∧
      KeepsPromise demoClosingServer (Conn.start demoClosingGets)
        [demoWorld, demoWorld, demoWorld] := by
  constructor
  · decide +kernel
  · exact promise_kept (by decide +kernel)

/-- The rate limiter has nothing left. -/
def demoLimited : World := { demoWorld with allowed := false }

/-- **A promise is broken.**  The first of two requests meets the rate limit, and the
response to it promises to close; the second is handled all the same. -/
theorem demo_promise_broken :
    promisesClose (writtenBy demoServer
        (run (serveRound demoServer) (Conn.start demoGets) [demoLimited]) demoLimited) = true ∧
      (calls demoServer (run (serveRound demoServer) (Conn.start demoGets)
        [demoLimited, demoLimited]) [demoWorld]).length = 1 ∧
      ¬ KeepsPromise demoServer (Conn.start demoGets) [demoLimited, demoLimited, demoWorld] := by
  have hpromise : promisesClose (writtenBy demoServer
      (run (serveRound demoServer) (Conn.start demoGets) [demoLimited]) demoLimited) = true := by
    decide +kernel
  have hcalls : (calls demoServer (run (serveRound demoServer) (Conn.start demoGets)
      [demoLimited, demoLimited]) [demoWorld]).length = 1 := by decide +kernel
  refine ⟨hpromise, hcalls, ?_⟩
  intro hkept
  obtain ⟨hnone, -⟩ := hkept [demoLimited] demoLimited [demoWorld] rfl hpromise
  rw [List.singleton_append] at hnone
  rw [hnone] at hcalls
  exact absurd hcalls (by simp)

end PpcaNetwork.Minicaddy
