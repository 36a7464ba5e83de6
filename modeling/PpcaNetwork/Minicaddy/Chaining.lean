import PpcaNetwork.Minicaddy.Forwarding
import PpcaNetwork.Minicaddy.Pipelining
import PpcaNetwork.Minicaddy.Relaying

/-!
# One server in front of another

A site with `reverse_proxy` whose upstream server is another server of this kind: what the
client gets is what the server behind would have answered to the request itself, for its path
without `/api`.

* `HttpRequest.forwarded` — the request as the server behind reads it.
* `getHeader_forwarded` — what it finds in the fields.
* `written_of_bytes` — what is written on a connection are the responses to its calls.
* `respond_forwarded` — the server behind answers as it would answer the client.
* `proxied_eq_direct` — both servers, and the connections between them.
-/

namespace PpcaNetwork.Minicaddy

open Http1

/-! ## The request that is passed on -/

theorem isFieldText_stripOws {v : List UInt8} (h : IsFieldText v) : IsFieldText (stripOws v) :=
  fun b hb => h b ((List.dropWhile_sublist _).subset ((List.rdropWhile_prefix _ _).subset hb))

/-- The fields that the server behind reads. -/
def forwardedHeaders (headers : List Header) (clientIp : Ipv4Addr) : List Header :=
  (copiedHeaders headers ++ forwardedFields clientIp).map Field.strip

/-- The request that the server behind reads. -/
def HttpRequest.forwarded (req : HttpRequest) (clientIp : Ipv4Addr) : HttpRequest where
  method := req.method
  path := upstreamPath req.path
  headers := forwardedHeaders req.headers clientIp
  method_token := req.method_token
  path_ne := (upstreamPath_target req.path_visible).1
  path_visible := (upstreamPath_target req.path_visible).2
  headers_valid := by
    intro f hf
    obtain ⟨x, hx, rfl⟩ := List.mem_map.mp hf
    have hvalid : x.Valid := (List.mem_append.mp hx).elim (copiedHeaders_valid req.headers_valid x)
      (forwardedFields_valid clientIp x)
    exact ⟨hvalid.name, isFieldText_stripOws hvalid.value⟩

/-- A field as a parser leaves it, with a value that is text. -/
structure IsPlainField (f : Header) : Prop where
  stripped : f.strip = f
  text : isUtf8 f.value = true

/-- A name that is passed on, and not added to. -/
def IsEndToEnd (name : Text) : Prop :=
  isHopByHop name = false ∧ ¬ SameText (utf8 "X-Forwarded-For") name ∧
    ¬ SameText (utf8 "X-Forwarded-Proto") name

instance (name : Text) : Decidable (IsEndToEnd name) := inferInstanceAs (Decidable (_ ∧ _))

theorem isHopByHop_congr {name name' : Text} (h : SameText name name') :
    isHopByHop name = isHopByHop name' := by
  unfold isHopByHop
  congr 1
  funext hop
  exact decide_eq_decide.mpr ⟨fun hhop => hhop.trans h, fun hhop => hhop.trans h.symm⟩

section

variable {headers : List Header} (hplain : ∀ f ∈ headers, IsPlainField f) (clientIp : Ipv4Addr)
  {name : Text}

include hplain in
/-- Plain fields are passed on as they are. -/
theorem forwardedHeaders_eq : forwardedHeaders headers clientIp =
    headers.filter (fun h => !isHopByHop h.name) ++ (forwardedFields clientIp).map Field.strip := by
  rw [forwardedHeaders, List.map_append, copiedHeaders, List.map_map]
  congr 1
  conv_rhs => rw [← List.map_id (headers.filter fun h => !isHopByHop h.name)]
  refine List.map_congr_left fun f hf => ?_
  have hf := hplain f (List.mem_of_mem_filter hf)
  show Field.strip ⟨f.name, copiedValue f.value⟩ = f
  rw [copiedValue, if_pos hf.text]
  exact hf.stripped

theorem not_sameText_forwardedFields (hname : IsEndToEnd name) :
    ∀ f ∈ (forwardedFields clientIp).map Field.strip, ¬ SameText f.name name := by
  intro f hf
  obtain ⟨x, hx, rfl⟩ := List.mem_map.mp hf
  simp only [forwardedFields, List.mem_cons, List.not_mem_nil, or_false] at hx
  rcases hx with rfl | rfl
  · exact hname.2.1
  · exact hname.2.2

include hplain in
/-- All fields of such a name reach the server behind. -/
theorem fieldValues_forwarded (hname : IsEndToEnd name) :
    fieldValues (forwardedHeaders headers clientIp) name = fieldValues headers name := by
  have hadded : ((forwardedFields clientIp).map Field.strip).filter
      (fun f => SameText f.name name) = [] := by
    rw [List.filter_eq_nil_iff]
    intro f hf
    simpa using not_sameText_forwardedFields clientIp hname f hf
  rw [fieldValues, forwardedHeaders_eq hplain, List.filter_append, hadded, List.append_nil,
    List.filter_filter, fieldValues]
  congr 1
  refine List.filter_congr fun f _ => ?_
  by_cases hsame : SameText f.name name
  · simp [hsame, isHopByHop_congr hsame, hname.1]
  · simp [hsame]

include hplain in
/-- What the server behind finds under such a name is what the client has put there. -/
theorem getHeader_forwarded (hname : IsEndToEnd name) :
    getHeader (forwardedHeaders headers clientIp) name = getHeader headers name := by
  rw [getHeader_eq, getHeader_eq, fieldValues_forwarded hplain clientIp hname]

/-- Nothing is found under the name of a field that is not passed on. -/
theorem getHeader_forwarded_hopByHop (hname : isHopByHop name = true)
    (hfor : ¬ SameText (utf8 "X-Forwarded-For") name)
    (hproto : ¬ SameText (utf8 "X-Forwarded-Proto") name) :
    getHeader (forwardedHeaders headers clientIp) name = none := by
  have hnone :
      (forwardedHeaders headers clientIp).find? (fun h => SameText h.name name) = none := by
    rw [List.find?_eq_none]
    intro f hf
    rw [decide_eq_true_eq]
    obtain ⟨x, hx, rfl⟩ := List.mem_map.mp hf
    rcases List.mem_append.mp hx with hx | hx
    · obtain ⟨h, hmem, rfl⟩ := List.mem_map.mp hx
      intro hsame
      replace hsame : SameText h.name name := hsame
      have hcopied := (List.mem_filter.mp hmem).2
      rw [isHopByHop_congr hsame, hname] at hcopied
      exact absurd hcopied (by decide)
    · simp only [forwardedFields, List.mem_cons, List.not_mem_nil, or_false] at hx
      rcases hx with rfl | rfl
      · exact hfor
      · exact hproto
  rw [getHeader, hnone]

end

/-- The request on the wire to the server behind; all of it fits into the slots for fields. -/
def WireRequest.forwarded (r : WireRequest) (clientIp : Ipv4Addr)
    (hplain : ∀ f ∈ r.req.headers, IsPlainField f)
    (hslots : (forwardedHeaders r.req.headers clientIp).length ≤ 16) : WireRequest where
  req := r.req.forwarded clientIp
  head := renderHead (r.req.method ++ utf8 " " ++ upstreamPath r.req.path ++ utf8 " HTTP/1.1")
    (copiedHeaders r.req.headers ++ forwardedFields clientIp)
  body := r.body
  headers_le := hslots
  not_coded := copiedHeaders_coding r.req.headers clientIp
  framed := by
    have hlength : IsEndToEnd (utf8 "Content-Length") := by decide +kernel
    show fieldValues (forwardedHeaders r.req.headers clientIp) _ = [] ∧ _ ∨ ∃ v,
      fieldValues (forwardedHeaders r.req.headers clientIp) _ = [v] ∧ _
    rw [fieldValues_forwarded hplain clientIp hlength]
    exact r.framed
  body_lt := r.body_lt

/-! ## What is written on a connection -/

/-- The bytes that answer a call. -/
def Call.response (server : Server) (c : Call) : List UInt8 :=
  match c.body with
  | some body => (respond server c.world c.req body).written
  | none => []

/-- When all requests are handled, nothing more is written. -/
theorem written_of_no_bytes {server : Server} {c : Conn}
    (hempty : server.crates.parseRequest [] = .incomplete) (hended : c.ended = none)
    (hbytes : c.buffer ++ c.stream.bytes = []) (worlds : List World) :
    (run (serveRound server) c worlds).written = c.written := by
  obtain ⟨hbuffer, hstream⟩ := List.append_eq_nil_iff.mp hbytes
  have hreads : c.stream.reads = [] := by
    cases hreads : c.stream.reads with
    | nil => rfl
    | cons x reads =>
      rw [Stream.bytes, hreads, packetBytes_cons] at hstream
      exact absurd (List.append_eq_nil_iff.mp hstream).1 x.2
  cases worlds with
  | nil => rfl
  | cons world worlds =>
    have hround := (round_of_incomplete hended (hbuffer ▸ hempty) world).2
    have hdone : ∃ e, (readMore c).ended = some e ∧ (readMore c).written = c.written := by
      unfold readMore
      rw [hreads]
      cases c.stream.ending with
      | waiting => exact ⟨_, rfl, rfl⟩
      | failed => exact ⟨_, rfl, rfl⟩
      | closed =>
        rw [if_pos hbuffer]
        exact ⟨_, rfl, rfl⟩
    obtain ⟨e, he, hwritten⟩ := hdone
    rw [Run.run_cons, hround, run_of_ended he, hwritten]

/-- What a round writes are the responses to its calls. -/
theorem written_serveRound_calls {server : Server} {c : Conn} (world : World)
    (hreject : ∀ e, server.crates.parseRequest c.buffer ≠ .error e) :
    (serveRound server c world).written =
      c.written ++ (call server c world).flatMap (Call.response server) := by
  unfold serveRound call pending
  cases c.ended with
  | some e => simp
  | none =>
    cases hparse : server.crates.parseRequest c.buffer with
    | incomplete =>
      simp only [List.flatMap_nil, List.append_nil]
      unfold readMore
      split <;> rfl
    | error e => exact absurd hparse (hreject e)
    | complete headerSize req =>
      simp only [List.flatMap_singleton, Call.response]
      cases readBody c.stream (c.buffer.drop headerSize) req.headers with
      | ok read rest => rfl
      | error e => simp
      | panic => simp
      | waiting => simp

/-- What has arrived of the requests is not rejected. -/
theorem arrived_not_rejected {parse : List UInt8 → ParseStatus HttpRequest} {r : WireRequest}
    {rs : List WireRequest} (h : ParsesHeads parse (r :: rs)) {buffer later : List UInt8}
    (hbytes : buffer ++ later = (r :: rs).flatMap WireRequest.bytes) (e : Text) :
    parse buffer ≠ .error e := by
  intro herror
  by_cases hwhole : r.head <+: buffer
  · obtain ⟨buffered, rfl⟩ := hwhole
    rw [h.whole r (by simp) buffered] at herror
    cases herror
  · have hhead : r.head <+: buffer ++ later := by
      rw [hbytes, List.flatMap_cons, WireRequest.bytes, List.append_assoc]
      exact List.prefix_append ..
    have hpart :=
      (List.prefix_or_prefix_of_prefix hhead (List.prefix_append ..)).resolve_left hwhole
    rw [h.part r (by simp) buffer hpart fun heq => hwhole (heq ▸ List.prefix_refl _)] at herror
    cases herror

/-- **The bytes of a connection** are the responses to its calls, in order. -/
theorem written_of_bytes {server : Server} {rs : List WireRequest}
    (h : ParsesHeads server.crates.parseRequest rs) {c : Conn} (hended : c.ended = none)
    (hbytes : c.buffer ++ c.stream.bytes = rs.flatMap WireRequest.bytes) (worlds : List World) :
    (run (serveRound server) c worlds).written =
      c.written ++ (calls server c worlds).flatMap (Call.response server) := by
  induction worlds generalizing c rs with
  | nil => rw [Run.run_nil, show calls server c [] = [] from rfl, List.flatMap_nil, List.append_nil]
  | cons world worlds ih =>
    cases rs with
    | nil =>
      rw [written_of_no_bytes h.empty hended hbytes, calls_of_no_bytes h.empty hended hbytes,
        List.flatMap_nil, List.append_nil]
    | cons r rs =>
      rw [Run.run_cons, calls_cons, List.flatMap_append, ← List.append_assoc,
        ← written_serveRound_calls world (arrived_not_rejected h hbytes)]
      by_cases hwhole : r.head <+: c.buffer
      · obtain ⟨-, -, hleft, -⟩ := round_of_whole h hended hbytes hwhole world
        cases hafter : (serveRound server c world).ended with
        | some e =>
          rw [run_of_ended hafter, calls_of_ended hafter, List.flatMap_nil, List.append_nil]
        | none => exact ih h.tail hafter hleft
      · obtain ⟨-, hopen, hkept, -⟩ := round_of_part h hended hbytes hwhole world
        exact ih h hopen hkept

theorem world_mem_of_calls {server : Server} {c : Conn} {worlds : List World} {x : Call}
    (hx : x ∈ calls server c worlds) : x.world ∈ worlds := by
  induction worlds generalizing c with
  | nil => cases hx
  | cons world worlds ih =>
    rw [calls_cons, List.mem_append] at hx
    rcases hx with hx | hx
    · unfold call at hx
      split at hx
      · rw [List.mem_singleton.mp hx]
        exact List.mem_cons_self
      · cases hx
    · exact List.mem_cons_of_mem world (ih hx)

/-- One request is answered once, in one of the rounds. -/
theorem written_of_one {server : Server} {r : WireRequest}
    (h : ParsesHeads server.crates.parseRequest [r]) {s : Stream} (hs : s.bytes = r.bytes)
    {worlds : List World} (henough : 1 + s.reads.length ≤ worlds.length) :
    ∃ world ∈ worlds, (run (serveRound server) (Conn.start s) worlds).written =
      (respond server world r.req r.body).written := by
  have hbytes : s.bytes = [r].flatMap WireRequest.bytes := by rw [List.flatMap_singleton, hs]
  have hcalls := pipelined_calls h s hbytes worlds
  have hwritten := written_of_bytes h (c := Conn.start s) rfl hbytes worlds
  cases hlist : calls server (Conn.start s) worlds with
  | nil =>
    rw [hlist] at hcalls
    rcases hcalls.all henough with hlength | ⟨call, hlast, -⟩
    · cases hlength
    · cases hlast
  | cons call later =>
    rw [hlist] at hcalls hwritten
    obtain ⟨hcall, hlater⟩ := List.cons_prefix_cons.mp hcalls.inOrder
    obtain ⟨hreq, hbody⟩ := Prod.mk.inj hcall
    obtain rfl := List.map_eq_nil_iff.mp (List.prefix_nil.mp hlater)
    have hworld : call.world ∈ worlds := world_mem_of_calls (hlist ▸ List.mem_singleton_self call)
    refine ⟨call.world, hworld, ?_⟩
    rw [hwritten, List.flatMap_singleton, Call.response, hbody, hreq]
    rfl

/-! ## Two servers -/

/-- The same request for another path. -/
def HttpRequest.withPath (req : HttpRequest) (path : Text) (hne : path ≠ [])
    (hvisible : ∀ b ∈ path, isTargetByte b = true) : HttpRequest :=
  { req with path := path, path_ne := hne, path_visible := hvisible }

/-- The request that the client would send to the server behind itself. -/
def HttpRequest.direct (req : HttpRequest) : HttpRequest :=
  req.withPath (upstreamPath req.path) (upstreamPath_target req.path_visible).1
    (upstreamPath_target req.path_visible).2

/-- The server behind serves files, or nothing. -/
def ServesFiles (server : Server) (headers : List Header) : Prop :=
  ∀ site, siteOf server.sites headers = some site → site.reverseProxy = none

section

variable {headers headers' : List Header}

theorem serveFile_congr (crates : Crates) (target : FsPath) (file : File) (mtimeSecs : Nat)
    (conn : Text) (isHead wantsGzip : Bool)
    (h : ∀ name ∈ [utf8 "If-None-Match", utf8 "Range"],
      getHeader headers name = getHeader headers' name) :
    serveFile crates ⟨headers, conn, isHead, wantsGzip⟩ target file mtimeSecs =
      serveFile crates ⟨headers', conn, isHead, wantsGzip⟩ target file mtimeSecs := by
  have hmatch := h (utf8 "If-None-Match") (by simp)
  have hrange := h (utf8 "Range") (by simp)
  simp only [serveFile, hmatch, hrange]
  cases getHeader headers' (utf8 "Range") with
  | none => rfl
  | some rangeVal =>
    cases parseRange rangeVal file.size with
    | none => rfl
    | some range => rfl

/-- The handler looks at three fields. -/
theorem fileServer_congr (crates : Crates) (fs : FileSystem) (method path : Text)
    (keepAlive : Bool) (root : Text) (enableGzip : Bool)
    (h : ∀ name ∈ [utf8 "Accept-Encoding", utf8 "If-None-Match", utf8 "Range"],
      getHeader headers name = getHeader headers' name) :
    fileServer crates fs method path headers keepAlive root enableGzip =
      fileServer crates fs method path headers' keepAlive root enableGzip := by
  have haccept := h (utf8 "Accept-Encoding") (by simp)
  simp only [fileServer, fileRequest, haccept]
  cases safePath fs root path with
  | none => rfl
  | some target =>
    dsimp only
    cases fs.isDir target with
    | true => rfl
    | false =>
      cases fs.openFile target with
      | error e => rfl
      | ok file =>
        dsimp only
        cases file.mtimeSecs with
        | none => rfl
        | some secs =>
          exact serveFile_congr crates target file secs _ _ _ fun name hname =>
            h name (List.mem_cons_of_mem _ hname)

end

/-- **The server behind** answers a request that was passed on as it would answer the client
itself on a connection that is kept open. -/
theorem respond_forwarded (server : Server) (world : World) {req : HttpRequest}
    (clientIp : Ipv4Addr) (body : List UInt8) (hplain : ∀ f ∈ req.headers, IsPlainField f)
    (hkeep : wantsKeepAlive req.headers = true) (hfiles : ServesFiles server req.headers) :
    respond server world (req.forwarded clientIp) body = respond server world req.direct body := by
  have hnames : ∀ name ∈ [utf8 "Host", utf8 "Authorization", utf8 "Accept-Encoding",
      utf8 "If-None-Match", utf8 "Range"], IsEndToEnd name := by
    decide +kernel
  have hget : ∀ name ∈ [utf8 "Host", utf8 "Authorization", utf8 "Accept-Encoding",
      utf8 "If-None-Match", utf8 "Range"],
      getHeader (req.forwarded clientIp).headers name = getHeader req.headers name :=
    fun name hname => getHeader_forwarded hplain clientIp (hnames name hname)
  have hsite : siteOf server.sites (req.forwarded clientIp).headers =
      siteOf server.sites req.headers := by
    rw [siteOf, siteOf, hget _ (by simp)]
  have hauth : ∀ site, authorized server.crates site (req.forwarded clientIp).headers =
      authorized server.crates site req.headers := by
    intro site
    unfold authorized checkAuth
    rw [hget _ (by simp)]
  have hconn : wantsKeepAlive (req.forwarded clientIp).headers = true := by
    have hnone : getHeader (req.forwarded clientIp).headers (utf8 "Connection") = none :=
      getHeader_forwarded_hopByHop clientIp (by decide +kernel) (by decide +kernel)
        (by decide +kernel)
    rw [wantsKeepAlive, hnone]
  have hserve : ∀ root enableGzip,
      fileServer server.crates world.fs (req.forwarded clientIp).method
        (req.forwarded clientIp).path (req.forwarded clientIp).headers true root enableGzip =
      fileServer server.crates world.fs req.direct.method req.direct.path req.direct.headers true
        root enableGzip :=
    fun root enableGzip => fileServer_congr _ _ _ _ _ _ _ fun name hname =>
      hget name (List.mem_cons_of_mem _ (List.mem_cons_of_mem _ hname))
  have hkeep' : wantsKeepAlive req.direct.headers = true := hkeep
  have hsite' : siteOf server.sites req.direct.headers = siteOf server.sites req.headers := rfl
  have hauth' : ∀ site, authorized server.crates site req.direct.headers =
      authorized server.crates site req.headers := fun _ => rfl
  simp only [respond, hsite, hsite', hauth, hauth', hconn, hkeep', hserve]
  cases hfound : siteOf server.sites req.headers with
  | none => rfl
  | some site => simp only [hfiles site hfound]

/-- **A proxy in front of a file server.**  However the connections cut what is sent, if the
first piece of the response has its whole head, the client gets through the proxy what the
server behind would have answered to the request itself, for its path without `/api`. -/
theorem proxied_eq_direct {front back : Server} {frontWorld : World} {r : WireRequest}
    {site : SiteConfig} {addr : Text} (hallowed : frontWorld.allowed = true)
    (hsite : siteOf front.sites r.req.headers = some site)
    (hauth : authorized front.crates site r.req.headers = true)
    (hproxy : site.reverseProxy = some addr) (hplain : ∀ f ∈ r.req.headers, IsPlainField f)
    (hslots : (forwardedHeaders r.req.headers front.clientIp).length ≤ 16)
    (hkeep : wantsKeepAlive r.req.headers = true) (hfiles : ServesFiles back r.req.headers)
    (hrequests : ParsesHeads back.crates.parseRequest [r.forwarded front.clientIp hplain hslots])
    (hresponses : ParsesIncrementally front.crates.parseResponse) {s : Stream}
    (hs : s.bytes = upstreamRequest r.req.method r.req.path r.req.headers r.body front.clientIp)
    {worlds : List World} (henough : 1 + s.reads.length ≤ worlds.length)
    {pieces : List Packet} (hupstream : frontWorld.upstream addr = upstreamOf pieces)
    (hpieces : packetBytes pieces = (run (serveRound back) (Conn.start s) worlds).written)
    {headerSize : Nat}
    (hhead : front.crates.parseResponse (packetBytes pieces) = .complete headerSize ())
    (hfirst : ∃ piece rest, pieces = piece :: rest ∧
      headerSize ≤ min piece.1.length responseBuffer) :
    ∃ world ∈ worlds, respond front frontWorld r.req r.body =
      ⟨(respond back world r.req.direct r.body).written, .done⟩ := by
  have hsent : s.bytes = (r.forwarded front.clientIp hplain hslots).bytes := by
    rw [hs, upstreamRequest_eq]
    rfl
  obtain ⟨world, hworld, hwritten⟩ := written_of_one hrequests hsent henough
  have hrelayed := (response_relayed_iff hresponses hhead rfl r.req.method r.req.path r.req.headers
    r.body front.clientIp).mpr hfirst
  refine ⟨world, hworld, ?_⟩
  rw [← respond_forwarded back world front.clientIp r.body hplain hkeep hfiles]
  rw [respond, if_pos hallowed]
  simp only [hsite, hauth, hproxy, if_true, hupstream]
  rw [hrelayed.handled, hpieces, hwritten]
  rfl

/-! ## Two servers of the demo -/

theorem demo_get_token : IsToken (utf8 "GET") := by decide +kernel

theorem demo_api_path_ne : utf8 "/api/a.css" ≠ [] := by decide +kernel

theorem demo_api_path_visible : ∀ b ∈ utf8 "/api/a.css", isTargetByte b = true := by
  decide +kernel

/-- A request for a file through the proxy. -/
def demoApiGet : HttpRequest :=
  demoRequest (utf8 "GET") (utf8 "/api/a.css") demo_get_token demo_api_path_ne demo_api_path_visible

theorem demo_api_headers_le : demoApiGet.headers.length ≤ 16 := by decide

theorem demo_api_not_coded :
    fieldValues demoApiGet.headers (utf8 "Transfer-Encoding") = [] := by
  decide +kernel

theorem demo_api_no_length :
    fieldValues demoApiGet.headers (utf8 "Content-Length") = [] := by
  decide +kernel

/-- The request as the client sends it. -/
def demoApiWire : WireRequest where
  req := demoApiGet
  head := utf8 "GET /api/a.css HTTP/1.1\r\nHost: localhost\r\n\r\n"
  body := []
  headers_le := demo_api_headers_le
  not_coded := demo_api_not_coded
  framed := .inl ⟨demo_api_no_length, rfl⟩
  body_lt := Nat.pow_pos Nat.two_pos

theorem demo_plain : ∀ f ∈ demoApiWire.req.headers, IsPlainField f := by
  intro f hf
  rw [List.mem_singleton.mp hf]
  exact ⟨by decide +kernel, by decide +kernel⟩

/-- The server in front passes everything on. -/
def demoFront : Server where
  crates := { demoCrates with parseResponse := demoHeads }
  sites := [⟨none, none, false, false, some (utf8 "127.0.0.1:8081"), none⟩]
  clientIp := ⟨127, 0, 0, 1⟩

theorem demo_slots :
    (forwardedHeaders demoApiWire.req.headers demoFront.clientIp).length ≤ 16 := by
  decide +kernel

/-- The request as the server behind reads it. -/
def demoForwardedWire : WireRequest :=
  demoApiWire.forwarded demoFront.clientIp demo_plain demo_slots

/-- The server behind knows one request. -/
def demoBack : Server :=
  { demoServer with
    crates := { demoCrates with
      parseRequest := fun buffer =>
        if demoForwardedWire.head.isPrefixOf buffer then
          .complete demoForwardedWire.head.length demoForwardedWire.req
        else .incomplete } }

theorem demo_forwarded_parsed :
    ParsesHeads demoBack.crates.parseRequest [demoForwardedWire] := by
  have hne : demoForwardedWire.head ≠ [] := by decide +kernel
  refine ⟨?_, ?_, ?_⟩
  · have hnil : ¬ demoForwardedWire.head.isPrefixOf [] = true := by
      rw [List.isPrefixOf_iff_prefix, List.prefix_nil]
      exact hne
    simp only [demoBack, if_neg hnil]
  · intro r hr p hp hpne
    rw [List.mem_singleton.mp hr] at hp hpne
    have hnot : ¬ demoForwardedWire.head.isPrefixOf p = true := by
      rw [List.isPrefixOf_iff_prefix]
      intro hle
      exact hpne (hp.eq_of_length (le_antisymm hp.length_le hle.length_le))
    simp only [demoBack, if_neg hnot]
  · intro r hr t
    rw [List.mem_singleton.mp hr]
    have hyes : demoForwardedWire.head.isPrefixOf (demoForwardedWire.head ++ t) = true :=
      List.isPrefixOf_iff_prefix.mpr (List.prefix_append ..)
    simp only [demoBack, if_pos hyes]

/-- What the server in front sends, in one read. -/
def demoToBack : Stream := ⟨[⟨demoForwardedWire.head, by decide +kernel⟩], .waiting⟩

/-- What the server behind answers, in one piece. -/
def demoFromBack : List Packet :=
  [⟨(run (serveRound demoBack) (Conn.start demoToBack) [demoWorld, demoWorld]).written,
    by decide +kernel⟩]

/-- The site in front, which has no name. -/
def demoFrontSite : SiteConfig := ⟨none, none, false, false, some (utf8 "127.0.0.1:8081"), none⟩

theorem demo_proxied_eq_direct :
    ∃ world ∈ [demoWorld, demoWorld],
      respond demoFront { demoWorld with upstream := fun _ => upstreamOf demoFromBack }
        demoApiWire.req demoApiWire.body =
      ⟨(respond demoBack world demoApiWire.req.direct demoApiWire.body).written, .done⟩ := by
  have hsite : siteOf demoFront.sites demoApiWire.req.headers = some demoFrontSite := by
    simp [siteOf, selectSite, demoFront, demoFrontSite]
  have hkeep : wantsKeepAlive demoApiWire.req.headers = true := by decide +kernel
  have hfiles : ServesFiles demoBack demoApiWire.req.headers := by
    intro site hfound
    have hmem : site ∈ demoBack.sites := by
      rw [siteOf, selectSite, Option.or_eq_some_iff] at hfound
      rcases hfound with hfound | ⟨-, hfound⟩
      · exact List.mem_of_find?_eq_some hfound
      · exact List.mem_of_find?_eq_some hfound
    rw [List.mem_singleton.mp hmem]
  have hsent : demoToBack.bytes = upstreamRequest demoApiWire.req.method demoApiWire.req.path
      demoApiWire.req.headers demoApiWire.body demoFront.clientIp := by
    decide +kernel
  have hpieces : packetBytes demoFromBack =
      (run (serveRound demoBack) (Conn.start demoToBack) [demoWorld, demoWorld]).written := by
    simp [demoFromBack]
  have hfound : findSub crlfcrlf (packetBytes demoFromBack) = some 143 := by decide +kernel
  have hparser : demoFront.crates.parseResponse = demoHeads := rfl
  have hhead : demoFront.crates.parseResponse (packetBytes demoFromBack) = .complete 147 () := by
    rw [hparser]
    exact demoHeads_complete.mpr ⟨143, hfound, rfl⟩
  have hfirst : ∃ piece rest, demoFromBack = piece :: rest ∧
      147 ≤ min piece.1.length responseBuffer := by
    refine ⟨_, _, rfl, ?_⟩
    decide +kernel
  have henough : 1 + demoToBack.reads.length ≤ [demoWorld, demoWorld].length := le_refl 2
  have hauth : authorized demoFront.crates demoFrontSite demoApiWire.req.headers = true := rfl
  exact proxied_eq_direct (r := demoApiWire) rfl hsite hauth rfl demo_plain
    demo_slots hkeep hfiles demo_forwarded_parsed demoHeads_incremental hsent
    henough rfl hpieces hhead hfirst

end PpcaNetwork.Minicaddy
