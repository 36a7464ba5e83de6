import PpcaNetwork.Lib.Run
import PpcaNetwork.Minicaddy.Files
import PpcaNetwork.Minicaddy.Proxy

/-!
# The server

`handle_request` and `serve_connection` of `minicaddy/src/inbounds/http.rs`.

* `SiteConfig` — a site.
* `respond` — `handle_request` behind the reading of the body: rate limit, site,
  authorization, handler.
* `Conn` and `serveRound` — one round of the loop of `serve_connection`, which
  either answers a request or reads once.
-/

namespace PpcaNetwork.Minicaddy

open Http1

/-! ## Answering a request -/

/-- The settings of a site that are used to answer a request. -/
structure SiteConfig where
  host : Option Text
  root : Option Text
  fileServer : Bool
  gzip : Bool
  reverseProxy : Option Text
  /-- `user:password` and the realm. -/
  basicAuth : Option (Text × Text)

/-- What the world answers while one request is handled. -/
structure World where
  fs : FileSystem
  /-- The answer of the rate limiter, if there is one. -/
  allowed : Bool
  upstream : Text → Upstream

/-- A listener and the sites behind it. -/
structure Server where
  crates : Crates
  sites : List SiteConfig
  clientIp : Ipv4Addr

/-- `DEFAULT_ROOT`. -/
def defaultRoot : Text := utf8 "./www"

/-- The bytes that `write_429` writes. -/
def write429 : List UInt8 :=
  plainResponse (utf8 "429 Too Many Requests") [⟨utf8 "Retry-After", utf8 "1"⟩]
    (utf8 "429 Too Many Requests")

/-- The bytes that `write_401` writes. -/
def write401 : List UInt8 :=
  plainResponse (utf8 "401 Unauthorized")
    [⟨utf8 "WWW-Authenticate", utf8 "Basic realm=\"Restricted\""⟩] (utf8 "401 Unauthorized")

/-- The response of a site that serves nothing. -/
def noHandler : List UInt8 := plainResponse (utf8 "404 Not Found") [] (utf8 "404 Not Found")

/-- The response to bytes that are no request. -/
def badRequest : List UInt8 :=
  renderHead (utf8 "HTTP/1.1 400 Bad Request")
    [⟨utf8 "Content-Length", utf8 "0"⟩, ⟨utf8 "Connection", utf8 "close"⟩]

/-- The site for a host: the one with that name, or else the first without one. -/
def selectSite (sites : List SiteConfig) (host : Text) : Option SiteConfig :=
  (sites.find? fun site => site.host = some host).or (sites.find? fun site => site.host = none)

/-- The site that answers a request. -/
def siteOf (sites : List SiteConfig) (headers : List Header) : Option SiteConfig :=
  selectSite sites ((getHeader headers (utf8 "Host")).getD (utf8 "localhost"))

/-- The request may pass the authorization of the site. -/
def authorized (crates : Crates) (site : SiteConfig) (headers : List Header) : Bool :=
  match site.basicAuth with
  | some (expected, _) => checkAuth crates.base64Decode headers expected
  | none => true

/-- `handle_request`, once the body has been read. -/
def respond (server : Server) (world : World) (req : HttpRequest) (body : List UInt8) : Handled :=
  if world.allowed then
    match siteOf server.sites req.headers with
    | none => ⟨[], .panicked⟩
    | some site =>
      if authorized server.crates site req.headers then
        match site.reverseProxy with
        | some upstream =>
          (reverseProxy server.crates.parseResponse req.method req.path req.headers body
            (world.upstream upstream) server.clientIp).toHandled
        | none =>
          if site.fileServer then
            fileServer server.crates world.fs req.method req.path req.headers
              (wantsKeepAlive req.headers) (site.root.getD defaultRoot) site.gzip
          else ⟨noHandler, .done⟩
      else ⟨write401, .done⟩
  else ⟨write429, .done⟩

/-! ## A connection -/

/-- The state of `serve_connection`, with a record of what it has done. -/
structure Conn where
  buffer : List UInt8
  stream : Stream
  /-- The requests that have been handled. -/
  requests : List HttpRequest
  /-- The bytes that have been written. -/
  written : List UInt8
  /-- How the function has returned. -/
  ended : Option Ending

/-- A new connection. -/
def Conn.start (s : Stream) : Conn := ⟨[], s, [], [], none⟩

/-- What the next round does with the buffer. -/
inductive Pending where
  /-- It handles a request with the given body. -/
  | request (req : HttpRequest) (body leftover : List UInt8) (rest : Stream)
  /-- It fails while it reads a body. -/
  | stuck (e : Ending)
  /-- It rejects what has arrived. -/
  | rejected (e : Text)
  /-- It reads. -/
  | more

/-- The head in the buffer, and the body behind it. -/
def pending (server : Server) (c : Conn) : Pending :=
  match server.crates.parseRequest c.buffer with
  | .incomplete => .more
  | .error e => .rejected e
  | .complete headerSize req =>
    match readBody c.stream (c.buffer.drop headerSize) req.headers with
    | .ok (body, leftover) rest => .request req body leftover rest
    | .error e => .stuck (.failed e)
    | .panic => .stuck .panicked
    | .waiting => .stuck .waiting

/-- One read, or the end of the connection; an idle connection is closed after
`IDLE_TIMEOUT`. -/
def readMore (c : Conn) : Conn :=
  match c.stream.reads, c.stream.ending with
  | r :: reads, ending => { c with buffer := c.buffer ++ r.1, stream := ⟨reads, ending⟩ }
  | [], .waiting => { c with ended := some .done }
  | [], .closed =>
    { c with
      ended :=
        if c.buffer = [] then some .done
        else some (.failed (.httpInvalidRequest (utf8 "incomplete request"))) }
  | [], .failed => { c with ended := some (.failed readError) }

/-- How the loop goes on when a request has been handled. -/
def afterHandling (keepAlive : Bool) : Ending → Option Ending
  | .done => if keepAlive then none else some .done
  | e => some e

/-- One round of the loop of `serve_connection`. -/
def serveRound (server : Server) (c : Conn) (world : World) : Conn :=
  match c.ended with
  | some _ => c
  | none =>
    match pending server c with
    | .request req body leftover rest =>
      let handled := respond server world req body
      { buffer := leftover
        stream := rest
        requests := c.requests ++ [req]
        written := c.written ++ handled.written
        ended := afterHandling (wantsKeepAlive req.headers) handled.ending }
    | .stuck e => { c with ended := some e }
    | .rejected e => { c with written := c.written ++ badRequest, ended := some (.failed (.io e)) }
    | .more => readMore c

end PpcaNetwork.Minicaddy
