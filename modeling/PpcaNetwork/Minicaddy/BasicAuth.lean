import PpcaNetwork.Lib.Base64
import PpcaNetwork.Minicaddy.KeepAlive

/-!
# Basic authorization

What stands behind a site with `basic_auth` cannot be seen without its credentials.

* `ctEq_iff` — the loop of `ct_eq` compares.
* `checkAuth_iff` — what `check_auth` accepts.
* `Traced` — the handlers, with a record of what they ask of the file system and the network.
* `handleRequest` — the whole of `handle_request`.
* `basic_auth_gates` — without credentials there is nothing to see.
* `run_gated` — the same for a whole connection.
-/

namespace PpcaNetwork.Minicaddy

open Http1

/-! ## Comparing -/

/-- The differences add up to nothing only if there are none. -/
theorem foldl_xor_eq_zero_iff {a b : List UInt8} (h : a.length = b.length) (diff : UInt8) :
    (a.zip b).foldl (fun diff xy => diff ||| (xy.1 ^^^ xy.2)) diff = 0 ↔ diff = 0 ∧ a = b := by
  induction a generalizing b diff with
  | nil =>
    obtain rfl := List.length_eq_zero_iff.mp h.symm
    simp
  | cons x a ih =>
    cases b with
    | nil => cases h
    | cons y b =>
      rw [List.zip_cons_cons, List.foldl_cons, ih (Nat.succ.inj h), UInt8.or_eq_zero_iff,
        UInt8.xor_eq_zero_iff, and_assoc, List.cons.injEq]

/-- The loop over the differences is a comparison. -/
theorem ctEq_iff {a b : List UInt8} : ctEq a b = true ↔ a = b := by
  unfold ctEq
  split
  · rename_i hlength
    simp only [Bool.false_eq_true, false_iff]
    exact fun heq => hlength (congrArg List.length heq)
  · rename_i hlength
    rw [decide_eq_true_eq, foldl_xor_eq_zero_iff (not_not.mp hlength)]
    exact and_iff_right rfl

/-! ## Credentials -/

/-- The first `Authorization` field has the user and the password. -/
def Credentials (headers : List Header) (expected : Text) : Prop :=
  (headers.find? fun h => SameText h.name (utf8 "Authorization")).map (·.value) =
    some (utf8 "Basic " ++ Base64.encode expected)

instance (headers : List Header) (expected : Text) : Decidable (Credentials headers expected) :=
  inferInstanceAs (Decidable (_ = _))

theorem checkAuth_eq_true_iff {decode : Text → Option (List UInt8)} {headers : List Header}
    {expected : Text} :
    checkAuth decode headers expected = true ↔
      ∃ encoded, getHeader headers (utf8 "Authorization") = some (utf8 "Basic " ++ encoded) ∧
        decode encoded = some expected := by
  have hfound : ∀ encoded, (getHeader headers (utf8 "Authorization")).bind
      (stripPrefix (utf8 "Basic ")) = some encoded ↔
        getHeader headers (utf8 "Authorization") = some (utf8 "Basic " ++ encoded) := by
    intro encoded
    simp only [Option.bind_eq_some_iff, stripPrefix_eq_some_iff, exists_eq_right]
  simp only [← hfound]
  unfold checkAuth
  cases (getHeader headers (utf8 "Authorization")).bind (stripPrefix (utf8 "Basic ")) with
  | none => simp
  | some encoded =>
    dsimp only
    cases hdecoded : decode encoded with
    | none => simp [hdecoded]
    | some decoded => simp [hdecoded, ctEq_iff]

/-- The bytes of a value with credentials are ASCII. -/
theorem isUtf8_credentials (expected : Text) :
    isUtf8 (utf8 "Basic " ++ Base64.encode expected) = true := by
  have hbasic : ∀ b ∈ utf8 "Basic ", b < 0x80 := by decide +kernel
  refine isUtf8_of_ascii fun b hb => ?_
  rcases List.mem_append.mp hb with hb | hb
  · exact hbasic b hb
  · exact Base64.encode_ascii expected b hb

/-- What `check_auth` accepts. -/
theorem checkAuth_iff {decode : Text → Option (List UInt8)} (hdecode : Base64.IsDecoder decode)
    {headers : List Header} {expected : Text} :
    checkAuth decode headers expected = true ↔ Credentials headers expected := by
  rw [checkAuth_eq_true_iff]
  constructor
  · rintro ⟨encoded, hheader, hdecoded⟩
    obtain rfl := (hdecode encoded expected).mp hdecoded
    exact (getHeader_eq_some_iff.mp hheader).1
  · intro hcredentials
    refine ⟨Base64.encode expected, ?_, (hdecode _ _).mpr rfl⟩
    exact getHeader_eq_some_iff.mpr ⟨hcredentials, isUtf8_credentials expected⟩

/-! ## What is asked of the world -/

/-- A question to the file system or the network. -/
inductive Access where
  | canonicalize (path : Text)
  | isDir (path : FsPath)
  | readDir (path : FsPath)
  | openFile (path : FsPath)
  | connect (upstream : Text)
  deriving DecidableEq

/-- A result, and what has been asked on the way. -/
structure Traced (α : Type) where
  accesses : List Access
  result : α

namespace Traced

variable {α β : Type}

instance : Monad Traced where
  pure a := ⟨[], a⟩
  bind x f := ⟨x.accesses ++ (f x.result).accesses, (f x.result).result⟩

/-- A question and its answer. -/
def ask (a : Access) (answer : α) : Traced α := ⟨[a], answer⟩

@[simp] theorem result_pure (a : α) : (pure a : Traced α).result = a := rfl

@[simp] theorem result_bind (x : Traced α) (f : α → Traced β) :
    (x >>= f).result = (f x.result).result := rfl

@[simp] theorem result_ask (a : Access) (answer : α) : (ask a answer).result = answer := rfl

/-- `safe_path`. -/
def safePath (fs : FileSystem) (root path : Text) : Traced (Option FsPath) := do
  let target := joinPath root (path.dropWhile (· = 0x2F))
  match ← ask (.canonicalize target) (fs.canonicalize target) with
  | none => pure none
  | some canon =>
    match ← ask (.canonicalize root) (fs.canonicalize root) with
    | none => pure none
    | some rootCanon => pure (if rootCanon.isPrefixOf canon then some canon else none)

/-- `file_server`. -/
def fileServer (crates : Crates) (fs : FileSystem) (method path : Text) (headers : List Header)
    (keepAlive : Bool) (root : Text) (enableGzip : Bool) : Traced Handled := do
  let req := fileRequest method headers keepAlive enableGzip
  match ← safePath fs root path with
  | none => pure ⟨notFound req.conn, .done⟩
  | some target =>
    if ← ask (.isDir target) (fs.isDir target) then
      let entries ← ask (.readDir target) (fs.readDir target)
      pure ⟨serveDirectory crates req (dirListingHtml entries path), .done⟩
    else
      match ← ask (.openFile target) (fs.openFile target) with
      | .error e => pure ⟨[], .failed (.io e)⟩
      | .ok file =>
        match file.mtimeSecs with
        | none => pure ⟨[], .panicked⟩
        | some secs => pure (serveFile crates req target file secs)

/-- `handle_request`, once the body has been read. -/
def respond (server : Server) (world : World) (req : HttpRequest) (body : List UInt8) :
    Traced Handled :=
  if world.allowed then
    match siteOf server.sites req.headers with
    | none => pure ⟨[], .panicked⟩
    | some site =>
      if authorized server.crates site req.headers then
        match site.reverseProxy with
        | some addr => do
          let upstream ← ask (.connect addr) (world.upstream addr)
          pure (reverseProxy server.crates.parseResponse req.method req.path req.headers body
            upstream server.clientIp).toHandled
        | none =>
          if site.fileServer then
            fileServer server.crates world.fs req.method req.path req.headers
              (wantsKeepAlive req.headers) (site.root.getD defaultRoot) site.gzip
          else pure ⟨noHandler, .done⟩
      else pure ⟨write401, .done⟩
  else pure ⟨write429, .done⟩

@[simp] theorem safePath_result (fs : FileSystem) (root path : Text) :
    (safePath fs root path).result = Minicaddy.safePath fs root path := by
  unfold safePath Minicaddy.safePath
  dsimp only
  rw [result_bind, result_ask]
  cases fs.canonicalize (joinPath root (path.dropWhile (· = 0x2F))) with
  | none => rfl
  | some canon =>
    dsimp only
    rw [result_bind, result_ask]
    cases fs.canonicalize root <;> rfl

@[simp] theorem fileServer_result (crates : Crates) (fs : FileSystem) (method path : Text)
    (headers : List Header) (keepAlive : Bool) (root : Text) (enableGzip : Bool) :
    (fileServer crates fs method path headers keepAlive root enableGzip).result =
      Minicaddy.fileServer crates fs method path headers keepAlive root enableGzip := by
  unfold fileServer Minicaddy.fileServer
  dsimp only
  rw [result_bind, safePath_result]
  cases Minicaddy.safePath fs root path with
  | none => rfl
  | some target =>
    dsimp only
    rw [result_bind, result_ask]
    by_cases hdir : fs.isDir target = true
    · rw [if_pos hdir, if_pos hdir]
      rfl
    · rw [if_neg hdir, if_neg hdir, result_bind, result_ask]
      cases fs.openFile target with
      | error e => rfl
      | ok file =>
        dsimp only
        cases file.mtimeSecs <;> rfl

/-- The record changes nothing. -/
theorem respond_result (server : Server) (world : World) (req : HttpRequest) (body : List UInt8) :
    (respond server world req body).result = Minicaddy.respond server world req body := by
  unfold respond Minicaddy.respond
  by_cases hallowed : world.allowed = true
  · rw [if_pos hallowed, if_pos hallowed]
    cases siteOf server.sites req.headers with
    | none => rfl
    | some site =>
      dsimp only
      by_cases hauth : authorized server.crates site req.headers = true
      · rw [if_pos hauth, if_pos hauth]
        cases site.reverseProxy with
        | some addr => rfl
        | none =>
          dsimp only
          by_cases hfiles : site.fileServer = true
          · rw [if_pos hfiles, if_pos hfiles, fileServer_result]
          · rw [if_neg hfiles, if_neg hfiles, result_pure]
      · rw [if_neg hauth, if_neg hauth, result_pure]
  · rw [if_neg hallowed, if_neg hallowed, result_pure]

end Traced

/-! ## A request -/

/-- `handle_request`: what it writes, and how it ends. -/
def handleRequest (server : Server) (world : World) (req : HttpRequest) (s : Stream)
    (bodyPrefix : List UInt8) : Handled :=
  match readBody s bodyPrefix req.headers with
  | .ok (body, _) _ => respond server world req body
  | .error e => ⟨[], .failed e⟩
  | .panic => ⟨[], .panicked⟩
  | .waiting => ⟨[], .waiting⟩

/-- What `handle_request` asks on the way. -/
def accessesOf (server : Server) (world : World) (req : HttpRequest) (s : Stream)
    (bodyPrefix : List UInt8) : List Access :=
  match readBody s bodyPrefix req.headers with
  | .ok (body, _) _ => (Traced.respond server world req body).accesses
  | _ => []

section

variable {server : Server} {req : HttpRequest} {site : SiteConfig} {expected realm : Text}

/-- A request without credentials is answered by the rate limiter or with 401, and nothing is
asked. -/
theorem respond_of_not_credentials (hdecode : Base64.IsDecoder server.crates.base64Decode)
    (hsite : siteOf server.sites req.headers = some site)
    (hauth : site.basicAuth = some (expected, realm)) (hnot : ¬ Credentials req.headers expected)
    (world : World) (body : List UInt8) :
    Traced.respond server world req body =
      ⟨[], if world.allowed then ⟨write401, .done⟩ else ⟨write429, .done⟩⟩ := by
  have hrefused : ¬ authorized server.crates site req.headers = true := by
    rw [authorized, hauth]
    exact fun h => hnot ((checkAuth_iff hdecode).mp h)
  unfold Traced.respond
  by_cases hallowed : world.allowed = true
  · rw [if_pos hallowed, if_pos hallowed, hsite]
    exact if_neg hrefused
  · rw [if_neg hallowed, if_neg hallowed]
    rfl

/-- It is answered alike in two worlds, if the rate limiter lets it through in both. -/
theorem respond_eq_of_not_credentials (hdecode : Base64.IsDecoder server.crates.base64Decode)
    (hsite : siteOf server.sites req.headers = some site)
    (hauth : site.basicAuth = some (expected, realm)) (hnot : ¬ Credentials req.headers expected)
    {world world' : World} (hallowed : world.allowed = world'.allowed) (body : List UInt8) :
    respond server world req body = respond server world' req body := by
  have hrespond := respond_of_not_credentials hdecode hsite hauth hnot
  rw [← Traced.respond_result, ← Traced.respond_result, hrespond, hrespond, hallowed]

/-- **Authorization gates everything behind it.**  `check_auth` accepts exactly the credentials of
the site, and without them what is written does not depend on the file system or on any upstream
server, of which nothing is asked. -/
theorem basic_auth_gates (hdecode : Base64.IsDecoder server.crates.base64Decode)
    (hsite : siteOf server.sites req.headers = some site)
    (hauth : site.basicAuth = some (expected, realm)) :
    (checkAuth server.crates.base64Decode req.headers expected = true ↔
      Credentials req.headers expected) ∧
    (¬ Credentials req.headers expected →
      ∀ (s : Stream) (bodyPrefix : List UInt8) (world world' : World),
        world.allowed = world'.allowed →
          handleRequest server world req s bodyPrefix =
              handleRequest server world' req s bodyPrefix ∧
          accessesOf server world req s bodyPrefix = []) := by
  refine ⟨checkAuth_iff hdecode, fun hnot s bodyPrefix world world' hallowed => ?_⟩
  unfold handleRequest accessesOf
  cases readBody s bodyPrefix req.headers with
  | ok result rest =>
    refine ⟨respond_eq_of_not_credentials hdecode hsite hauth hnot hallowed result.1, ?_⟩
    dsimp only
    rw [respond_of_not_credentials hdecode hsite hauth hnot]
  | error e => exact ⟨rfl, rfl⟩
  | panic => exact ⟨rfl, rfl⟩
  | waiting => exact ⟨rfl, rfl⟩

/-! ## A connection -/

/-- The request is for a site whose credentials it does not have. -/
def Gated (server : Server) (req : HttpRequest) : Prop :=
  ∃ site expected realm, siteOf server.sites req.headers = some site ∧
    site.basicAuth = some (expected, realm) ∧ ¬ Credentials req.headers expected

/-- A round with such a request goes the same way in two worlds. -/
theorem serveRound_gated (hdecode : Base64.IsDecoder server.crates.base64Decode) {c : Conn}
    (hgated : ∀ req body leftover rest,
      pending server c = .request req body leftover rest → Gated server req)
    {world world' : World} (hallowed : world.allowed = world'.allowed) :
    serveRound server c world = serveRound server c world' := by
  unfold serveRound
  cases c.ended with
  | some e => rfl
  | none =>
    cases hpending : pending server c with
    | request req body leftover rest =>
      obtain ⟨site, expected, realm, hsite, hauth, hnot⟩ := hgated req body leftover rest hpending
      dsimp only
      rw [respond_eq_of_not_credentials hdecode hsite hauth hnot hallowed body]
    | stuck e => rfl
    | rejected e => rfl
    | more => rfl

/-- So does a whole connection on which there are no other requests. -/
theorem run_gated (hdecode : Base64.IsDecoder server.crates.base64Decode)
    {worlds worlds' : List World}
    (hallowed : List.Forall₂ (fun world world' => world.allowed = world'.allowed) worlds worlds')
    {c : Conn}
    (hgated : Run.Guarded (serveRound server) (fun c _ => ∀ req body leftover rest,
      pending server c = .request req body leftover rest → Gated server req) c worlds) :
    run (serveRound server) c worlds = run (serveRound server) c worlds' := by
  induction hallowed generalizing c with
  | nil => rfl
  | cons hworld _ ih =>
    rw [Run.run_cons, Run.run_cons, ← serveRound_gated hdecode hgated.1 hworld]
    exact ih hgated.2

end

/-! ## A site with a password -/

/-- A server with a password on its only site. -/
def demoGatedServer : Server where
  crates := { demoCrates with base64Decode := Base64.decode }
  sites := [⟨none, none, true, false, none, some (utf8 "admin:secret", utf8 "Staging")⟩]
  clientIp := ⟨127, 0, 0, 1⟩

/-- The root directory is gone. -/
def demoEmptyWorld : World where
  fs := ⟨fun _ => none, fun _ => false, fun _ => none, fun _ => .error (utf8 "not found")⟩
  allowed := true
  upstream _ := .refused (utf8 "Connection refused")

theorem demo_auth_gates :
    checkAuth Base64.decode [⟨utf8 "Authorization", utf8 "Basic YWRtaW46c2VjcmV0"⟩]
        (utf8 "admin:secret") = true ∧
      handleRequest demoGatedServer demoWorld demoGet ⟨[], .waiting⟩ [] =
        handleRequest demoGatedServer demoEmptyWorld demoGet ⟨[], .waiting⟩ [] ∧
      accessesOf demoGatedServer demoWorld demoGet ⟨[], .waiting⟩ [] = [] := by
  have hgates := @basic_auth_gates demoGatedServer demoGet _ _ _ Base64.isDecoder_decode rfl rfl
  refine ⟨?_, hgates.2 ?_ ⟨[], .waiting⟩ [] demoWorld demoEmptyWorld rfl⟩
  · exact (checkAuth_iff Base64.isDecoder_decode).mpr (by decide +kernel)
  · decide +kernel

end PpcaNetwork.Minicaddy
