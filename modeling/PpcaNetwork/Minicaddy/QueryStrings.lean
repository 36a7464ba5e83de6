import PpcaNetwork.Minicaddy.KeepAlive

/-!
# Query strings

`file_server` takes the whole target of a request for a path, with the query string if there is
one.

* `Names` — a path leads to something in the root.
* `SameService` — two paths select the same file and get the same status and body.
* `statusLine_fileServer_iff` — the status is 404 exactly if the path names nothing.
* `query_ignored_iff` — when a query string makes no difference.
-/

namespace PpcaNetwork.Minicaddy

open Http1

/-! ## What a path names -/

/-- A path leads to something in the root. -/
def Names (fs : FileSystem) (root path : Text) : Prop :=
  ∃ canon rootCanon, fs.canonicalize (joinPath root (path.dropWhile (· = 0x2F))) = some canon ∧
    fs.canonicalize root = some rootCanon ∧ rootCanon <+: canon

/-- No name in the root has a `?`: whatever is asked for with one is not there. -/
def PlainNames (fs : FileSystem) (root : Text) : Prop :=
  ∀ path, 0x3F ∈ path → ¬ Names fs root path

theorem safePath_eq_none_iff {fs : FileSystem} {root path : Text} :
    safePath fs root path = none ↔ ¬ Names fs root path := by
  unfold safePath Names
  cases fs.canonicalize (joinPath root (path.dropWhile (· = 0x2F))) with
  | none => simp
  | some canon =>
    cases fs.canonicalize root with
    | none => simp
    | some rootCanon => simp [List.isPrefixOf_iff_prefix]

/-- Only slashes are cut off when a path is joined to the root. -/
theorem mem_joinPath {root path : Text} {b : UInt8} (hb : b ≠ 0x2F) (h : b ∈ path) :
    b ∈ joinPath root (path.dropWhile (· = 0x2F)) := by
  have hrest : b ∈ path.dropWhile (· = 0x2F) := by
    rw [← List.takeWhile_append_dropWhile (p := (· = 0x2F)) (l := path), List.mem_append] at h
    refine h.resolve_left fun hslash => hb ?_
    simpa using List.mem_takeWhile_imp hslash
  unfold joinPath
  split
  · exact List.mem_append_right _ hrest
  · exact List.mem_append_right _ hrest

/-! ## What a response says -/

/-- The first line of a response. -/
def statusLine (s : List UInt8) : List UInt8 := s.takeWhile (· ≠ 0x0D)

/-- What stands behind the empty line. -/
def bodyOf (s : List UInt8) : List UInt8 :=
  match findSub crlfcrlf s with
  | some i => s.drop (i + 4)
  | none => []

theorem statusLine_renderHead {start : List UInt8} (h : 0x0D ∉ start) (fields : List Field)
    (rest : List UInt8) : statusLine (renderHead start fields ++ rest) = start := by
  have hall : ∀ b ∈ start, (b ≠ 0x0D : Bool) = true := by
    intro b hb
    exact decide_eq_true fun heq => h (heq ▸ hb)
  rw [renderHead, statusLine, crlf]
  simp only [List.append_assoc, List.cons_append]
  rw [List.takeWhile_append_of_pos hall, List.takeWhile_cons_of_neg (by decide), List.append_nil]

section

variable (crates : Crates) (fs : FileSystem) (root method : Text) (headers : List Header)
  (keepAlive enableGzip : Bool)

/-- The status lines of the responses for something that is there; there may be no response. -/
def foundLines : List (List UInt8) :=
  [[], utf8 "HTTP/1.1 200 OK", utf8 "HTTP/1.1 206 Partial Content",
    utf8 "HTTP/1.1 304 Not Modified", utf8 "HTTP/1.1 416 Range Not Satisfiable"]

/-- A response with one of these lines. -/
theorem statusLine_found {start : List UInt8} (hmem : start ∈ foundLines) (fields : List Field)
    (rest : List UInt8) : statusLine (renderHead start fields ++ rest) ∈ foundLines := by
  have hline : ∀ line ∈ foundLines, 0x0D ∉ line := by decide +kernel
  rw [statusLine_renderHead (hline start hmem)]
  exact hmem

theorem statusLine_serveDirectory (req : FileRequest) (html : Text) :
    statusLine (serveDirectory crates req html) ∈ foundLines := by
  have hok : utf8 "HTTP/1.1 200 OK" ∈ foundLines := by decide +kernel
  unfold serveDirectory
  split
  · exact statusLine_found hok _ _
  · exact statusLine_found hok _ _

theorem statusLine_serveRange (req : FileRequest) (file : File) (ct etag : Text)
    (start last : Nat) :
    statusLine (serveRange req file ct etag start last).written ∈ foundLines := by
  rw [serveRange]
  split
  · exact List.mem_cons_self
  · exact statusLine_found (by decide +kernel) _ _

theorem statusLine_serveFile (req : FileRequest) (target : FsPath) (file : File) (secs : Nat) :
    statusLine (serveFile crates req target file secs).written ∈ foundLines := by
  have hok : utf8 "HTTP/1.1 200 OK" ∈ foundLines := by decide +kernel
  have hunchanged : utf8 "HTTP/1.1 304 Not Modified" ∈ foundLines := by decide +kernel
  have houtside : utf8 "HTTP/1.1 416 Range Not Satisfiable" ∈ foundLines := by decide +kernel
  rw [serveFile]
  split
  · rw [notModified, ← List.append_nil (renderHead _ _)]
    exact statusLine_found hunchanged _ _
  · split
    · split
      · exact statusLine_serveRange req file _ _ _ _
      · rw [rangeNotSatisfiable, ← List.append_nil (renderHead _ _)]
        exact statusLine_found houtside _ _
    · split
      · exact statusLine_found hok _ _
      · exact statusLine_found hok _ _

/-- The status is 404 exactly if the path names nothing. -/
theorem statusLine_fileServer_iff (path : Text) :
    statusLine (fileServer crates fs method path headers keepAlive root enableGzip).written =
        utf8 "HTTP/1.1 404 Not Found" ↔ ¬ Names fs root path := by
  have hfound : ∀ line ∈ foundLines, line ≠ utf8 "HTTP/1.1 404 Not Found" := by decide +kernel
  rw [← safePath_eq_none_iff]
  unfold fileServer
  cases htarget : safePath fs root path with
  | none => exact iff_of_true (statusLine_renderHead (by decide +kernel) _ _) rfl
  | some target =>
    refine iff_of_false (hfound _ ?_) (Option.some_ne_none target)
    dsimp only
    split
    · exact statusLine_serveDirectory crates _ _
    · split
      · exact List.mem_cons_self
      · split
        · exact List.mem_cons_self
        · exact statusLine_serveFile crates _ target _ _

/-! ## Two paths -/

/-- Two paths select the same file or directory, with the same status and the same body. -/
structure SameService (path path' : Text) : Prop where
  selected : safePath fs root path' = safePath fs root path
  status :
    statusLine (fileServer crates fs method path' headers keepAlive root enableGzip).written =
      statusLine (fileServer crates fs method path headers keepAlive root enableGzip).written
  body :
    bodyOf (fileServer crates fs method path' headers keepAlive root enableGzip).written =
      bodyOf (fileServer crates fs method path headers keepAlive root enableGzip).written

/-- **When a query string makes no difference.**  In a root where no name has a `?`: exactly if
there is nothing at the path. -/
theorem query_ignored_iff (hplain : PlainNames fs root) (path query : Text) :
    SameService crates fs root method headers keepAlive enableGzip path (path ++ 0x3F :: query) ↔
      ¬ Names fs root path := by
  have hquery : ¬ Names fs root (path ++ 0x3F :: query) := hplain _ (by simp)
  constructor
  · intro hsame
    rw [← statusLine_fileServer_iff crates fs root method headers keepAlive enableGzip path,
      ← hsame.status, statusLine_fileServer_iff]
    exact hquery
  · intro hnone
    have hpath := safePath_eq_none_iff.mpr hnone
    have hpath' := safePath_eq_none_iff.mpr hquery
    have hserved : fileServer crates fs method (path ++ 0x3F :: query) headers keepAlive root
        enableGzip = fileServer crates fs method path headers keepAlive root enableGzip := by
      rw [fileServer, fileServer, hpath, hpath']
    exact ⟨hpath'.trans hpath.symm, by rw [hserved], by rw [hserved]⟩

end

/-! ## The site of the demo -/

theorem demoFiles_plain : PlainNames demoFiles (utf8 "./www") := by
  have hnames : 0x3F ∉ utf8 "./www" ∧ 0x3F ∉ utf8 "./www/a.css" := by decide +kernel
  rintro path hpath ⟨canon, rootCanon, hcanon, -⟩
  have hmem := @mem_joinPath (utf8 "./www") _ _ (by decide) hpath
  unfold demoFiles at hcanon
  dsimp only at hcanon
  split at hcanon
  · rename_i hroot
    exact hnames.1 (hroot ▸ hmem)
  · split at hcanon
    · rename_i hfile
      exact hnames.2 (hfile ▸ hmem)
    · cases hcanon

theorem demo_query_ignored :
    SameService demoCrates demoFiles (utf8 "./www") (utf8 "GET") [] true false (utf8 "/none")
      (utf8 "/none" ++ 0x3F :: utf8 "v=1") :=
  (query_ignored_iff demoCrates demoFiles (utf8 "./www") (utf8 "GET") [] true false
    demoFiles_plain (utf8 "/none") (utf8 "v=1")).mpr
    (safePath_eq_none_iff.mp (by decide +kernel))

/-- The style sheet is found, but not with a version behind it. -/
theorem demo_version_not_found :
    PlainNames demoFiles (utf8 "./www") ∧
      statusLine (fileServer demoCrates demoFiles (utf8 "GET") (utf8 "/a.css") [] true
        (utf8 "./www") false).written = utf8 "HTTP/1.1 200 OK" ∧
      statusLine (fileServer demoCrates demoFiles (utf8 "GET")
        (utf8 "/a.css" ++ 0x3F :: utf8 "v=1") [] true (utf8 "./www") false).written
        = utf8 "HTTP/1.1 404 Not Found" := by
  refine ⟨demoFiles_plain, ?_, ?_⟩
  · decide +kernel
  · decide +kernel

end PpcaNetwork.Minicaddy
