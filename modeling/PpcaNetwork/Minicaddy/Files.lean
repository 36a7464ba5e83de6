import PpcaNetwork.Minicaddy.ReadBody

/-!
# The file server

`file_server` of `minicaddy/src/inbounds/http_files.rs` over an arbitrary file
system, and the functions of `http_proto.rs` that it uses.

* `FileSystem` and `File` — what the operating system answers.
* `safePath`, `mimeType`, `etagFor`, `formatHttpDate`, `parseRange`,
  `dirListingHtml`.
* `fileServer` — the handler, a directory and a file at a time.

Unsigned arithmetic wraps around, as it does in a release build.
-/

namespace PpcaNetwork.Minicaddy

open Http1

/-! ## The file system -/

/-- A path without `.`, `..` and symbolic links: its components. -/
abbrev FsPath := List Text

/-- An entry of a directory. -/
structure DirEntry where
  /-- Its name, as `to_string_lossy` shows it. -/
  name : Text
  isDir : Bool
  deriving DecidableEq, Repr

/-- An open file. -/
structure File where
  contents : List UInt8
  /-- The file size is an `off_t`. -/
  size_lt : contents.length < 2 ^ 63
  /-- When it was last modified, in seconds since 1970. -/
  mtime : Int

/-- `metadata.len()`. -/
def File.size (file : File) : Nat := file.contents.length

/-- What the operating system answers. -/
structure FileSystem where
  /-- `canonicalize`, if the path exists. -/
  canonicalize : Text → Option FsPath
  isDir : FsPath → Bool
  readDir : FsPath → Option (List DirEntry)
  /-- Opening a file and asking for its metadata. -/
  openFile : FsPath → Except Text File

/-- What `gmtime_r` fills in. -/
structure Tm where
  wday : Fin 7
  mday : Nat
  mon : Fin 12
  /-- Years since 1900. -/
  year : Nat
  hour : Nat
  min : Nat
  sec : Nat

/-! ## Paths -/

/-- `Path::join` with a path that does not start with `/`. -/
def joinPath (root path : Text) : Text :=
  if root = [] ∨ root.getLast? = some 0x2F then root ++ path else root ++ utf8 "/" ++ path

/-- `safe_path`: the path, if it lies below the root once both are canonical. -/
def safePath (fs : FileSystem) (root path : Text) : Option FsPath :=
  match fs.canonicalize (joinPath root (path.dropWhile (· = 0x2F))) with
  | none => none
  | some canon =>
    match fs.canonicalize root with
    | none => none
    | some rootCanon => if rootCanon.isPrefixOf canon then some canon else none

/-- `Path::extension`: what stands behind the last dot of the file name, if
something stands before it. -/
def extension (path : FsPath) : Option Text :=
  match path.getLast? with
  | none => none
  | some name =>
    match name.reverse.dropWhile (· ≠ 0x2E) with
    | [] => none
    | _ :: before =>
      if before = [] then none else some (name.reverse.takeWhile (· ≠ 0x2E)).reverse

/-- The table of `mime_type`. -/
def mimeTypes : List (Text × Text) :=
  [(utf8 "html", utf8 "text/html; charset=utf-8"), (utf8 "htm", utf8 "text/html; charset=utf-8"),
    (utf8 "css", utf8 "text/css"),
    (utf8 "js", utf8 "application/javascript"),
    (utf8 "json", utf8 "application/json"),
    (utf8 "png", utf8 "image/png"),
    (utf8 "jpg", utf8 "image/jpeg"), (utf8 "jpeg", utf8 "image/jpeg"),
    (utf8 "gif", utf8 "image/gif"),
    (utf8 "svg", utf8 "image/svg+xml"),
    (utf8 "pdf", utf8 "application/pdf"),
    (utf8 "ico", utf8 "image/x-icon"),
    (utf8 "wasm", utf8 "application/wasm")]

/-- `mime_type`: by the extension. -/
def mimeType (path : FsPath) : Text :=
  ((extension path).bind fun e => mimeTypes.lookup e).getD (utf8 "application/octet-stream")

/-- `is_compressible`. -/
def isCompressible (ct : Text) : Bool :=
  (utf8 "text/").isPrefixOf ct || containsSub (utf8 "javascript") ct ||
    containsSub (utf8 "json") ct || containsSub (utf8 "xml") ct || containsSub (utf8 "svg") ct

/-! ## Dates and ranges -/

/-- `duration_since(UNIX_EPOCH).unwrap().as_secs()`, which panics for a time
before 1970. -/
def File.mtimeSecs (file : File) : Option Nat :=
  if 0 ≤ file.mtime then some file.mtime.toNat else none

/-- `{:02}`. -/
def twoDigits (n : Nat) : Text := if n < 10 then utf8 "0" ++ decimal n else decimal n

/-- The days of the week, from Sunday. -/
def dayNames : List Text :=
  [utf8 "Sun", utf8 "Mon", utf8 "Tue", utf8 "Wed", utf8 "Thu", utf8 "Fri", utf8 "Sat"]

/-- The months. -/
def monthNames : List Text :=
  [utf8 "Jan", utf8 "Feb", utf8 "Mar", utf8 "Apr", utf8 "May", utf8 "Jun",
    utf8 "Jul", utf8 "Aug", utf8 "Sep", utf8 "Oct", utf8 "Nov", utf8 "Dec"]

/-- `format_http_date`, for the time that `gmtime_r` has broken down. -/
def formatHttpDate (tm : Tm) : Text :=
  dayNames.getD tm.wday [] ++ utf8 ", " ++ twoDigits tm.mday ++ utf8 " " ++
    monthNames.getD tm.mon [] ++ utf8 " " ++ decimal (tm.year + 1900) ++ utf8 " " ++
    twoDigits tm.hour ++ utf8 ":" ++ twoDigits tm.min ++ utf8 ":" ++ twoDigits tm.sec ++
    utf8 " GMT"

/-- `etag_for`: the time and the size in hexadecimal. -/
def etagFor (mtime size : Nat) : Text :=
  utf8 "W/\"" ++ formatRadix 16 mtime ++ utf8 "-" ++ formatRadix 16 size ++ utf8 "\""

/-- `str::split_once`. -/
def splitOnce (c : UInt8) (s : Text) : Option (Text × Text) :=
  match s.dropWhile (· ≠ c) with
  | [] => none
  | _ :: after => some (s.takeWhile (· ≠ c), after)

/-- The bytes of a file that a suffix range of `n` bytes asks for; the first
position wraps around if the file is shorter. -/
def suffixRange (n fileSize : Nat) : Option (Nat × Nat) :=
  if n = 0 ∨ fileSize = 0 then none else some ((fileSize + 2 ^ 64 - n) % 2 ^ 64, fileSize - 1)

/-- The last byte that a range asks for, given the text behind the hyphen. -/
def rangeEnd (endStr : Text) (fileSize : Nat) : Option Nat :=
  if trim endStr = [] then some (fileSize - 1)
  else (parseUint 10 maxU64 (trim endStr)).map fun n => min n (fileSize - 1)

/-- `parse_range`: the first and the last byte. -/
def parseRange (val : Text) (fileSize : Nat) : Option (Nat × Nat) :=
  match (stripPrefix (utf8 "bytes=") val).bind (splitOnce 0x2D) with
  | none => none
  | some (startStr, endStr) =>
    if trim startStr = [] then
      (parseUint 10 maxU64 (trim endStr)).bind fun n => suffixRange n fileSize
    else
      match parseUint 10 maxU64 (trim startStr) with
      | none => none
      | some start =>
        if fileSize = 0 ∨ fileSize ≤ start then none
        else
          match rangeEnd endStr fileSize with
          | none => none
          | some last => if start ≤ last then some (start, last) else none

/-! ## Directories -/

/-- The line of an entry. -/
def entryLine (base : Text) (entry : DirEntry) : Text :=
  if entry.isDir then
    utf8 "<a href=\"" ++ base ++ utf8 "/" ++ entry.name ++ utf8 "/\">" ++ entry.name ++
      utf8 "/</a>"
  else
    utf8 "<a href=\"" ++ base ++ utf8 "/" ++ entry.name ++ utf8 "\">" ++ entry.name ++ utf8 "</a>"

/-- `dir_listing_html`: the lines of the entries, sorted. -/
def dirListingHtml (entries : Option (List DirEntry)) (requestPath : Text) : Text :=
  let base := trimEndMatches 0x2F requestPath
  let names := ((entries.getD []).map (entryLine base)).insertionSort (· ≤ ·)
  utf8 "<!DOCTYPE html>\n<html><head><title>Index of " ++ requestPath ++
    utf8 "</title></head>\n<body>\n<h1>Index of " ++ requestPath ++
    utf8 "</h1>\n<hr>\n<pre>\n" ++ names.flatMap (· ++ utf8 "\n") ++
    utf8 "</pre>\n<hr>\n</body>\n</html>"

/-! ## The handler -/

/-- A `Vec<u8>`, which has at most `isize::MAX` bytes. -/
abbrev Vec := { bytes : List UInt8 // bytes.length < 2 ^ 63 }

/-- The functions of other crates that the handlers call. -/
structure Crates where
  /-- `httparse::Request::parse`. -/
  parseRequest : List UInt8 → ParseStatus HttpRequest
  /-- `httparse::Response::parse`. -/
  parseResponse : List UInt8 → ParseStatus Unit
  base64Decode : Text → Option (List UInt8)
  /-- `GzEncoder`, writing into memory. -/
  gzip : List UInt8 → Vec
  gmtime : Nat → Tm

/-- What the handler knows about a request. -/
structure FileRequest where
  headers : List Header
  /-- The value of `Connection`. -/
  conn : Text
  isHead : Bool
  wantsGzip : Bool

/-- What `file_server` reads from a request before it looks at the file. -/
def fileRequest (method : Text) (headers : List Header) (keepAlive enableGzip : Bool) :
    FileRequest where
  headers := headers
  conn := if keepAlive then utf8 "keep-alive" else utf8 "close"
  isHead := SameText method (utf8 "HEAD")
  wantsGzip := enableGzip &&
    ((getHeader headers (utf8 "Accept-Encoding")).map (containsSub (utf8 "gzip"))).getD false

/-- The response for a path that does not exist. -/
def notFound (conn : Text) : List UInt8 :=
  renderHead (utf8 "HTTP/1.1 404 Not Found")
    [⟨utf8 "Content-Length", utf8 "9"⟩, ⟨utf8 "Connection", conn⟩] ++ utf8 "Not Found"

/-- The head of a compressed response. -/
def gzipHead (ct conn : Text) : List UInt8 :=
  renderHead (utf8 "HTTP/1.1 200 OK")
    [⟨utf8 "Content-Type", ct⟩,
      ⟨utf8 "Transfer-Encoding", utf8 "chunked"⟩, ⟨utf8 "Content-Encoding", utf8 "gzip"⟩,
      ⟨utf8 "Vary", utf8 "Accept-Encoding"⟩, ⟨utf8 "Connection", conn⟩]

/-- The body of a compressed response. -/
def gzipBody (crates : Crates) (data : List UInt8) : List UInt8 :=
  writeChunk (crates.gzip data).1 ++ writeLastChunk

/-- The response for a directory. -/
def serveDirectory (crates : Crates) (req : FileRequest) (html : Text) : List UInt8 :=
  if req.wantsGzip then
    gzipHead (utf8 "text/html; charset=utf-8") req.conn ++
      if req.isHead then [] else gzipBody crates html
  else
    renderHead (utf8 "HTTP/1.1 200 OK")
      [⟨utf8 "Content-Type", utf8 "text/html; charset=utf-8"⟩,
        ⟨utf8 "Content-Length", decimal html.length⟩, ⟨utf8 "Connection", req.conn⟩] ++
      if req.isHead then [] else html

/-- The error of a seek to a position that is negative as an `off_t`. -/
def seekError : ProxyError := .io (utf8 "Invalid argument")

/-- `end - start + 1`. -/
def rangeLen (start last : Nat) : Nat := (last + 2 ^ 64 - start + 1) % 2 ^ 64

/-- The response for a range of a file. -/
def serveRange (req : FileRequest) (file : File) (ct etag : Text) (start last : Nat) : Handled :=
  let len := rangeLen start last
  if 2 ^ 63 ≤ start then ⟨[], .failed seekError⟩
  else
    ⟨renderHead (utf8 "HTTP/1.1 206 Partial Content")
        [⟨utf8 "Content-Range",
            utf8 "bytes " ++ decimal start ++ utf8 "-" ++ decimal last ++ utf8 "/" ++
              decimal file.size⟩,
          ⟨utf8 "Content-Length", decimal len⟩, ⟨utf8 "Content-Type", ct⟩,
          ⟨utf8 "ETag", etag⟩, ⟨utf8 "Connection", req.conn⟩] ++
        (if req.isHead then [] else (file.contents.drop start).take len), .done⟩

/-- The response if the client has the file already. -/
def notModified (etag conn : Text) : List UInt8 :=
  renderHead (utf8 "HTTP/1.1 304 Not Modified") [⟨utf8 "ETag", etag⟩, ⟨utf8 "Connection", conn⟩]

/-- The response for a range outside the file. -/
def rangeNotSatisfiable (fileSize : Nat) (conn : Text) : List UInt8 :=
  renderHead (utf8 "HTTP/1.1 416 Range Not Satisfiable")
    [⟨utf8 "Content-Range", utf8 "bytes */" ++ decimal fileSize⟩, ⟨utf8 "Connection", conn⟩]

/-- The response with a whole file. -/
def wholeFile (req : FileRequest) (file : File) (ct etag lastMod : Text) : List UInt8 :=
  renderHead (utf8 "HTTP/1.1 200 OK")
    [⟨utf8 "Content-Length", decimal file.size⟩, ⟨utf8 "Content-Type", ct⟩,
      ⟨utf8 "ETag", etag⟩, ⟨utf8 "Last-Modified", lastMod⟩, ⟨utf8 "Connection", req.conn⟩] ++
    if req.isHead then [] else file.contents

/-- The response for a file. -/
def serveFile (crates : Crates) (req : FileRequest) (target : FsPath) (file : File)
    (mtimeSecs : Nat) : Handled :=
  let etag := etagFor mtimeSecs file.size
  let lastMod := formatHttpDate (crates.gmtime mtimeSecs)
  let ct := mimeType target
  if getHeader req.headers (utf8 "If-None-Match") = some etag then
    ⟨notModified etag req.conn, .done⟩
  else
    match getHeader req.headers (utf8 "Range") with
    | some rangeVal =>
      match parseRange rangeVal file.size with
      | some (start, last) => serveRange req file ct etag start last
      | none => ⟨rangeNotSatisfiable file.size req.conn, .done⟩
    | none =>
      if req.wantsGzip && isCompressible ct && !req.isHead then
        ⟨gzipHead ct req.conn ++ gzipBody crates file.contents, .done⟩
      else ⟨wholeFile req file ct etag lastMod, .done⟩

/-- `file_server`. -/
def fileServer (crates : Crates) (fs : FileSystem) (method path : Text) (headers : List Header)
    (keepAlive : Bool) (root : Text) (enableGzip : Bool) : Handled :=
  let req := fileRequest method headers keepAlive enableGzip
  match safePath fs root path with
  | none => ⟨notFound req.conn, .done⟩
  | some target =>
    if fs.isDir target then
      ⟨serveDirectory crates req (dirListingHtml (fs.readDir target) path), .done⟩
    else
      match fs.openFile target with
      | .error e => ⟨[], .failed (.io e)⟩
      | .ok file =>
        match file.mtimeSecs with
        | none => ⟨[], .panicked⟩
        | some secs => serveFile crates req target file secs

end PpcaNetwork.Minicaddy
