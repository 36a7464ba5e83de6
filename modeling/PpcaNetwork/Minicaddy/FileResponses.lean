import PpcaNetwork.Minicaddy.Ranges
import PpcaNetwork.Minicaddy.Server

/-!
# Which responses are framed

A response is in sync if a client that knows the method of its request finds the
end of the response where the server has stopped writing.  The responses of the
server are taken one by one.

* `bodyMatches`, `rangeInSync`, `fileInSync`, `pathInSync`, `respondsInSync` — the
  condition, following the cases of the handlers.
* `isResponse_respond_iff` — it is the exact condition.
-/

namespace PpcaNetwork.Minicaddy

open Http1

/-! ## The condition -/

/-- A successful response has a body exactly if the client expects one: the
method is `HEAD`, or it is neither taken for `HEAD` by the server only, nor
`CONNECT`. -/
def bodyMatches (method : Text) : Bool :=
  method = utf8 "HEAD" ||
    (decide (method ≠ utf8 "CONNECT") && !(SameText method (utf8 "HEAD") : Bool))

/-- The response to a request for a range. -/
def rangeInSync (method : Text) : Option (Nat × Nat) → Bool
  | some (start, last) =>
    if method = utf8 "HEAD" then start < 2 ^ 63 else bodyMatches method && start ≤ last
  | none => method = utf8 "HEAD"

/-- The response for a file. -/
def fileInSync (method : Text) (headers : List Header) (file : File) (mtimeSecs : Nat) : Bool :=
  if getHeader headers (utf8 "If-None-Match") = some (etagFor mtimeSecs file.size) then true
  else
    match getHeader headers (utf8 "Range") with
    | some rangeVal => rangeInSync method (parseRange rangeVal file.size)
    | none => bodyMatches method || (decide (method ≠ utf8 "CONNECT") && file.contents = [])

/-- The response for a path. -/
def pathInSync (fs : FileSystem) (root method path : Text) (headers : List Header) : Bool :=
  match safePath fs root path with
  | none => method ≠ utf8 "HEAD"
  | some target =>
    if fs.isDir target then bodyMatches method
    else
      match fs.openFile target with
      | .error _ => false
      | .ok file =>
        match file.mtimeSecs with
        | none => false
        | some secs => fileInSync method headers file secs

/-- The response to a request. -/
def respondsInSync (server : Server) (world : World) (req : HttpRequest) : Bool :=
  if world.allowed then
    match siteOf server.sites req.headers with
    | none => false
    | some site =>
      if authorized server.crates site req.headers then
        pathInSync world.fs (site.root.getD defaultRoot) req.method req.path req.headers
      else req.method ≠ utf8 "HEAD"
  else req.method ≠ utf8 "HEAD"

/-- The request goes to a site that serves files. -/
def servesFiles (server : Server) (req : HttpRequest) : Bool :=
  match siteOf server.sites req.headers with
  | none => false
  | some site => site.reverseProxy = none && site.fileServer

/-! ## Texts in the heads -/

/-- The names of the fields that have nothing to do with the framing. -/
def plainNames : List Text :=
  [utf8 "Content-Type", utf8 "Connection", utf8 "Content-Encoding", utf8 "Vary",
    utf8 "Content-Range", utf8 "ETag", utf8 "Last-Modified", utf8 "Retry-After",
    utf8 "WWW-Authenticate"]

/-- The texts that stand in field values. -/
def valueTexts : List Text :=
  [utf8 "keep-alive", utf8 "close", utf8 "text/plain", utf8 "text/html; charset=utf-8",
    utf8 "application/octet-stream", utf8 "gzip", utf8 "Accept-Encoding", utf8 "1",
    utf8 "Basic realm=\"Restricted\"", utf8 "W/\"", utf8 "-", utf8 "\"", utf8 "0", utf8 ", ",
    utf8 " ", utf8 ":", utf8 " GMT", utf8 "bytes ", utf8 "/", utf8 "bytes */"]

/-- The status lines. -/
def statusLines : List (Text × Nat) :=
  [(utf8 "HTTP/1.1 200 OK", 200), (utf8 "HTTP/1.1 206 Partial Content", 206),
    (utf8 "HTTP/1.1 304 Not Modified", 304), (utf8 "HTTP/1.1 404 Not Found", 404),
    (utf8 "HTTP/1.1 416 Range Not Satisfiable", 416),
    (utf8 "HTTP/1.1 " ++ utf8 "429 Too Many Requests", 429),
    (utf8 "HTTP/1.1 " ++ utf8 "401 Unauthorized", 401)]

theorem plain_of_mem {name : Text} {value : List UInt8} (hname : name ∈ plainNames)
    (hvalue : IsFieldText value) : Field.Plain ⟨name, value⟩ := by
  have hall : ∀ name ∈ plainNames, (name ≠ [] ∧ name.all isTokenByte = true) ∧
      ¬ SameText name (utf8 "Content-Length") ∧ ¬ SameText name (utf8 "Transfer-Encoding") := by
    decide +kernel
  obtain ⟨⟨hne, hbytes⟩, hlength, hcoding⟩ := hall name hname
  exact Field.plain (isPlainName_of_all hne hbytes hlength hcoding) hvalue

theorem text_of_mem {text : Text} (h : text ∈ valueTexts) : IsFieldText text := by
  have hall : ∀ text ∈ valueTexts, text.all isFieldByte = true := by decide +kernel
  exact isFieldText_of_all (hall text h)

theorem statusLine_of_mem {line : Text} {status : Nat} (h : (line, status) ∈ statusLines) :
    IsStatusLine line status := by
  have hall : ∀ entry ∈ statusLines, IsStatusLine entry.1 entry.2 := by decide +kernel
  exact hall (line, status) h

theorem isStatusLine_200 : IsStatusLine (utf8 "HTTP/1.1 200 OK") 200 :=
  statusLine_of_mem (by simp [statusLines])

theorem isStatusLine_206 : IsStatusLine (utf8 "HTTP/1.1 206 Partial Content") 206 :=
  statusLine_of_mem (by simp [statusLines])

theorem isStatusLine_304 : IsStatusLine (utf8 "HTTP/1.1 304 Not Modified") 304 :=
  statusLine_of_mem (by simp [statusLines])

theorem isStatusLine_404 : IsStatusLine (utf8 "HTTP/1.1 404 Not Found") 404 :=
  statusLine_of_mem (by simp [statusLines])

theorem isStatusLine_416 : IsStatusLine (utf8 "HTTP/1.1 416 Range Not Satisfiable") 416 :=
  statusLine_of_mem (by simp [statusLines])

theorem isStatusLine_429 : IsStatusLine (utf8 "HTTP/1.1 " ++ utf8 "429 Too Many Requests") 429 :=
  statusLine_of_mem (by simp [statusLines])

theorem isStatusLine_401 : IsStatusLine (utf8 "HTTP/1.1 " ++ utf8 "401 Unauthorized") 401 :=
  statusLine_of_mem (by simp [statusLines])

theorem table_texts : (∀ entry ∈ mimeTypes, IsFieldText entry.2) ∧
    (∀ d : Fin 7, IsFieldText (dayNames.getD d [])) ∧
    ∀ m : Fin 12, IsFieldText (monthNames.getD m []) := by
  have hmime : ∀ entry ∈ mimeTypes, entry.2.all isFieldByte = true := by decide +kernel
  have hday : ∀ d : Fin 7, (dayNames.getD d []).all isFieldByte = true := by decide +kernel
  have hmonth : ∀ m : Fin 12, (monthNames.getD m []).all isFieldByte = true := by decide +kernel
  exact ⟨fun entry he => isFieldText_of_all (hmime entry he), fun d => isFieldText_of_all (hday d),
    fun m => isFieldText_of_all (hmonth m)⟩

theorem conn_text (method : Text) (headers : List Header) (keepAlive enableGzip : Bool) :
    IsFieldText (fileRequest method headers keepAlive enableGzip).conn := by
  cases keepAlive with
  | true => exact text_of_mem (show utf8 "keep-alive" ∈ valueTexts by simp [valueTexts])
  | false => exact text_of_mem (show utf8 "close" ∈ valueTexts by simp [valueTexts])

theorem mimeType_text (path : FsPath) : IsFieldText (mimeType path) := by
  rw [mimeType]
  cases h : (extension path).bind fun e => mimeTypes.lookup e with
  | none =>
    show IsFieldText (utf8 "application/octet-stream")
    exact text_of_mem (by simp [valueTexts])
  | some ct =>
    obtain ⟨e, -, he⟩ := Option.bind_eq_some_iff.mp h
    obtain ⟨before, after, hsplit, -⟩ := List.lookup_eq_some_iff.mp he
    exact table_texts.1 (e, ct) (by rw [hsplit]; simp)

theorem etagFor_text (mtime size : Nat) : IsFieldText (etagFor mtime size) := by
  have hhex : ∀ n, IsFieldText (formatRadix 16 n) :=
    fun n => isFieldText_formatRadix (by decide) (by decide)
  unfold etagFor
  refine .append (.append (.append (.append ?_ (hhex _)) ?_) (hhex _)) ?_
  · exact text_of_mem (by simp [valueTexts])
  · exact text_of_mem (by simp [valueTexts])
  · exact text_of_mem (by simp [valueTexts])

theorem twoDigits_text (n : Nat) : IsFieldText (twoDigits n) := by
  unfold twoDigits
  split
  · exact .append (text_of_mem (by simp [valueTexts])) (isFieldText_decimal n)
  · exact isFieldText_decimal n

theorem formatHttpDate_text (tm : Tm) : IsFieldText (formatHttpDate tm) := by
  have hblank : IsFieldText (utf8 " ") := text_of_mem (by simp [valueTexts])
  have hcolon : IsFieldText (utf8 ":") := text_of_mem (by simp [valueTexts])
  unfold formatHttpDate
  refine .append (.append (.append (.append (.append (.append (.append (.append (.append (.append
    (.append (.append (.append ?_ ?_) ?_) hblank) ?_) hblank) ?_) hblank) ?_) hcolon) ?_)
    hcolon) ?_) ?_
  · exact table_texts.2.1 tm.wday
  · exact text_of_mem (by simp [valueTexts])
  · exact twoDigits_text tm.mday
  · exact table_texts.2.2 tm.mon
  · exact isFieldText_decimal _
  · exact twoDigits_text tm.hour
  · exact twoDigits_text tm.min
  · exact twoDigits_text tm.sec
  · exact text_of_mem (by simp [valueTexts])

theorem contentRange_text (start last size : Nat) :
    IsFieldText (utf8 "bytes " ++ decimal start ++ utf8 "-" ++ decimal last ++ utf8 "/" ++
      decimal size) := by
  have hunit : IsFieldText (utf8 "bytes ") := text_of_mem (by simp [valueTexts])
  have hhyphen : IsFieldText (utf8 "-") := text_of_mem (by simp [valueTexts])
  have hslash : IsFieldText (utf8 "/") := text_of_mem (by simp [valueTexts])
  exact ((((hunit.append (isFieldText_decimal _)).append hhyphen).append
    (isFieldText_decimal _)).append hslash).append (isFieldText_decimal _)

/-! ## Responses by status -/

section Status

variable {method : Text} {start : List UInt8} {status : Nat} {before after : List Field}

theorem sameText_head_of_eq (h : method = utf8 "HEAD") : SameText method (utf8 "HEAD") := by
  rw [h]
  exact SameText.refl _

theorem bodyMatches_iff : bodyMatches method = true ↔
    method = utf8 "HEAD" ∨ (method ≠ utf8 "CONNECT" ∧ ¬ SameText method (utf8 "HEAD")) := by
  simp [bodyMatches]

/-- For a successful response only the method tells whether it has a body. -/
theorem isBodiless_success_iff (h : status = 200 ∨ status = 206) :
    IsBodiless method status ↔ method = utf8 "HEAD" := by
  unfold IsBodiless
  constructor
  · rintro (hmethod | hstatus)
    · exact hmethod
    · omega
  · exact .inl

theorem opensTunnel_success_iff (h : status = 200 ∨ status = 206) :
    OpensTunnel method status ↔ method = utf8 "CONNECT" := by
  unfold OpensTunnel
  constructor
  · exact fun hc => hc.1
  · intro hmethod
    exact ⟨hmethod, by omega⟩

/-- A successful response with a `Content-Length`, without a body if the server
takes the method for `HEAD`. -/
theorem isResponse_success_iff (hstart : IsStatusLine start status)
    (hstatus : status = 200 ∨ status = 206) (hbefore : ∀ f ∈ before, f.Plain)
    (hafter : ∀ f ∈ after, f.Plain) (n : Nat) (body : List UInt8) :
    IsResponse method
        (renderHead start (before ++ ⟨utf8 "Content-Length", decimal n⟩ :: after) ++
          if SameText method (utf8 "HEAD") then [] else body) ↔
      method = utf8 "HEAD" ∨ (method ≠ utf8 "CONNECT" ∧
        if SameText method (utf8 "HEAD") then n = 0 else n = body.length) := by
  rw [isResponse_length_iff hstart hbefore hafter]
  simp only [isBodiless_success_iff hstatus, opensTunnel_success_iff hstatus]
  by_cases hhead : method = utf8 "HEAD"
  · rw [if_pos hhead, if_pos (sameText_head_of_eq hhead)]
    exact ⟨fun _ => .inl hhead, fun _ => rfl⟩
  · rw [if_neg hhead]
    by_cases hsame : SameText method (utf8 "HEAD")
    · simp [hhead, hsame]
    · simp [hhead, hsame]

/-- A compressed response. -/
theorem isResponse_gzip_iff {crates : Crates} (hgzip : ∀ data, (crates.gzip data).1 ≠ [])
    {ct conn : Text} (hct : IsFieldText ct) (hconn : IsFieldText conn) (data : List UInt8) :
    IsResponse method
        (gzipHead ct conn ++
          if SameText method (utf8 "HEAD") then [] else gzipBody crates data) ↔
      bodyMatches method = true := by
  have hbefore : ∀ f ∈ [(⟨utf8 "Content-Type", ct⟩ : Field)], f.Plain := by
    simp only [List.forall_mem_cons, List.not_mem_nil, false_implies, implies_true, and_true]
    exact plain_of_mem (by simp [plainNames]) hct
  have hafter : ∀ f ∈ [(⟨utf8 "Content-Encoding", utf8 "gzip"⟩ : Field),
      ⟨utf8 "Vary", utf8 "Accept-Encoding"⟩, ⟨utf8 "Connection", conn⟩], f.Plain := by
    simp only [List.forall_mem_cons, List.not_mem_nil, false_implies, implies_true, and_true]
    exact ⟨plain_of_mem (by simp [plainNames]) (text_of_mem (by simp [valueTexts])),
      plain_of_mem (by simp [plainNames]) (text_of_mem (by simp [valueTexts])),
      plain_of_mem (by simp [plainNames]) hconn⟩
  have hdecoded : decodeChunked (gzipBody crates data) = some ((crates.gzip data).1, []) := by
    have hbytes := bytes_single (crates.gzip data).1 (hgzip data) (crates.gzip data).2
    have hmessage := decodeChunked_bytes
      (ChunkedMessage.single (crates.gzip data).1 (hgzip data) (crates.gzip data).2) []
    rw [hbytes, List.append_nil] at hmessage
    rw [gzipBody, hmessage]
    simp [ChunkedMessage.body, ChunkedMessage.single]
  have hempty : decodeChunked [] = none := by
    simp [decodeChunked, decodeChunks, takeLine, findSub, crlf]
  have hok : (200 : Nat) = 200 ∨ (200 : Nat) = 206 := .inl rfl
  refine (isResponse_chunked_iff isStatusLine_200 hbefore hafter _).trans ?_
  simp only [isBodiless_success_iff hok, opensTunnel_success_iff hok, bodyMatches_iff]
  by_cases hhead : method = utf8 "HEAD"
  · rw [if_pos hhead, if_pos (sameText_head_of_eq hhead)]
    exact ⟨fun _ => .inl hhead, fun _ => rfl⟩
  · rw [if_neg hhead]
    by_cases hsame : SameText method (utf8 "HEAD")
    · simp [hhead, hsame, hempty]
    · simp [hhead, hsame, hdecoded]

/-- A response that refuses the request and says so in a body. -/
theorem isResponse_refusal_iff (hstart : IsStatusLine start status) (hstatus : status / 100 = 4)
    (hbefore : ∀ f ∈ before, f.Plain) (hafter : ∀ f ∈ after, f.Plain) {body : List UInt8}
    (hbody : body ≠ []) :
    IsResponse method
        (renderHead start (before ++ ⟨utf8 "Content-Length", decimal body.length⟩ :: after) ++
          body) ↔ method ≠ utf8 "HEAD" := by
  have hbodiless : IsBodiless method status ↔ method = utf8 "HEAD" := by
    unfold IsBodiless
    constructor
    · rintro (hmethod | hcode)
      · exact hmethod
      · omega
    · exact .inl
  have htunnel : ¬ OpensTunnel method status := by
    rintro ⟨-, hcode⟩
    omega
  rw [isResponse_length_iff hstart hbefore hafter]
  simp only [hbodiless]
  by_cases hhead : method = utf8 "HEAD"
  · simp [hhead, hbody]
  · simp [hhead, htunnel]

theorem not_isResponse_nil : ¬ IsResponse method [] := by
  rintro ⟨r, hr⟩
  exact absurd hr (by simp [parseResponse, parseHead, headLines])

end Status

/-! ## The responses of the handlers -/

theorem plain_nil : ∀ f ∈ ([] : List Field), f.Plain := by
  intro f hf
  exact absurd hf List.not_mem_nil

/-- The fields in front of and behind the length of a response with a text. -/
theorem isResponse_plainResponse_iff {method status : Text} {code : Nat} {fields : List Field}
    {body : Text} (hstatus : IsStatusLine (utf8 "HTTP/1.1 " ++ status) code)
    (hcode : code / 100 = 4)
    (hfields : ∀ f ∈ fields, f.Plain) (hbody : body ≠ []) :
    IsResponse method (plainResponse status fields body) ↔ method ≠ utf8 "HEAD" := by
  have hbefore : ∀ f ∈ fields ++ [(⟨utf8 "Content-Type", utf8 "text/plain"⟩ : Field)],
      f.Plain := by
    intro f hf
    rcases List.mem_append.mp hf with hf | hf
    · exact hfields f hf
    · rw [List.mem_singleton.mp hf]
      exact plain_of_mem (by simp [plainNames]) (text_of_mem (by simp [valueTexts]))
  have hafter : ∀ f ∈ [(⟨utf8 "Connection", utf8 "close"⟩ : Field)], f.Plain := by
    intro f hf
    rw [List.mem_singleton.mp hf]
    exact plain_of_mem (by simp [plainNames]) (text_of_mem (by simp [valueTexts]))
  have hiff : IsResponse method _ ↔ _ :=
    isResponse_refusal_iff hstatus hcode hbefore hafter hbody
  rw [List.append_assoc] at hiff
  exact hiff

theorem isResponse_write429_iff {method : Text} :
    IsResponse method write429 ↔ method ≠ utf8 "HEAD" := by
  refine isResponse_plainResponse_iff isStatusLine_429 rfl ?_ (by decide +kernel)
  intro f hf
  rw [List.mem_singleton.mp hf]
  exact plain_of_mem (by simp [plainNames]) (text_of_mem (by simp [valueTexts]))

theorem isResponse_write401_iff {method : Text} :
    IsResponse method write401 ↔ method ≠ utf8 "HEAD" := by
  refine isResponse_plainResponse_iff isStatusLine_401 rfl ?_ (by decide +kernel)
  intro f hf
  rw [List.mem_singleton.mp hf]
  exact plain_of_mem (by simp [plainNames]) (text_of_mem (by simp [valueTexts]))

theorem isResponse_notFound_iff {method conn : Text} (hconn : IsFieldText conn) :
    IsResponse method (notFound conn) ↔ method ≠ utf8 "HEAD" := by
  have hafter : ∀ f ∈ [(⟨utf8 "Connection", conn⟩ : Field)], f.Plain := by
    intro f hf
    rw [List.mem_singleton.mp hf]
    exact plain_of_mem (by simp [plainNames]) hconn
  have hlength : utf8 "9" = decimal (utf8 "Not Found").length := by decide +kernel
  have hbody : utf8 "Not Found" ≠ [] := by decide +kernel
  rw [notFound, hlength]
  exact isResponse_refusal_iff isStatusLine_404 rfl plain_nil hafter hbody

theorem dirListingHtml_ne_nil (entries : Option (List DirEntry)) (path : Text) :
    dirListingHtml entries path ≠ [] := by
  have hstart : utf8 "<!DOCTYPE html>\n<html><head><title>Index of " ≠ [] := by decide +kernel
  simp [dirListingHtml, hstart]

theorem isResponse_serveDirectory_iff {crates : Crates} (hgzip : ∀ data, (crates.gzip data).1 ≠ [])
    (method : Text) (headers : List Header) (keepAlive enableGzip : Bool) {html : Text}
    (hhtml : html ≠ []) :
    IsResponse method
        (serveDirectory crates (fileRequest method headers keepAlive enableGzip) html) ↔
      bodyMatches method = true := by
  have hconn := conn_text method headers keepAlive enableGzip
  have hct : IsFieldText (utf8 "text/html; charset=utf-8") := text_of_mem (by simp [valueTexts])
  have hhead : (fileRequest method headers keepAlive enableGzip).isHead =
      decide (SameText method (utf8 "HEAD")) := rfl
  rw [serveDirectory, hhead]
  simp only [decide_eq_true_eq]
  by_cases hwants : (fileRequest method headers keepAlive enableGzip).wantsGzip = true
  · rw [if_pos hwants]
    exact isResponse_gzip_iff hgzip hct hconn html
  · rw [if_neg hwants]
    have hbefore : ∀ f ∈ [(⟨utf8 "Content-Type", utf8 "text/html; charset=utf-8"⟩ : Field)],
        f.Plain := by
      intro f hf
      rw [List.mem_singleton.mp hf]
      exact plain_of_mem (by simp [plainNames]) hct
    have hafter : ∀ f ∈ [(⟨utf8 "Connection",
        (fileRequest method headers keepAlive enableGzip).conn⟩ : Field)], f.Plain := by
      intro f hf
      rw [List.mem_singleton.mp hf]
      exact plain_of_mem (by simp [plainNames]) hconn
    refine (isResponse_success_iff isStatusLine_200 (.inl rfl) hbefore hafter html.length
      html).trans ?_
    rw [bodyMatches_iff]
    by_cases hsame : SameText method (utf8 "HEAD")
    · simp [hsame, hhtml]
    · simp [hsame]

/-! ## Ranges -/

theorem isResponse_serveRange_iff (method : Text) (headers : List Header)
    (keepAlive enableGzip : Bool) (file : File) {ct etag : Text} (hct : IsFieldText ct)
    (hetag : IsFieldText etag) {start last : Nat} (hlast : last < file.size)
    (hcases : start ≤ last ∨
      last + 1 = file.size ∧ file.size < start ∧ start < 2 ^ 64) :
    IsResponse method (serveRange (fileRequest method headers keepAlive enableGzip) file ct etag
        start last).written ↔ rangeInSync method (some (start, last)) = true := by
  have hconn := conn_text method headers keepAlive enableGzip
  have hsize : file.size < 2 ^ 63 := file.size_lt
  obtain ⟨hne, hlength⟩ := rangeLen_eq_length_iff hlast hcases
  have hsync : rangeInSync method (some (start, last)) = true ↔
      (method = utf8 "HEAD" ∧ start < 2 ^ 63) ∨
        (method ≠ utf8 "HEAD" ∧ bodyMatches method = true ∧ start ≤ last) := by
    unfold rangeInSync
    by_cases hhead : method = utf8 "HEAD"
    · simp [hhead]
    · simp [hhead]
  rw [hsync]
  unfold serveRange
  by_cases hseek : 2 ^ 63 ≤ start
  · simp only [if_pos hseek]
    refine ⟨fun h => absurd h not_isResponse_nil, ?_⟩
    rintro (⟨-, hlt⟩ | ⟨-, -, hle⟩)
    · omega
    · omega
  · simp only [if_neg hseek]
    have hrange := contentRange_text start last file.size
    have hbefore : ∀ f ∈ [(⟨utf8 "Content-Range", utf8 "bytes " ++ decimal start ++ utf8 "-" ++
        decimal last ++ utf8 "/" ++ decimal file.size⟩ : Field)], f.Plain := by
      intro f hf
      rw [List.mem_singleton.mp hf]
      exact plain_of_mem (by simp [plainNames]) hrange
    have hafter : ∀ f ∈ [(⟨utf8 "Content-Type", ct⟩ : Field), ⟨utf8 "ETag", etag⟩,
        ⟨utf8 "Connection", (fileRequest method headers keepAlive enableGzip).conn⟩],
        f.Plain := by
      simp only [List.forall_mem_cons, List.not_mem_nil, false_implies, implies_true, and_true]
      exact ⟨plain_of_mem (by simp [plainNames]) hct, plain_of_mem (by simp [plainNames]) hetag,
        plain_of_mem (by simp [plainNames]) hconn⟩
    have hhead : (fileRequest method headers keepAlive enableGzip).isHead =
        decide (SameText method (utf8 "HEAD")) := rfl
    simp only [hhead, decide_eq_true_eq]
    refine (isResponse_success_iff isStatusLine_206 (.inr rfl) hbefore hafter _ _).trans ?_
    rw [bodyMatches_iff, hlength]
    by_cases hmethod : method = utf8 "HEAD"
    · simp only [hmethod, true_or, true_and, true_iff]
      exact .inl (by omega)
    · by_cases hsame : SameText method (utf8 "HEAD")
      · simp [hmethod, hsame, hne]
      · simp [hmethod, hsame]

/-! ## Files and paths -/

/-- Without a body, and without one expected whatever the method. -/
theorem isResponse_notModified {method etag conn : Text} (hetag : IsFieldText etag)
    (hconn : IsFieldText conn) : IsResponse method (notModified etag conn) := by
  have hfields : ∀ f ∈ [(⟨utf8 "ETag", etag⟩ : Field), ⟨utf8 "Connection", conn⟩], f.Plain := by
    simp only [List.forall_mem_cons, List.not_mem_nil, false_implies, implies_true, and_true]
    exact ⟨plain_of_mem (by simp [plainNames]) hetag, plain_of_mem (by simp [plainNames]) hconn⟩
  rw [notModified, ← List.append_nil (renderHead _ _),
    isResponse_unframed_iff isStatusLine_304 hfields]
  exact ⟨.inr (.inr (.inr rfl)), rfl⟩

/-- Nothing says where the body ends, unless none is expected. -/
theorem isResponse_rangeNotSatisfiable_iff {method conn : Text} (hconn : IsFieldText conn)
    (fileSize : Nat) :
    IsResponse method (rangeNotSatisfiable fileSize conn) ↔ method = utf8 "HEAD" := by
  have hunit : IsFieldText (utf8 "bytes */") := text_of_mem (by simp [valueTexts])
  have hvalue := hunit.append (isFieldText_decimal fileSize)
  have hfields : ∀ f ∈ [(⟨utf8 "Content-Range", utf8 "bytes */" ++ decimal fileSize⟩ : Field),
      ⟨utf8 "Connection", conn⟩], f.Plain := by
    simp only [List.forall_mem_cons, List.not_mem_nil, false_implies, implies_true, and_true]
    exact ⟨plain_of_mem (by simp [plainNames]) hvalue, plain_of_mem (by simp [plainNames]) hconn⟩
  rw [rangeNotSatisfiable, ← List.append_nil (renderHead _ _),
    isResponse_unframed_iff isStatusLine_416 hfields]
  constructor
  · rintro ⟨hmethod | hcode, -⟩
    · exact hmethod
    · omega
  · intro hmethod
    exact ⟨.inl hmethod, rfl⟩

theorem isResponse_wholeFile_iff (method : Text) (headers : List Header)
    (keepAlive enableGzip : Bool) (file : File) {ct etag lastMod : Text} (hct : IsFieldText ct)
    (hetag : IsFieldText etag) (hlastMod : IsFieldText lastMod) :
    IsResponse method (wholeFile (fileRequest method headers keepAlive enableGzip) file ct etag
        lastMod) ↔
      bodyMatches method = true ∨ (method ≠ utf8 "CONNECT" ∧ file.contents = []) := by
  have hconn := conn_text method headers keepAlive enableGzip
  have hafter : ∀ f ∈ [(⟨utf8 "Content-Type", ct⟩ : Field), ⟨utf8 "ETag", etag⟩,
      ⟨utf8 "Last-Modified", lastMod⟩,
      ⟨utf8 "Connection", (fileRequest method headers keepAlive enableGzip).conn⟩],
      f.Plain := by
    simp only [List.forall_mem_cons, List.not_mem_nil, false_implies, implies_true, and_true]
    exact ⟨plain_of_mem (by simp [plainNames]) hct, plain_of_mem (by simp [plainNames]) hetag,
      plain_of_mem (by simp [plainNames]) hlastMod, plain_of_mem (by simp [plainNames]) hconn⟩
  have hhead : (fileRequest method headers keepAlive enableGzip).isHead =
      decide (SameText method (utf8 "HEAD")) := rfl
  rw [wholeFile, hhead]
  simp only [decide_eq_true_eq]
  refine (isResponse_success_iff isStatusLine_200 (.inl rfl) plain_nil hafter file.size
    file.contents).trans ?_
  rw [bodyMatches_iff]
  by_cases hsame : SameText method (utf8 "HEAD")
  · simp [hsame, File.size]
  · by_cases hconnect : method = utf8 "CONNECT"
    · simp [hconnect]
    · simp [hsame, hconnect, File.size]

theorem isResponse_serveFile_iff {crates : Crates} (hgzip : ∀ data, (crates.gzip data).1 ≠ [])
    (method : Text) (headers : List Header) (keepAlive enableGzip : Bool) (target : FsPath)
    (file : File) (secs : Nat) :
    IsResponse method (serveFile crates (fileRequest method headers keepAlive enableGzip) target
        file secs).written ↔ fileInSync method headers file secs = true := by
  have hconn := conn_text method headers keepAlive enableGzip
  have hetag := etagFor_text secs file.size
  have hct := mimeType_text target
  have hheaders : (fileRequest method headers keepAlive enableGzip).headers = headers := rfl
  have hhead : (fileRequest method headers keepAlive enableGzip).isHead =
      decide (SameText method (utf8 "HEAD")) := rfl
  rw [serveFile, fileInSync, hheaders]
  by_cases hmatch : getHeader headers (utf8 "If-None-Match") = some (etagFor secs file.size)
  · rw [if_pos hmatch, if_pos hmatch]
    exact ⟨fun _ => rfl, fun _ => isResponse_notModified hetag hconn⟩
  · rw [if_neg hmatch, if_neg hmatch]
    cases hrange : getHeader headers (utf8 "Range") with
    | some rangeVal =>
      cases hparsed : parseRange rangeVal file.size with
      | some range =>
        obtain ⟨start, last⟩ := range
        obtain ⟨hlast, hcases⟩ := parseRange_cases file.size_lt hparsed
        simp only [hparsed]
        exact isResponse_serveRange_iff method headers keepAlive enableGzip file hct hetag hlast
          hcases
      | none =>
        simp only [hparsed, rangeInSync, decide_eq_true_eq]
        exact isResponse_rangeNotSatisfiable_iff hconn file.size
    | none =>
      simp only [Bool.or_eq_true, Bool.and_eq_true, decide_eq_true_eq]
      by_cases hzip : ((fileRequest method headers keepAlive enableGzip).wantsGzip = true ∧
          isCompressible (mimeType target) = true) ∧
          (!(fileRequest method headers keepAlive enableGzip).isHead) = true
      · have hsame : ¬ SameText method (utf8 "HEAD") := by simpa [hhead] using hzip.2
        have hgzipped : IsResponse method _ ↔ _ :=
          isResponse_gzip_iff hgzip hct hconn file.contents
        rw [if_neg hsame, bodyMatches_iff] at hgzipped
        rw [if_pos hzip, hgzipped, bodyMatches_iff]
        constructor
        · exact .inl
        · rintro (hmatches | ⟨hconnect, -⟩)
          · exact hmatches
          · exact .inr ⟨hconnect, hsame⟩
      · rw [if_neg hzip]
        exact isResponse_wholeFile_iff method headers keepAlive enableGzip file hct hetag
          (formatHttpDate_text _)

theorem isResponse_fileServer_iff {crates : Crates} (hgzip : ∀ data, (crates.gzip data).1 ≠ [])
    (fs : FileSystem) (method path : Text) (headers : List Header) (keepAlive : Bool) (root : Text)
    (enableGzip : Bool) :
    IsResponse method
        (fileServer crates fs method path headers keepAlive root enableGzip).written ↔
      pathInSync fs root method path headers = true := by
  unfold fileServer pathInSync
  cases htarget : safePath fs root path with
  | none =>
    simp only [decide_eq_true_eq]
    exact isResponse_notFound_iff (conn_text method headers keepAlive enableGzip)
  | some target =>
    simp only
    by_cases hdir : fs.isDir target = true
    · rw [if_pos hdir, if_pos hdir]
      exact isResponse_serveDirectory_iff hgzip method headers keepAlive enableGzip
        (dirListingHtml_ne_nil _ _)
    · rw [if_neg hdir, if_neg hdir]
      cases hopen : fs.openFile target with
      | error e =>
        simp only [Bool.false_eq_true, iff_false]
        exact not_isResponse_nil
      | ok file =>
        simp only
        cases hsecs : file.mtimeSecs with
        | none =>
          simp only [Bool.false_eq_true, iff_false]
          exact not_isResponse_nil
        | some secs =>
          exact isResponse_serveFile_iff hgzip method headers keepAlive enableGzip target file secs

/-! ## Requests -/

/-- **Which requests are answered in sync**, among those to a site that serves
files. -/
theorem isResponse_respond_iff {server : Server}
    (hgzip : ∀ data, (server.crates.gzip data).1 ≠ []) {world : World} {req : HttpRequest}
    (hfiles : servesFiles server req = true) (body : List UInt8) :
    IsResponse req.method (respond server world req body).written ↔
      respondsInSync server world req = true := by
  unfold servesFiles at hfiles
  unfold respond respondsInSync
  by_cases hallowed : world.allowed = true
  · rw [if_pos hallowed, if_pos hallowed]
    cases hsite : siteOf server.sites req.headers with
    | none =>
      rw [hsite] at hfiles
      exact absurd hfiles (by simp)
    | some site =>
      rw [hsite] at hfiles
      simp only [Bool.and_eq_true, decide_eq_true_eq] at hfiles
      obtain ⟨hproxy, hserves⟩ := hfiles
      simp only
      by_cases hauth : authorized server.crates site req.headers = true
      · rw [if_pos hauth, if_pos hauth, hproxy]
        simp only [if_pos hserves]
        exact isResponse_fileServer_iff hgzip world.fs req.method req.path req.headers _ _ _
      · rw [if_neg hauth, if_neg hauth]
        simp only [decide_eq_true_eq]
        exact isResponse_write401_iff
  · rw [if_neg hallowed, if_neg hallowed]
    simp only [decide_eq_true_eq]
    exact isResponse_write429_iff

end PpcaNetwork.Minicaddy
