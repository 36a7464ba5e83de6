import PpcaNetwork.Lib.Run
import PpcaNetwork.Minicaddy.BodyFraming
import PpcaNetwork.Minicaddy.FileResponses

/-!
# Downloads that are continued

A client that fetches a file again and again, over connections that may break: it asks for what
it does not have yet with `Range`, and with `If-None-Match` for a file that it has.

* `Copy` and `store` — what the client keeps, and what it makes of the bytes that arrive.
* `Attempt` and `Download.step` — one request, answered by `file_server`.
* `Download.step_eq` — what an attempt can do to the copy.
* `Download.reliable_iff` — when the copy is the file after two attempts that are not cut off,
  whatever happened before.
-/

namespace PpcaNetwork.Minicaddy

open Http1

/-! ## The client -/

/-- What a client has of a file. -/
structure Copy where
  data : List UInt8
  etag : List UInt8
  /-- The size of the file. -/
  total : Nat
  deriving DecidableEq, Repr

namespace Copy

/-- All of the file has arrived. -/
def IsComplete (c : Copy) : Prop := c.data.length = c.total

instance (c : Copy) : Decidable c.IsComplete := inferInstanceAs (Decidable (_ = _))

/-- The value of `Range` that asks for the rest. -/
def missing (c : Copy) : Text := utf8 "bytes=" ++ (decimal c.data.length ++ [0x2D])

/-- The position where a partial response has to start. -/
def continues (c : Copy) : Text := utf8 "bytes " ++ decimal c.data.length ++ utf8 "-"

/-- With more bytes. -/
def more (c : Copy) (bytes : List UInt8) : Copy := { c with data := c.data ++ bytes }

end Copy

/-- What the client adds to its request. -/
def fetchFields : Option Copy → List Header
  | none => []
  | some c =>
    if c.IsComplete then [⟨utf8 "If-None-Match", c.etag⟩] else [⟨utf8 "Range", c.missing⟩]

/-- The beginning of a file, from a response with a whole file. -/
def wholeCopy (fields : List Field) (body : List UInt8) : Option Copy :=
  match contentLength fields, fieldValues fields (utf8 "ETag") with
  | .length n, [etag] => some ⟨body.take n, etag, n⟩
  | _, _ => none

/-- A partial response has to be a part of the same file, and to start where the copy ends. -/
def Copy.extended (c : Copy) (fields : List Field) (body : List UInt8) : Option Copy :=
  match contentLength fields, fieldValues fields (utf8 "ETag"),
      fieldValues fields (utf8 "Content-Range") with
  | .length n, [etag], [range] =>
    if etag = c.etag ∧ c.continues.isPrefixOf range then some (c.more (body.take n)) else none
  | _, _, _ => none

/-- What the client keeps when it has read a head and a part of the body. -/
def storeParsed (copy : Option Copy) (status : Option Nat) (fields : List Field)
    (body : List UInt8) : Option Copy :=
  match status, copy with
  | some 200, _ => wholeCopy fields body
  | some 206, some c => c.extended fields body
  | some 304, _ => copy
  | _, _ => none

/-- What the client keeps when some bytes have arrived. -/
def store (copy : Option Copy) (arrived : List UInt8) : Option Copy :=
  match parseHead arrived with
  | none => copy
  | some (head, body) => storeParsed copy (parseStatusLine head.start) head.fields body

/-! ## Attempts -/

/-- A request that reaches the server. -/
structure Attempt where
  fs : FileSystem
  keepAlive : Bool
  /-- How many bytes of the response arrive, if the connection is cut. -/
  cut : Option Nat

/-- What arrives of what the server has written. -/
def Attempt.arrived (a : Attempt) (written : List UInt8) : List UInt8 :=
  match a.cut with
  | none => written
  | some n => written.take n

/-- A path on a site, and the fields that a client sends in any case. -/
structure Download where
  root : Text
  path : Text
  enableGzip : Bool
  headers : List Header
  /-- The client does not ask for compression. -/
  no_encoding : fieldValues headers (utf8 "Accept-Encoding") = []
  no_match : fieldValues headers (utf8 "If-None-Match") = []
  no_range : fieldValues headers (utf8 "Range") = []

/-- The path is a file with a time that the server can work with. -/
structure Download.Serves (d : Download) (fs : FileSystem) (file : File) (secs : Nat) : Prop where
  opens : ∃ target, safePath fs d.root d.path = some target ∧ fs.isDir target = false ∧
    fs.openFile target = .ok file
  time : file.mtimeSecs = some secs

namespace Download

variable (d : Download) (crates : Crates)

/-- The fields of the next request. -/
def request (copy : Option Copy) : List Header := d.headers ++ fetchFields copy

/-- What the server writes in answer. -/
def response (copy : Option Copy) (a : Attempt) : List UInt8 :=
  (fileServer crates a.fs (utf8 "GET") d.path (d.request copy) a.keepAlive d.root
    d.enableGzip).written

/-- One attempt: what the client has afterwards. -/
def step (copy : Option Copy) (a : Attempt) : Option Copy :=
  store copy (a.arrived (d.response crates copy a))

end Download

/-! ## What arrives -/

/-- The client keeps what it has, or it reads the head and a part of the body. -/
theorem store_arrived {start : List UInt8} {status : Nat} {fields : List Field}
    (hstart : IsStatusLine start status) (hfields : ∀ f ∈ fields, f.Valid) (body : List UInt8)
    (copy : Option Copy) (a : Attempt) :
    (a.cut ≠ none ∧ store copy (a.arrived (renderHead start fields ++ body)) = copy) ∨
      ∃ k, (a.cut = none → body.length ≤ k) ∧
        store copy (a.arrived (renderHead start fields ++ body)) =
          storeParsed copy (some status) (fields.map Field.strip) (body.take k) := by
  have hline : start ≠ [] ∧ 0x0D ∉ start := ⟨hstart.ne_nil, hstart.1⟩
  cases hcut : a.cut with
  | none =>
    refine .inr ⟨body.length, fun _ => le_refl _, ?_⟩
    rw [Attempt.arrived, hcut, store, parseHead_renderHead hline hfields, List.take_length]
    simp only [hstart.2.1]
  | some n =>
    rw [Attempt.arrived, hcut, store]
    simp only [parseHead_take hline hfields]
    by_cases hn : n < (renderHead start fields).length
    · exact .inl ⟨by simp, by rw [if_pos hn]⟩
    · refine .inr ⟨n - (renderHead start fields).length, by simp, ?_⟩
      rw [if_neg hn]
      simp only [hstart.2.1]

/-- Before a response is complete, nothing is lost; and nothing is kept of a refusal. -/
theorem store_refused {start : List UInt8} {status : Nat} {fields : List Field}
    (hstart : IsStatusLine start status) (hfields : ∀ f ∈ fields, f.Valid) (body : List UInt8)
    (copy : Option Copy) (a : Attempt)
    (hnothing : ∀ body, storeParsed copy (some status) (fields.map Field.strip) body = none) :
    (a.cut ≠ none ∧ store copy (a.arrived (renderHead start fields ++ body)) = copy) ∨
      store copy (a.arrived (renderHead start fields ++ body)) = none := by
  rcases store_arrived hstart hfields body copy a with hkept | ⟨k, -, hparsed⟩
  · exact .inl hkept
  · exact .inr (hparsed.trans (hnothing _))

/-! ## The responses to a download -/

theorem length_valid (n : Nat) : Field.Valid ⟨utf8 "Content-Length", decimal n⟩ := by
  have hname : IsToken (utf8 "Content-Length") :=
    isToken_of_all (by decide +kernel) (by decide +kernel)
  exact ⟨hname, isFieldText_decimal n⟩

theorem etagFor_visible (mtime size : Nat) : ∀ b ∈ etagFor mtime size, IsVisible b := by
  have hhex : ∀ n, ∀ b ∈ formatRadix 16 n, IsVisible b :=
    fun n => visible_formatRadix (by decide) (by decide)
  have hopen : ∀ b ∈ utf8 "W/\"", IsVisible b := by decide +kernel
  have hhyphen : ∀ b ∈ utf8 "-", IsVisible b := by decide +kernel
  have hclose : ∀ b ∈ utf8 "\"", IsVisible b := by decide +kernel
  simp only [etagFor, List.forall_mem_append]
  exact ⟨⟨⟨⟨hopen, hhex mtime⟩, hhyphen⟩, hhex size⟩, hclose⟩

/-- The fields of a response with a whole file. -/
def wholeFields (file : File) (ct etag lastMod conn : Text) : List Field :=
  [⟨utf8 "Content-Length", decimal file.size⟩, ⟨utf8 "Content-Type", ct⟩,
    ⟨utf8 "ETag", etag⟩, ⟨utf8 "Last-Modified", lastMod⟩, ⟨utf8 "Connection", conn⟩]

/-- The fields of a response with the end of a file. -/
def restFields (file : File) (ct etag conn : Text) (start : Nat) : List Field :=
  [⟨utf8 "Content-Range", utf8 "bytes " ++ decimal start ++ utf8 "-" ++ decimal (file.size - 1) ++
      utf8 "/" ++ decimal file.size⟩,
    ⟨utf8 "Content-Length", decimal (file.size - start)⟩, ⟨utf8 "Content-Type", ct⟩,
    ⟨utf8 "ETag", etag⟩, ⟨utf8 "Connection", conn⟩]

section Fields

variable {ct lastMod conn : Text} (hct : IsFieldText ct) (hlastMod : IsFieldText lastMod)
  (hconn : IsFieldText conn) (file : File) (secs start : Nat)

include hct hlastMod hconn in
theorem wholeFields_valid : ∀ f ∈ wholeFields file ct (etagFor secs file.size) lastMod conn,
    f.Valid := by
  simp only [wholeFields, List.forall_mem_cons, List.not_mem_nil, false_implies, implies_true,
    and_true]
  exact ⟨length_valid _, (plain_of_mem (by simp [plainNames]) hct).valid,
    (plain_of_mem (by simp [plainNames]) (etagFor_text _ _)).valid,
    (plain_of_mem (by simp [plainNames]) hlastMod).valid,
    (plain_of_mem (by simp [plainNames]) hconn).valid⟩

include hct hconn in
theorem restFields_valid : ∀ f ∈ restFields file ct (etagFor secs file.size) conn start,
    f.Valid := by
  simp only [restFields, List.forall_mem_cons, List.not_mem_nil, false_implies, implies_true,
    and_true]
  exact ⟨(plain_of_mem (by simp [plainNames]) (contentRange_text _ _ _)).valid, length_valid _,
    (plain_of_mem (by simp [plainNames]) hct).valid,
    (plain_of_mem (by simp [plainNames]) (etagFor_text _ _)).valid,
    (plain_of_mem (by simp [plainNames]) hconn).valid⟩

/-- The names of the fields are different. -/
theorem fieldNames_ne :
    (∀ name ∈ [utf8 "Content-Length", utf8 "Content-Type", utf8 "Last-Modified",
      utf8 "Connection", utf8 "Content-Range"], ¬ SameText name (utf8 "ETag")) ∧
    (∀ name ∈ [utf8 "Content-Type", utf8 "Last-Modified", utf8 "Connection", utf8 "ETag",
      utf8 "Content-Range"], ¬ SameText name (utf8 "Content-Length")) ∧
    ∀ name ∈ [utf8 "Content-Type", utf8 "Connection", utf8 "ETag", utf8 "Content-Length"],
      ¬ SameText name (utf8 "Content-Range") := by
  decide +kernel

theorem wholeCopy_wholeFields (body : List UInt8) :
    wholeCopy ((wholeFields file ct (etagFor secs file.size) lastMod conn).map Field.strip) body =
      some ⟨body.take file.size, etagFor secs file.size, file.size⟩ := by
  have hlength : fieldValues ((wholeFields file ct (etagFor secs file.size) lastMod conn).map
      Field.strip) (utf8 "Content-Length") = [decimal file.size] := by
    have hne := fieldNames_ne.2.1
    simp only [wholeFields, fieldValues_strip_cons, SameText.refl, if_true,
      stripOws_of_visible (visible_decimal _)]
    rw [if_neg (hne _ (by simp)), if_neg (hne _ (by simp)), if_neg (hne _ (by simp)),
      if_neg (hne _ (by simp))]
    rfl
  have hetag : fieldValues ((wholeFields file ct (etagFor secs file.size) lastMod conn).map
      Field.strip) (utf8 "ETag") = [etagFor secs file.size] := by
    have hne := fieldNames_ne.1
    simp only [wholeFields, fieldValues_strip_cons, SameText.refl, if_true,
      stripOws_of_visible (etagFor_visible _ _)]
    rw [if_neg (hne _ (by simp)), if_neg (hne _ (by simp)), if_neg (hne _ (by simp)),
      if_neg (hne _ (by simp))]
    rfl
  rw [wholeCopy, contentLength_decimal hlength, hetag]

/-- Without a tag the client cannot tell later whether the file is still the same. -/
theorem wholeCopy_of_no_tag {fields : List Field} (h : fieldValues fields (utf8 "ETag") = [])
    (body : List UInt8) : wholeCopy fields body = none := by
  rw [wholeCopy, h]
  split
  · next heq => cases heq
  · rfl

/-- What the response to the rest of a copy brings. -/
theorem extended_restFields (c : Copy) (k : Nat) :
    c.extended ((restFields file ct (etagFor secs file.size) conn c.data.length).map Field.strip)
        ((file.contents.drop c.data.length).take k) =
      if c.etag = etagFor secs file.size then
        some (c.more ((file.contents.drop c.data.length).take k))
      else none := by
  have hlength : fieldValues ((restFields file ct (etagFor secs file.size) conn
      c.data.length).map Field.strip) (utf8 "Content-Length") =
      [decimal (file.size - c.data.length)] := by
    have hne := fieldNames_ne.2.1
    simp only [restFields, fieldValues_strip_cons, SameText.refl, if_true,
      stripOws_of_visible (visible_decimal _)]
    rw [if_neg (hne _ (by simp)), if_neg (hne _ (by simp)), if_neg (hne _ (by simp)),
      if_neg (hne _ (by simp))]
    rfl
  have hetag : fieldValues ((restFields file ct (etagFor secs file.size) conn
      c.data.length).map Field.strip) (utf8 "ETag") = [etagFor secs file.size] := by
    have hne := fieldNames_ne.1
    simp only [restFields, fieldValues_strip_cons, SameText.refl, if_true,
      stripOws_of_visible (etagFor_visible _ _)]
    rw [if_neg (hne _ (by simp)), if_neg (hne _ (by simp)), if_neg (hne _ (by simp)),
      if_neg (hne _ (by simp))]
    rfl
  have hunit : utf8 "bytes " = 0x62 :: utf8 "ytes " := by decide +kernel
  have hvalue : stripOws (utf8 "bytes " ++ decimal c.data.length ++ utf8 "-" ++
      decimal (file.size - 1) ++ utf8 "/" ++ decimal file.size) =
      c.continues ++ (decimal (file.size - 1) ++ utf8 "/" ++ decimal file.size) := by
    have hends := stripOws_of_ends (b := 0x62) (s := utf8 "ytes " ++ decimal c.data.length ++
      utf8 "-" ++ decimal (file.size - 1) ++ utf8 "/") (by decide) (visible_decimal file.size)
      (formatRadix_ne_nil (by decide))
    simpa [Copy.continues, hunit] using hends
  have hrange : fieldValues ((restFields file ct (etagFor secs file.size) conn
      c.data.length).map Field.strip) (utf8 "Content-Range") =
      [c.continues ++ (decimal (file.size - 1) ++ utf8 "/" ++ decimal file.size)] := by
    have hne := fieldNames_ne.2.2
    simp only [restFields, fieldValues_strip_cons, SameText.refl, if_true, hvalue]
    rw [if_neg (hne _ (by simp)), if_neg (hne _ (by simp)), if_neg (hne _ (by simp)),
      if_neg (hne _ (by simp))]
    rfl
  have hbytes : ((file.contents.drop c.data.length).take k).take (file.size - c.data.length) =
      (file.contents.drop c.data.length).take k := by
    refine List.take_of_length_le ((List.length_take_le' _ _).trans ?_)
    rw [List.length_drop, File.size]
  rw [Copy.extended, contentLength_decimal hlength, hetag, hrange]
  simp only [List.isPrefixOf_iff_prefix.mpr (List.prefix_append _ _), and_true, hbytes]
  simp only [eq_comm]

end Fields

/-! ## The server -/

/-- The beginning of a file. -/
def beginning (file : File) (secs k : Nat) : Copy :=
  ⟨file.contents.take k, etagFor secs file.size, file.size⟩

section Server

variable (d : Download) {crates : Crates} {copy : Option Copy} {a : Attempt} {file : File}
  {secs : Nat}

theorem Download.getHeader_request (copy : Option Copy) {name : Text}
    (hname : fieldValues d.headers name = []) :
    getHeader (d.request copy) name = getHeader (fetchFields copy) name := by
  rw [getHeader_eq, getHeader_eq, Download.request, fieldValues_append, hname, List.nil_append]

theorem fetchNames_ne : ¬ SameText (utf8 "Range") (utf8 "If-None-Match") ∧
    ¬ SameText (utf8 "If-None-Match") (utf8 "Range") ∧
    ¬ SameText (utf8 "If-None-Match") (utf8 "Accept-Encoding") ∧
    ¬ SameText (utf8 "Range") (utf8 "Accept-Encoding") := by
  decide +kernel

theorem getHeader_single (f : Header) (name : Text) :
    getHeader [f] name = if SameText f.name name ∧ isUtf8 f.value = true then some f.value
      else none := by
  by_cases hname : SameText f.name name
  · simp [getHeader, hname]
  · simp [getHeader, hname]

theorem fetchFields_no_encoding (copy : Option Copy) :
    getHeader (fetchFields copy) (utf8 "Accept-Encoding") = none := by
  obtain ⟨-, -, hmatch, hrange⟩ := fetchNames_ne
  cases copy with
  | none => rfl
  | some c =>
    by_cases hc : c.IsComplete
    · rw [fetchFields, if_pos hc, getHeader_single, if_neg fun h => hmatch h.1]
    · rw [fetchFields, if_neg hc, getHeader_single, if_neg fun h => hrange h.1]

theorem Download.wantsGzip_request (copy : Option Copy) (keepAlive : Bool) :
    (fileRequest (utf8 "GET") (d.request copy) keepAlive d.enableGzip).wantsGzip = false := by
  rw [fileRequest, d.getHeader_request copy d.no_encoding, fetchFields_no_encoding]
  simp

/-- The fields of the request decide how the file is served. -/
theorem Download.response_eq (crates : Crates) (copy : Option Copy) (h : d.Serves a.fs file secs) :
    ∃ target, d.response crates copy a =
      (serveFile crates (fileRequest (utf8 "GET") (d.request copy) a.keepAlive d.enableGzip)
        target file secs).written := by
  obtain ⟨target, hpath, hdir, hopen⟩ := h.opens
  refine ⟨target, ?_⟩
  simp only [Download.response, fileServer, hpath, hdir, Bool.false_eq_true, if_false, hopen,
    h.time]

/-- A whole file. -/
theorem store_wholeFile (req : FileRequest) (hbody : req.isHead = false)
    (hconn : IsFieldText req.conn) (target : FsPath) (tm : Tm) (copy : Option Copy) (a : Attempt) :
    (a.cut ≠ none ∧ store copy (a.arrived (wholeFile req file (mimeType target)
        (etagFor secs file.size) (formatHttpDate tm))) = copy) ∨
      ∃ k, (a.cut = none → file.size ≤ k) ∧
        store copy (a.arrived (wholeFile req file (mimeType target) (etagFor secs file.size)
          (formatHttpDate tm))) = some (beginning file secs k) := by
  have hwritten : wholeFile req file (mimeType target) (etagFor secs file.size)
      (formatHttpDate tm) = renderHead (utf8 "HTTP/1.1 200 OK")
        (wholeFields file (mimeType target) (etagFor secs file.size) (formatHttpDate tm)
          req.conn) ++ file.contents := by
    rw [wholeFile, hbody]
    rfl
  rw [hwritten]
  have hfields := wholeFields_valid (mimeType_text target)
    (formatHttpDate_text tm) hconn file secs
  rcases store_arrived isStatusLine_200 hfields file.contents copy a with hkept | ⟨k, hk, hparsed⟩
  · exact .inl hkept
  · refine .inr ⟨k, hk, hparsed.trans ?_⟩
    have hbytes : (file.contents.take k).take file.size = file.contents.take k :=
      List.take_of_length_le (List.length_take_le' _ _)
    simp only [storeParsed]
    rw [wholeCopy_wholeFields, hbytes]
    rfl

/-- The end of a file. -/
theorem store_rest (req : FileRequest) (hbody : req.isHead = false) (hconn : IsFieldText req.conn)
    (target : FsPath) {c : Copy} (hlt : c.data.length < file.size) (a : Attempt) :
    (a.cut ≠ none ∧ store (some c) (a.arrived (serveRange req file (mimeType target)
        (etagFor secs file.size) c.data.length (file.size - 1)).written) = some c) ∨
      ∃ k, (a.cut = none → file.size ≤ k) ∧
        store (some c) (a.arrived (serveRange req file (mimeType target)
          (etagFor secs file.size) c.data.length (file.size - 1)).written) =
        if c.etag = etagFor secs file.size then
          some (c.more ((file.contents.drop c.data.length).take k))
        else none := by
  have hsize : file.size < 2 ^ 63 := file.size_lt
  have hlen : rangeLen c.data.length (file.size - 1) = file.size - c.data.length := by
    rw [rangeLen_of_le (by omega) (by rw [maxU64]; omega)]
    omega
  have hall : (file.contents.drop c.data.length).take (file.size - c.data.length) =
      file.contents.drop c.data.length := by
    refine List.take_of_length_le ?_
    rw [List.length_drop, File.size]
  have hwritten : (serveRange req file (mimeType target) (etagFor secs file.size) c.data.length
      (file.size - 1)).written = renderHead (utf8 "HTTP/1.1 206 Partial Content")
        (restFields file (mimeType target) (etagFor secs file.size) req.conn c.data.length) ++
          file.contents.drop c.data.length := by
    simp only [serveRange, if_neg (show ¬ 2 ^ 63 ≤ c.data.length by omega), hbody,
      Bool.false_eq_true, if_false, hlen, hall]
    rfl
  rw [hwritten]
  have hfields := restFields_valid (mimeType_text target) hconn file secs
    c.data.length
  rcases store_arrived isStatusLine_206 hfields (file.contents.drop c.data.length) (some c) a with
    hkept | ⟨k, hk, hparsed⟩
  · exact .inl hkept
  · replace hparsed := hparsed.trans (extended_restFields file secs c k)
    by_cases hcut : a.cut = none
    · have hk := hk hcut
      have hmore : (file.contents.drop c.data.length).take k =
          (file.contents.drop c.data.length).take file.size := by
        rw [List.take_of_length_le hk, List.take_of_length_le]
        rw [List.length_drop, File.size]
        omega
      exact .inr ⟨file.size, fun _ => le_refl _, hmore ▸ hparsed⟩
    · exact .inr ⟨k, fun h => absurd h hcut, hparsed⟩

theorem store_notModified (file : File) (secs : Nat) {conn : Text} (hconn : IsFieldText conn)
    (copy : Option Copy) (a : Attempt) :
    store copy (a.arrived (notModified (etagFor secs file.size) conn)) = copy := by
  have hfields : ∀ f ∈ [(⟨utf8 "ETag", etagFor secs file.size⟩ : Field),
      ⟨utf8 "Connection", conn⟩], f.Valid := by
    simp only [List.forall_mem_cons, List.not_mem_nil, false_implies, implies_true, and_true]
    exact ⟨(plain_of_mem (by simp [plainNames]) (etagFor_text _ _)).valid,
      (plain_of_mem (by simp [plainNames]) hconn).valid⟩
  rw [notModified, ← List.append_nil (renderHead _ _)]
  rcases store_arrived isStatusLine_304 hfields [] copy a with ⟨-, hkept⟩ | ⟨k, -, hparsed⟩
  · exact hkept
  · exact hparsed

/-- The copy is longer than the file, so it is not of this file. -/
theorem store_rangeNotSatisfiable (file : File) {conn : Text} (hconn : IsFieldText conn)
    (copy : Option Copy) (a : Attempt) :
    (a.cut ≠ none ∧ store copy (a.arrived (rangeNotSatisfiable file.size conn)) = copy) ∨
      store copy (a.arrived (rangeNotSatisfiable file.size conn)) = none := by
  have hunit : IsFieldText (utf8 "bytes */") := text_of_mem (by simp [valueTexts])
  have hfields : ∀ f ∈ [(⟨utf8 "Content-Range", utf8 "bytes */" ++ decimal file.size⟩ : Field),
      ⟨utf8 "Connection", conn⟩], f.Valid := by
    simp only [List.forall_mem_cons, List.not_mem_nil, false_implies, implies_true, and_true]
    exact ⟨(plain_of_mem (by simp [plainNames]) (hunit.append (isFieldText_decimal _))).valid,
      (plain_of_mem (by simp [plainNames]) hconn).valid⟩
  rw [rangeNotSatisfiable, ← List.append_nil (renderHead _ _)]
  exact store_refused isStatusLine_416 hfields [] copy a fun _ => rfl

/-- What `file_server` does with a request without `If-None-Match` that fits and without
`Range`. -/
theorem serveFile_whole {req : FileRequest} (target : FsPath)
    (hmatch : getHeader req.headers (utf8 "If-None-Match") ≠ some (etagFor secs file.size))
    (hrange : getHeader req.headers (utf8 "Range") = none) (hgzip : req.wantsGzip = false) :
    (serveFile crates req target file secs).written =
      wholeFile req file (mimeType target) (etagFor secs file.size)
        (formatHttpDate (crates.gmtime secs)) := by
  simp only [serveFile, if_neg hmatch, hrange, hgzip, Bool.false_and, Bool.false_eq_true, if_false]

/-- What the client has if `k` bytes of the response's body arrive. -/
def afterAttempt (copy : Option Copy) (file : File) (secs k : Nat) : Option Copy :=
  match copy with
  | none => some (beginning file secs k)
  | some c =>
    if c.IsComplete then
      if c.etag = etagFor secs file.size then some c else some (beginning file secs k)
    else if c.data.length < file.size ∧ c.etag = etagFor secs file.size then
      some (c.more ((file.contents.drop c.data.length).take k))
    else none

theorem missing_written {c : Copy} (hfits : c.data.length < 2 ^ 63) :
    (RangeSpec.starting c.data.length).Written c.missing := by
  refine .starting ⟨formatRadix_ne_nil (by decide), ?_, ?_⟩
  · exact parseDigits_formatRadix (by decide) (by decide) _
  · exact le_maxU64 hfits

theorem isUtf8_missing (c : Copy) : isUtf8 c.missing = true := by
  refine isUtf8_of_ascii ?_
  have hunit : ∀ b ∈ utf8 "bytes=", b < 0x80 := by decide +kernel
  have hdigits : ∀ b ∈ decimal c.data.length, b < 0x80 :=
    fun b hb => (visible_decimal _ b hb).ascii
  simp only [Copy.missing, List.forall_mem_append, List.forall_mem_singleton]
  exact ⟨hunit, hdigits, by decide⟩

/-- **An attempt** either leaves the copy as it is, since too little has arrived, or it does what
the size and the tag of the file say. -/
theorem Download.step_eq (h : d.Serves a.fs file secs)
    (hfits : ∀ c ∈ copy, c.data.length < 2 ^ 63) :
    (a.cut ≠ none ∧ d.step crates copy a = copy) ∨
      ∃ k, (a.cut = none → file.size ≤ k) ∧
        d.step crates copy a = afterAttempt copy file secs k := by
  obtain ⟨target, hresponse⟩ := d.response_eq crates copy h
  have hget : ¬ SameText (utf8 "GET") (utf8 "HEAD") := by decide +kernel
  have hbody : (fileRequest (utf8 "GET") (d.request copy) a.keepAlive d.enableGzip).isHead =
      false := decide_eq_false hget
  have hconn := conn_text (utf8 "GET") (d.request copy) a.keepAlive d.enableGzip
  have hheaders : (fileRequest (utf8 "GET") (d.request copy) a.keepAlive d.enableGzip).headers =
      d.request copy := rfl
  have hgzip := d.wantsGzip_request copy a.keepAlive
  have hmatch := d.getHeader_request copy d.no_match
  have hrange := d.getHeader_request copy d.no_range
  obtain ⟨hne_range, hne_match, -, -⟩ := fetchNames_ne
  have hsize : file.size < 2 ^ 63 := file.size_lt
  rw [Download.step, hresponse]
  cases copy with
  | none =>
    rw [serveFile_whole target (by rw [hheaders, hmatch]; simp [fetchFields, getHeader])
      (by rw [hheaders, hrange]; rfl) hgzip]
    exact store_wholeFile _ hbody hconn target _ none a
  | some c =>
    by_cases hc : c.IsComplete
    · have hsent : fetchFields (some c) = [⟨utf8 "If-None-Match", c.etag⟩] := by
        rw [fetchFields, if_pos hc]
      rw [hsent, getHeader_single] at hmatch hrange
      rw [if_neg fun h => hne_match h.1] at hrange
      by_cases htag : c.etag = etagFor secs file.size
      · have hfits : getHeader (d.request (some c)) (utf8 "If-None-Match") =
            some (etagFor secs file.size) := by
          have htext : isUtf8 c.etag = true := by
            rw [htag]
            exact isUtf8_of_ascii fun b hb => (etagFor_visible _ _ b hb).ascii
          rw [hmatch, if_pos ⟨SameText.refl _, htext⟩, htag]
        have hkept := store_notModified file secs hconn (some c) a
        refine .inr ⟨file.size, fun _ => le_refl _, ?_⟩
        simp only [serveFile, hheaders, if_pos hfits, afterAttempt, if_pos hc, if_pos htag]
        exact hkept
      · have hother : getHeader (d.request (some c)) (utf8 "If-None-Match") ≠
            some (etagFor secs file.size) := by
          rw [hmatch]
          split_ifs
          · exact fun h => htag (Option.some.inj h)
          · rintro ⟨⟩
        rw [serveFile_whole target hother hrange hgzip]
        simp only [afterAttempt, if_pos hc, if_neg htag]
        exact store_wholeFile _ hbody hconn target _ (some c) a
    · have hsent : fetchFields (some c) = [⟨utf8 "Range", c.missing⟩] := by
        rw [fetchFields, if_neg hc]
      rw [hsent, getHeader_single] at hmatch hrange
      rw [if_neg fun h => hne_range h.1] at hmatch
      rw [if_pos ⟨SameText.refl _, isUtf8_missing c⟩] at hrange
      have hparsed : parseRange c.missing file.size =
          if c.data.length < file.size then some (c.data.length, file.size - 1) else none := by
        rw [parseRange_eq, (missing_written (hfits c rfl)).read]
        rfl
      have hno_match : getHeader (d.request (some c)) (utf8 "If-None-Match") ≠
          some (etagFor secs file.size) := by
        rw [hmatch]
        rintro ⟨⟩
      simp only [serveFile, hheaders, if_neg hno_match, hrange, hparsed]
      by_cases hlt : c.data.length < file.size
      · simp only [afterAttempt, if_neg hc, hlt, true_and]
        exact store_rest _ hbody hconn target hlt a
      · simp only [afterAttempt, if_neg hc, hlt, false_and, if_false]
        rcases store_rangeNotSatisfiable file hconn (some c) a with hkept | hnone
        · exact .inl hkept
        · exact .inr ⟨file.size, fun _ => le_refl _, hnone⟩

/-- The response for a path that does not exist. -/
theorem store_notFound {conn : Text} (hconn : IsFieldText conn) (copy : Option Copy)
    (a : Attempt) :
    store copy (a.arrived (notFound conn)) = copy ∨
      store copy (a.arrived (notFound conn)) = none := by
  have hfields : ∀ f ∈ [(⟨utf8 "Content-Length", decimal 9⟩ : Field),
      ⟨utf8 "Connection", conn⟩], f.Valid := by
    simp only [List.forall_mem_cons, List.not_mem_nil, false_implies, implies_true, and_true]
    exact ⟨length_valid 9, (plain_of_mem (by simp [plainNames]) hconn).valid⟩
  have hnine : utf8 "9" = decimal 9 := by decide +kernel
  rw [notFound, hnine]
  exact (store_refused isStatusLine_404 hfields _ copy a fun _ => rfl).imp_left And.right

/-- A listing has no tag, so the client does not take it for the file. -/
theorem store_serveDirectory {req : FileRequest} (hgzip : req.wantsGzip = false)
    (hconn : IsFieldText req.conn) (html : Text) (copy : Option Copy) (a : Attempt) :
    store copy (a.arrived (serveDirectory crates req html)) = copy ∨
      store copy (a.arrived (serveDirectory crates req html)) = none := by
  have hfields : ∀ f ∈ [(⟨utf8 "Content-Type", utf8 "text/html; charset=utf-8"⟩ : Field),
      ⟨utf8 "Content-Length", decimal html.length⟩, ⟨utf8 "Connection", req.conn⟩], f.Valid := by
    simp only [List.forall_mem_cons, List.not_mem_nil, false_implies, implies_true, and_true]
    exact ⟨(plain_of_mem (by simp [plainNames]) (text_of_mem (by simp [valueTexts]))).valid,
      length_valid _, (plain_of_mem (by simp [plainNames]) hconn).valid⟩
  have hno_tag : fieldValues (List.map Field.strip
      [(⟨utf8 "Content-Type", utf8 "text/html; charset=utf-8"⟩ : Field),
        ⟨utf8 "Content-Length", decimal html.length⟩, ⟨utf8 "Connection", req.conn⟩])
      (utf8 "ETag") = [] := by
    have hne := fieldNames_ne.1
    simp only [fieldValues_strip_cons]
    rw [if_neg (hne _ (by simp)), if_neg (hne _ (by simp)), if_neg (hne _ (by simp))]
    rfl
  simp only [serveDirectory, hgzip, Bool.false_eq_true, if_false]
  refine (store_refused isStatusLine_200 hfields _ copy a ?_).imp_left And.right
  exact fun _ => wholeCopy_of_no_tag hno_tag _

/-- Without a file, the client keeps what it has or nothing. -/
theorem Download.step_of_not_serves (h : ∀ file secs, ¬ d.Serves a.fs file secs) :
    d.step crates copy a = copy ∨ d.step crates copy a = none := by
  have hconn := conn_text (utf8 "GET") (d.request copy) a.keepAlive d.enableGzip
  have hgzip := d.wantsGzip_request copy a.keepAlive
  have hnothing : store copy (a.arrived []) = copy := by
    have hempty : a.arrived [] = [] := by
      unfold Attempt.arrived
      cases a.cut with
      | none => rfl
      | some n => exact List.take_nil
    rw [hempty]
    rfl
  rw [Download.step, Download.response, fileServer]
  cases hpath : safePath a.fs d.root d.path with
  | none => exact store_notFound hconn copy a
  | some target =>
    simp only
    by_cases hdir : a.fs.isDir target = true
    · rw [if_pos hdir]
      exact store_serveDirectory hgzip hconn _ copy a
    · rw [if_neg hdir]
      cases hopen : a.fs.openFile target with
      | error e => exact .inl hnothing
      | ok file =>
        simp only
        cases htime : file.mtimeSecs with
        | none => exact .inl hnothing
        | some secs =>
          exact absurd ⟨⟨target, hpath, by simpa using hdir, hopen⟩, htime⟩ (h file secs)

end Server

/-! ## Versions of a file -/

theorem formatRadix_injective {m n : Nat} (h : formatRadix 16 m = formatRadix 16 n) : m = n := by
  have hm := parseDigits_formatRadix (show 2 ≤ 16 by decide) (by decide) m
  rw [h, parseDigits_formatRadix (by decide) (by decide)] at hm
  exact (Option.some.inj hm).symm

/-- The tag is the time and the size. -/
theorem etagFor_injective {mtime size mtime' size' : Nat}
    (h : etagFor mtime size = etagFor mtime' size') : mtime = mtime' ∧ size = size' := by
  have hdigits : ∀ n, ∀ b ∈ formatRadix 16 n, decide (b ≠ 0x2D) = true := by
    intro n b hb
    obtain ⟨d, hd⟩ := exists_digitValue_of_parseDigits
      (parseDigits_formatRadix (show 2 ≤ 16 by decide) (by decide) n) b hb
    rw [decide_eq_true_eq]
    rintro rfl
    exact absurd (visible_of_digitValue hd).2 (by decide)
  have hhyphen : utf8 "-" = [0x2D] := by decide +kernel
  simp only [etagFor, hhyphen, List.append_assoc] at h
  have hparts : formatRadix 16 mtime ++ 0x2D :: (formatRadix 16 size ++ utf8 "\"") =
      formatRadix 16 mtime' ++ 0x2D :: (formatRadix 16 size' ++ utf8 "\"") :=
    List.append_cancel_left h
  have htime := congrArg (List.takeWhile (· ≠ 0x2D)) hparts
  have hsize := congrArg (List.dropWhile (· ≠ 0x2D)) hparts
  rw [List.takeWhile_append_of_pos (hdigits _), List.takeWhile_append_of_pos (hdigits _)] at htime
  rw [List.dropWhile_append_of_pos (hdigits _), List.dropWhile_append_of_pos (hdigits _)] at hsize
  simp only [ne_eq, not_true_eq_false, decide_false, Bool.false_eq_true, not_false_eq_true,
    List.takeWhile_cons_of_neg, List.append_nil] at htime
  simp only [ne_eq, not_true_eq_false, decide_false, Bool.false_eq_true, not_false_eq_true,
    List.dropWhile_cons_of_neg, List.cons.injEq, true_and] at hsize
  exact ⟨formatRadix_injective htime, formatRadix_injective (List.append_cancel_right hsize)⟩

/-- A whole file as the client keeps it. -/
def wholeOf (file : File) (secs : Nat) : Copy := ⟨file.contents, etagFor secs file.size, file.size⟩

theorem beginning_of_le {file : File} {secs k : Nat} (hk : file.size ≤ k) :
    beginning file secs k = wholeOf file secs := by
  rw [beginning, List.take_of_length_le hk, wholeOf]

/-- The copy is the beginning of a file. -/
structure Copy.IsPart (c : Copy) (file : File) (secs : Nat) : Prop where
  etag : c.etag = etagFor secs file.size
  total : c.total = file.size
  data : c.data <+: file.contents

theorem Copy.IsPart.fits {c : Copy} {file : File} {secs : Nat} (h : c.IsPart file secs) :
    c.data.length < 2 ^ 63 :=
  Nat.lt_of_le_of_lt h.data.length_le file.size_lt

theorem isPart_beginning (file : File) (secs k : Nat) : (beginning file secs k).IsPart file secs :=
  ⟨rfl, rfl, List.take_prefix ..⟩

/-- A copy that is complete is the file. -/
theorem Copy.IsPart.eq_wholeOf {c : Copy} {file : File} {secs : Nat} (h : c.IsPart file secs)
    (hc : c.IsComplete) : c = wholeOf file secs := by
  have hdata : c.data = file.contents :=
    h.data.eq_of_length (hc.trans h.total)
  cases c
  simp only [wholeOf, Copy.mk.injEq]
  exact ⟨hdata, h.etag, h.total⟩

theorem Copy.IsPart.more {c : Copy} {file : File} {secs : Nat} (h : c.IsPart file secs) (k : Nat) :
    (c.more ((file.contents.drop c.data.length).take k)).IsPart file secs := by
  refine ⟨h.etag, h.total, ?_⟩
  obtain ⟨rest, hrest⟩ := h.data
  have hdrop : file.contents.drop c.data.length = rest := by
    rw [← hrest, List.drop_left]
  rw [hdrop, ← hrest]
  exact List.prefix_append_right_inj _ |>.mpr (List.take_prefix ..)

namespace Download

variable (d : Download) (crates : Crates) (V : FileSystem → Prop)

/-- The states of the file system are such that the time and the size tell the versions of the
file apart. -/
def Distinguishes : Prop :=
  ∀ {fs fs' file file' secs}, V fs → V fs' → d.Serves fs file secs → d.Serves fs' file' secs →
    file.size = file'.size → file.contents = file'.contents

/-- What the client has is a part of a version of the file. -/
def Holds (copy : Option Copy) : Prop :=
  ∀ c, copy = some c → ∃ fs file secs, V fs ∧ d.Serves fs file secs ∧ c.IsPart file secs

/-- The file arrives complete and up to date when two attempts are not disturbed, and never is
anything else kept than a part of it. -/
structure Reliable (attempts : List Attempt) : Prop where
  holds : d.Holds V (run (d.step crates) none attempts)
  current : ∀ {fs file secs}, V fs → d.Serves fs file secs → ∀ keepAlive keepAlive' : Bool,
    run (d.step crates) none (attempts ++ [⟨fs, keepAlive, none⟩, ⟨fs, keepAlive', none⟩]) =
      some (wholeOf file secs)

variable {d crates V} {copy : Option Copy} {fs : FileSystem} {file : File} {secs : Nat}

/-- A part of another version with the same tag is a part of this one. -/
theorem Distinguishes.isPart (h : d.Distinguishes V) (hholds : d.Holds V copy) {c : Copy}
    (hc : copy = some c) (hfs : V fs) (hserves : d.Serves fs file secs)
    (htag : c.etag = etagFor secs file.size) : c.IsPart file secs := by
  obtain ⟨fs', file', secs', hfs', hserves', hpart⟩ := hholds c hc
  obtain ⟨rfl, hsize⟩ := etagFor_injective (hpart.etag.symm.trans htag)
  have hcontents := h hfs' hfs hserves' hserves hsize
  exact ⟨htag, hpart.total.trans hsize, hcontents ▸ hpart.data⟩

theorem Holds.fits (h : d.Holds V copy) : ∀ c ∈ copy, c.data.length < 2 ^ 63 := by
  intro c hc
  obtain ⟨_, _, _, -, -, hpart⟩ := h c hc
  exact hpart.fits

/-- An attempt that brings something keeps to one version. -/
theorem Distinguishes.holds_afterAttempt (h : d.Distinguishes V) (hholds : d.Holds V copy)
    (hfs : V fs) (hserves : d.Serves fs file secs) (k : Nat) :
    d.Holds V (afterAttempt copy file secs k) := by
  have hbeginning : d.Holds V (some (beginning file secs k)) := by
    rintro _ ⟨⟩
    exact ⟨fs, file, secs, hfs, hserves, isPart_beginning file secs k⟩
  cases copy with
  | none => exact hbeginning
  | some c =>
    simp only [afterAttempt]
    by_cases hc : c.IsComplete
    · rw [if_pos hc]
      by_cases htag : c.etag = etagFor secs file.size
      · rwa [if_pos htag]
      · rwa [if_neg htag]
    · rw [if_neg hc]
      by_cases hmore : c.data.length < file.size ∧ c.etag = etagFor secs file.size
      · rw [if_pos hmore]
        rintro _ ⟨⟩
        exact ⟨fs, file, secs, hfs, hserves, (h.isPart hholds rfl hfs hserves hmore.2).more k⟩
      · rw [if_neg hmore]
        rintro _ ⟨⟩

theorem Distinguishes.holds_step (h : d.Distinguishes V) (hholds : d.Holds V copy) {a : Attempt}
    (hfs : V a.fs) : d.Holds V (d.step crates copy a) := by
  by_cases hserves : ∃ file secs, d.Serves a.fs file secs
  · obtain ⟨file, secs, hserves⟩ := hserves
    rcases d.step_eq hserves hholds.fits with ⟨-, hkept⟩ | ⟨k, -, hstep⟩
    · rwa [hkept]
    · rw [hstep]
      exact h.holds_afterAttempt hholds hfs hserves k
  · rcases d.step_of_not_serves fun file secs hs => hserves ⟨file, secs, hs⟩ with hkept | hnone
    · rwa [hkept]
    · rw [hnone]
      rintro _ ⟨⟩

theorem Distinguishes.holds_run (crates : Crates) (h : d.Distinguishes V) {attempts : List Attempt}
    (hall : ∀ a ∈ attempts, V a.fs) : d.Holds V (run (d.step crates) none attempts) := by
  refine Run.invariant_of_guarded (d.Holds V) (G := fun _ a => V a.fs)
    (fun copy a hholds hfs => h.holds_step hholds hfs) ?_ (Run.guarded_of_forall (fun _ => hall) _)
  rintro _ ⟨⟩

/-- An attempt that is not disturbed. -/
theorem step_whole (crates : Crates) (hserves : d.Serves fs file secs)
    (hfits : ∀ c ∈ copy, c.data.length < 2 ^ 63) (keepAlive : Bool) : ∃ k, file.size ≤ k ∧
      d.step crates copy ⟨fs, keepAlive, none⟩ = afterAttempt copy file secs k := by
  rcases d.step_eq (a := ⟨fs, keepAlive, none⟩) hserves hfits with ⟨hcut, -⟩ | ⟨k, hk, hstep⟩
  · exact absurd rfl hcut
  · exact ⟨k, hk rfl, hstep⟩

/-- A file that the client has already is not sent again. -/
theorem step_wholeOf (hserves : d.Serves fs file secs) {file' : File}
    (hsize : file'.size = file.size) (keepAlive : Bool) :
    d.step crates (some (wholeOf file' secs)) ⟨fs, keepAlive, none⟩ =
      some (wholeOf file' secs) := by
  have hfits : ∀ c ∈ some (wholeOf file' secs), c.data.length < 2 ^ 63 := by
    rintro _ ⟨⟩
    exact file'.size_lt
  obtain ⟨k, -, hstep⟩ := step_whole crates hserves hfits keepAlive
  have hcomplete : (wholeOf file' secs).IsComplete := rfl
  have htag : (wholeOf file' secs).etag = etagFor secs file.size := by
    rw [← hsize]
    rfl
  rw [hstep, afterAttempt, if_pos hcomplete, if_pos htag]

/-- After one attempt the client has the file, or nothing. -/
theorem Distinguishes.step_whole_eq (crates : Crates) (h : d.Distinguishes V)
    (hholds : d.Holds V copy) (hfs : V fs) (hserves : d.Serves fs file secs) (keepAlive : Bool) :
    d.step crates copy ⟨fs, keepAlive, none⟩ = some (wholeOf file secs) ∨
      d.step crates copy ⟨fs, keepAlive, none⟩ = none := by
  obtain ⟨k, hk, hstep⟩ := step_whole crates hserves hholds.fits keepAlive
  rw [hstep]
  cases copy with
  | none => exact .inl (congrArg some (beginning_of_le hk))
  | some c =>
    simp only [afterAttempt]
    by_cases hc : c.IsComplete
    · rw [if_pos hc]
      by_cases htag : c.etag = etagFor secs file.size
      · rw [if_pos htag, (h.isPart hholds rfl hfs hserves htag).eq_wholeOf hc]
        exact .inl rfl
      · rw [if_neg htag]
        exact .inl (congrArg some (beginning_of_le hk))
    · rw [if_neg hc]
      by_cases hmore : c.data.length < file.size ∧ c.etag = etagFor secs file.size
      · have hpart := h.isPart hholds rfl hfs hserves hmore.2
        have hall : (file.contents.drop c.data.length).take k =
            file.contents.drop c.data.length := by
          refine List.take_of_length_le ?_
          rw [List.length_drop, ← File.size]
          omega
        have hcomplete : (c.more (file.contents.drop c.data.length)).IsComplete := by
          rw [Copy.IsComplete, Copy.more, List.length_append, List.length_drop, ← File.size,
            hpart.total]
          omega
        rw [if_pos hmore, hall]
        exact .inl (congrArg some ((hall ▸ hpart.more k).eq_wholeOf hcomplete))
      · rw [if_neg hmore]
        exact .inr rfl

/-- After two attempts the client has the file. -/
theorem Distinguishes.step_whole_twice (h : d.Distinguishes V) (hholds : d.Holds V copy)
    (hfs : V fs) (hserves : d.Serves fs file secs) (keepAlive keepAlive' : Bool) :
    run (d.step crates) copy [⟨fs, keepAlive, none⟩, ⟨fs, keepAlive', none⟩] =
      some (wholeOf file secs) := by
  have hnothing : ∀ c ∈ (none : Option Copy), c.data.length < 2 ^ 63 := by
    rintro _ ⟨⟩
  rw [Run.run_cons, Run.run_cons, Run.run_nil]
  rcases h.step_whole_eq crates hholds hfs hserves keepAlive with hstep | hstep
  · rw [hstep]
    exact step_wholeOf hserves rfl keepAlive'
  · obtain ⟨k, hk, hnext⟩ := step_whole crates hserves hnothing keepAlive'
    rw [hstep, hnext]
    exact congrArg some (beginning_of_le hk)

/-- **Downloads are reliable** exactly if the versions of the file differ in the second of their
last change or in their size. -/
theorem reliable_iff (d : Download) (crates : Crates) (V : FileSystem → Prop) :
    (∀ attempts : List Attempt, (∀ a ∈ attempts, V a.fs) → d.Reliable crates V attempts) ↔
      d.Distinguishes V := by
  constructor
  · intro h fs fs' file file' secs hfs hfs' hserves hserves' hsize
    have hfirst := (h [] (by simp)).current hfs hserves true true
    have hthen := (h [⟨fs, true, none⟩, ⟨fs, true, none⟩] (by simpa using hfs)).current hfs'
      hserves' true true
    rw [List.nil_append] at hfirst
    rw [Run.run_append, hfirst, Run.run_cons, Run.run_cons, Run.run_nil,
      step_wholeOf hserves' hsize, step_wholeOf hserves' hsize] at hthen
    exact congrArg Copy.data (Option.some.inj hthen)
  · intro h attempts hall
    have hholds := h.holds_run crates hall
    refine ⟨hholds, ?_⟩
    intro fs file secs hfs hserves keepAlive keepAlive'
    rw [Run.run_append]
    exact h.step_whole_twice hholds hfs hserves keepAlive keepAlive'

end Download

end PpcaNetwork.Minicaddy
