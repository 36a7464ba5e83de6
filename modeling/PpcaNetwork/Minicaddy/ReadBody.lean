import PpcaNetwork.Lib.Loop
import PpcaNetwork.Lib.Search
import PpcaNetwork.Lib.Stream
import PpcaNetwork.Minicaddy.Headers

/-!
# Reading a request body

`read_body` and `read_chunked_body` of `minicaddy/src/http_proto.rs`, on a
connection that delivers its bytes in arbitrary reads, and the framing functions
`write_chunk` and `write_last_chunk`.

* `readChunkedBody` — the decoder: size line, data, size line, … , zero chunk.
* `finishChunks` — what follows the zero chunk, which has an exit of its own for
  the case that the final CRLF is already buffered.
* `readBody` — chunked, of announced length, or empty.
-/

namespace PpcaNetwork.Minicaddy

open Http1

/-! ## Results -/

/-- How a call that reads from a connection ends. -/
inductive ReadResult (α : Type) where
  /-- It returns `a`, and `rest` is still to be read. -/
  | ok (a : α) (rest : Stream)
  | error (e : ProxyError)
  /-- It panics. -/
  | panic
  /-- It waits for bytes that never arrive. -/
  | waiting
  deriving DecidableEq, Repr

/-- The error of a read that the operating system rejects. -/
def readError : ProxyError := .io (utf8 "read error")

/-- What a `while` loop around `stream.read` does when the reads are used up and
the call meets `ending`; a read that returns 0 leads to `onClosed`. -/
def ReadResult.atEnd {α : Type} (onClosed : ReadResult α) : StreamEnd → ReadResult α
  | .waiting => .waiting
  | .closed => onClosed
  | .failed => .error readError

/-- How a handler ends after what it has written. -/
inductive Ending where
  | done
  | failed (e : ProxyError)
  | panicked
  /-- It waits for bytes that never arrive. -/
  | waiting
  deriving DecidableEq, Repr

/-- What a handler writes to the client, and how it ends. -/
structure Handled where
  written : List UInt8
  ending : Ending
  deriving DecidableEq, Repr

/-! ## Chunked bodies -/

/-- The bytes CR LF CR LF. -/
def crlfcrlf : List UInt8 := [0x0D, 0x0A, 0x0D, 0x0A]

/-- A decoded body, and the bytes behind it that have been read already. -/
abbrev Body := List UInt8 × List UInt8

/-- The error of a body that the connection cuts off. -/
def truncated : ReadResult Body := .error (.httpInvalidRequest (utf8 "chunked body truncated"))

/-- The size that a size line announces. -/
def chunkSize (line : Text) : Except ProxyError Nat :=
  if isUtf8 line then
    match parseUint 16 maxU64 (trim ((line.splitOn 0x3B).headD [])) with
    | some size => .ok size
    | none => .error (.httpInvalidRequest (utf8 "bad chunk size: " ++ line))
  else .error (.httpInvalidRequest (utf8 "non-utf8 chunk size"))

/-- Behind the line of the zero chunk. -/
def finishChunks (buf body : List UInt8) (s : Stream) : ReadResult Body :=
  if crlf.isPrefixOf buf then .ok (body, buf.drop 2) s
  else
    match s.fill (containsSub crlfcrlf) buf with
    | .full buf s => .ok (body, buf.drop ((findSub crlfcrlf buf).getD 0 + 4)) s
    | .ended _ => .atEnd (.ok (body, []) ⟨[], s.ending⟩) s.ending

/-- The variables of the loop of `read_chunked_body`. -/
structure ChunkState where
  buf : List UInt8
  body : List UInt8
  stream : Stream
  deriving DecidableEq, Repr

/-- `size + 2`, which wraps around in a release build. -/
def chunkEnd (size : Nat) : Nat := (size + 2) % 2 ^ 64

/-- The data of a chunk of `size` bytes.  For the two largest sizes the end wraps
around, and the slice of `size` bytes is out of range. -/
def chunkData (size : Nat) (st : ChunkState) : Round ChunkState (ReadResult Body) :=
  match st.stream.fill (fun buf => chunkEnd size ≤ buf.length) st.buf with
  | .full buf s =>
    if buf.length < size then .done .panic
    else .next ⟨buf.drop (chunkEnd size), st.body ++ buf.take size, s⟩
  | .ended _ => .done (.atEnd truncated st.stream.ending)

/-- One round of the loop. -/
def chunkRound (st : ChunkState) : Round ChunkState (ReadResult Body) :=
  match st.stream.fill (containsSub crlf) st.buf with
  | .full buf s =>
    let lineEnd := (findSub crlf buf).getD 0
    match chunkSize (buf.take lineEnd) with
    | .error e => .done (.error e)
    | .ok size =>
      let buf := buf.drop (lineEnd + 2)
      if size = 0 then .done (finishChunks buf st.body s)
      else chunkData size ⟨buf, st.body, s⟩
  | .ended _ => .done (.atEnd truncated st.stream.ending)

/-- `read_chunked_body`.  Every round that does not return takes at least the two
bytes of a line end out of what the connection delivers, so the rounds are never
used up. -/
def readChunkedBody (s : Stream) (buffered : List UInt8) : ReadResult Body :=
  Loop.bounded chunkRound (fun _ => .waiting) (buffered.length + s.bytes.length + 1)
    ⟨buffered, [], s⟩

/-! ## Bodies of announced length -/

/-- The body is read as a chunked one. -/
def isChunked (headers : List Header) : Bool :=
  match getHeader headers (utf8 "Transfer-Encoding") with
  | some v => SameText v (utf8 "chunked")
  | none => false

/-- The length that is read otherwise: the first `Content-Length`, if it is a
number, and 0 if not. -/
def bodyLength (headers : List Header) : Nat :=
  ((getHeader headers (utf8 "Content-Length")).bind (parseUint 10 maxU64)).getD 0

/-- `read_body`. -/
def readBody (s : Stream) (buffered : List UInt8) (headers : List Header) : ReadResult Body :=
  if isChunked headers then readChunkedBody s buffered
  else if bodyLength headers = 0 then .ok ([], buffered) s
  else
    match s.fill (fun buf => bodyLength headers ≤ buf.length) buffered with
    | .full buf s => .ok (buf.take (bodyLength headers), buf.drop (bodyLength headers)) s
    | .ended _ => .atEnd (.error (.httpInvalidRequest (utf8 "body truncated"))) s.ending

/-- A body that is not chunked has the announced length. -/
theorem length_of_readBody {s rest : Stream} {buffered body leftover : List UInt8}
    {headers : List Header} (hchunked : isChunked headers = false)
    (h : readBody s buffered headers = .ok (body, leftover) rest) :
    body.length = bodyLength headers := by
  rw [readBody, hchunked, if_neg (by simp)] at h
  by_cases hzero : bodyLength headers = 0
  · rw [if_pos hzero] at h
    obtain ⟨hbody, -⟩ := ReadResult.ok.inj h
    obtain ⟨rfl, -⟩ := Prod.mk.inj hbody
    exact hzero.symm
  · rw [if_neg hzero] at h
    cases hfill : s.fill (fun buf => bodyLength headers ≤ buf.length) buffered with
    | full buf s' =>
      rw [hfill] at h
      obtain ⟨hbody, -⟩ := ReadResult.ok.inj h
      obtain ⟨rfl, -⟩ := Prod.mk.inj hbody
      obtain ⟨hfull, -⟩ := Stream.fill_full hfill
      rw [List.length_take]
      exact min_eq_left (of_decide_eq_true hfull)
    | ended buf =>
      rw [hfill] at h
      cases hend : s.ending with
      | waiting => simp [ReadResult.atEnd, hend] at h
      | closed => simp [ReadResult.atEnd, hend] at h
      | failed => simp [ReadResult.atEnd, hend] at h

/-! ## Writing chunks -/

/-- The bytes that `write_chunk` writes. -/
def writeChunk (data : List UInt8) : List UInt8 :=
  formatRadix 16 data.length ++ crlf ++ data ++ crlf

/-- The bytes that `write_last_chunk` writes. -/
def writeLastChunk : List UInt8 := utf8 "0\r\n\r\n"

/-- A body written as one chunk is a message in chunked coding. -/
theorem bytes_single (data : List UInt8) (hne : data ≠ []) (hlt : data.length < 2 ^ 63) :
    (ChunkedMessage.single data hne hlt).bytes = writeChunk data ++ writeLastChunk := by
  have hlast : writeLastChunk = formatRadix 16 0 ++ crlf ++ crlf := by decide +kernel
  simp [ChunkedMessage.single, ChunkedMessage.bytes, ChunkedMessage.lastBytes, Chunk.bytes,
    trailerBytes, writeChunk, hlast]

end PpcaNetwork.Minicaddy
