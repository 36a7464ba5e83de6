import PpcaNetwork.Minicaddy.Proxy

/-!
# The relayed response and how it was cut

The response path of `reverse_proxy`: one read into a buffer of 4096 bytes, from which the head
is parsed, and a copy of everything behind it.

* `ParsesIncrementally` — what is known of `httparse`.
* `readsInto` — how a response that arrives in pieces is read.
* `refusal` — when the handler answers with a 502 of its own.
* `response_relayed_iff` — for which pieces the response is relayed as it is.
-/

namespace PpcaNetwork.Minicaddy

open Http1

/-! ## The parser -/

/-- What is known of a parser of heads: the head is a part of the buffer, is found whatever
follows it, and is all that the parser looks at. -/
structure ParsesIncrementally {α : Type} (parse : List UInt8 → ParseStatus α) : Prop where
  size_le : ∀ {xs n v}, parse xs = .complete n v → n ≤ xs.length
  append : ∀ {xs n v}, parse xs = .complete n v → ∀ ys, parse (xs ++ ys) = .complete n v
  take : ∀ {xs n v}, parse xs = .complete n v → parse (xs.take n) = .complete n v

namespace ParsesIncrementally

variable {α : Type} {parse : List UInt8 → ParseStatus α} {xs ys : List UInt8} {n : Nat} {v : α}

/-- A part of the bytes is enough as soon as it has the whole head. -/
theorem complete_of_le (h : ParsesIncrementally parse) (hparse : parse (xs ++ ys) = .complete n v)
    (hle : n ≤ xs.length) : parse xs = .complete n v := by
  have hhead := h.take hparse
  rw [List.take_append_of_le_length hle] at hhead
  have hwhole := h.append hhead (xs.drop n)
  rwa [List.take_append_drop] at hwhole

/-- And not before. -/
theorem le_of_complete (h : ParsesIncrementally parse) (hparse : parse (xs ++ ys) = .complete n v)
    {m : Nat} {w : α} (hpart : parse xs = .complete m w) : n ≤ xs.length := by
  have hsame := h.append hpart ys
  rw [hparse] at hsame
  obtain ⟨rfl, -⟩ := ParseStatus.complete.inj hsame
  exact h.size_le hpart

end ParsesIncrementally

/-! ## Reads into a buffer -/

/-- The buffer of `reverse_proxy`. -/
def responseBuffer : Nat := 4096

/-- The reads of what arrives in pieces, when the first read is into a buffer of `size` bytes:
what does not fit is left for the next read. -/
def readsInto (size : Nat) : List Packet → List Packet
  | [] => []
  | p :: pieces =>
    if h : 0 < size ∧ size < p.1.length then
      ⟨p.1.take size, by simp [p.2]; omega⟩ :: ⟨p.1.drop size, by simp; omega⟩ :: pieces
    else p :: pieces

@[simp] theorem packetBytes_readsInto (size : Nat) (pieces : List Packet) :
    packetBytes (readsInto size pieces) = packetBytes pieces := by
  cases pieces with
  | nil => rfl
  | cons p pieces =>
    rw [readsInto]
    split_ifs
    · simp [← List.append_assoc]
    · rfl

/-- The first read. -/
theorem readsInto_cons {size : Nat} (hsize : 0 < size) (p : Packet) (pieces : List Packet) :
    ∃ buf rest, readsInto size (p :: pieces) = buf :: rest ∧ buf.1 = p.1.take size := by
  rw [readsInto]
  split_ifs with h
  · exact ⟨_, _, rfl, rfl⟩
  · exact ⟨p, pieces, rfl, (List.take_of_length_le (by omega)).symm⟩

/-! ## The handler's own response -/

/-- Why the handler answers with a 502 of its own, if it does. -/
def refusal (parseResponse : List UInt8 → ParseStatus Unit) : Upstream → Option Text
  | .refused e => some e
  | .connected s =>
    match s.reads, s.ending with
    | [], .closed => some (utf8 "upstream closed connection")
    | [], _ => none
    | buf :: _, _ =>
      match parseResponse buf.1 with
      | .incomplete => some (utf8 "incomplete response")
      | .error _ => some (utf8 "bad response")
      | .complete _ _ => none

section

variable {parseResponse : List UInt8 → ParseStatus Unit} (method path : Text)
  (headers : List Header) (body : List UInt8) (clientIp : Ipv4Addr)

/-- Then that is all that the client gets. -/
theorem reverseProxy_of_refusal {upstream : Upstream} {reason : Text}
    (h : refusal parseResponse upstream = some reason) :
    (reverseProxy parseResponse method path headers body upstream clientIp).toHandled =
      ⟨write502 reason, .done⟩ := by
  cases upstream with
  | refused e =>
    rw [← Option.some.inj h]
    rfl
  | connected s =>
    obtain ⟨reads, ending⟩ := s
    show relay parseResponse ⟨reads, ending⟩ = _
    cases reads with
    | nil =>
      cases ending with
      | closed =>
        rw [← Option.some.inj h]
        rfl
      | waiting => exact absurd h (by simp [refusal])
      | failed => exact absurd h (by simp [refusal])
    | cons buf reads =>
      simp only [refusal] at h
      cases hparse : parseResponse buf.1 with
      | incomplete =>
        rw [hparse] at h
        simp only [relay, hparse, ← Option.some.inj h]
      | error e =>
        rw [hparse] at h
        simp only [relay, hparse, ← Option.some.inj h]
      | complete n v =>
        rw [hparse] at h
        exact absurd h (by simp)

/-- Otherwise the client gets what the upstream server has sent before it closed. -/
theorem reverseProxy_of_not_refusal {reads : List Packet}
    (h : refusal parseResponse (.connected ⟨reads, .closed⟩) = none) :
    (reverseProxy parseResponse method path headers body (.connected ⟨reads, .closed⟩)
      clientIp).toHandled = ⟨packetBytes reads, .done⟩ := by
  show relay parseResponse ⟨reads, .closed⟩ = _
  cases reads with
  | nil => exact absurd h (by simp [refusal])
  | cons buf reads =>
    simp only [refusal] at h
    cases hparse : parseResponse buf.1 with
    | incomplete =>
      rw [hparse] at h
      exact absurd h (by simp)
    | error e =>
      rw [hparse] at h
      exact absurd h (by simp)
    | complete n v =>
      simp only [relay, hparse, List.take_append_drop, packetBytes_cons]

end

/-- The handler has not answered itself, and the client gets the response as it is. -/
structure Relayed (parseResponse : List UInt8 → ParseStatus Unit) (method path : Text)
    (headers : List Header) (body : List UInt8) (upstream : Upstream) (clientIp : Ipv4Addr)
    (response : List UInt8) : Prop where
  not_refused : refusal parseResponse upstream = none
  handled : (reverseProxy parseResponse method path headers body upstream clientIp).toHandled =
    ⟨response, .done⟩

/-- What the upstream server sends in pieces before it closes. -/
def upstreamOf (pieces : List Packet) : Upstream :=
  .connected ⟨readsInto responseBuffer pieces, .closed⟩

/-- The handler does not answer itself exactly if the first read has the whole head. -/
theorem refusal_upstreamOf {parseResponse : List UInt8 → ParseStatus Unit}
    (hparser : ParsesIncrementally parseResponse) {response : List UInt8} {headerSize : Nat}
    (hhead : parseResponse response = .complete headerSize ()) {pieces : List Packet}
    (hcut : packetBytes pieces = response) :
    refusal parseResponse (upstreamOf pieces) = none ↔
      ∃ piece rest, pieces = piece :: rest ∧ headerSize ≤ min piece.1.length responseBuffer := by
  cases pieces with
  | nil => simp [refusal, upstreamOf, readsInto]
  | cons piece rest =>
    have hpos : 0 < responseBuffer := by decide
    obtain ⟨buf, reads, hreads, hbuf⟩ := readsInto_cons hpos piece rest
    have hwhole : parseResponse (buf.1 ++ packetBytes reads) = .complete headerSize () := by
      rw [← packetBytes_cons, ← hreads, packetBytes_readsInto, hcut, hhead]
    have hlen : buf.1.length = min piece.1.length responseBuffer := by
      rw [hbuf, List.length_take, Nat.min_comm]
    have hfirst : (∃ p ps, piece :: rest = p :: ps ∧ headerSize ≤ min p.1.length responseBuffer) ↔
        headerSize ≤ buf.1.length := by
      constructor
      · rintro ⟨p, ps, heq, hle⟩
        obtain ⟨rfl, -⟩ := List.cons.inj heq
        exact hlen ▸ hle
      · intro hle
        exact ⟨piece, rest, rfl, hlen ▸ hle⟩
    rw [hfirst]
    simp only [upstreamOf, hreads, refusal]
    constructor
    · intro h
      cases hpart : parseResponse buf.1 with
      | incomplete =>
        rw [hpart] at h
        exact absurd h (by simp)
      | error e =>
        rw [hpart] at h
        exact absurd h (by simp)
      | complete n v => exact hparser.le_of_complete hwhole hpart
    · intro hle
      rw [hparser.complete_of_le hwhole hle]

/-- **When a response is relayed.**  For every response that starts with a head, and every way
it is cut into pieces before the upstream server closes: exactly if the first piece has the
whole head, and the head fits into the buffer. -/
theorem response_relayed_iff {parseResponse : List UInt8 → ParseStatus Unit}
    (hparser : ParsesIncrementally parseResponse) {response : List UInt8} {headerSize : Nat}
    (hhead : parseResponse response = .complete headerSize ()) {pieces : List Packet}
    (hcut : packetBytes pieces = response) (method path : Text) (headers : List Header)
    (body : List UInt8) (clientIp : Ipv4Addr) :
    Relayed parseResponse method path headers body (upstreamOf pieces) clientIp response ↔
      ∃ piece rest, pieces = piece :: rest ∧ headerSize ≤ min piece.1.length responseBuffer := by
  rw [← refusal_upstreamOf hparser hhead hcut]
  constructor
  · intro hrelayed
    exact hrelayed.not_refused
  · intro hnone
    refine ⟨hnone, ?_⟩
    have hhandled := reverseProxy_of_not_refusal method path headers body clientIp hnone
    rwa [packetBytes_readsInto, hcut] at hhandled

/-! ## A response in two pieces -/

/-- A parser that looks for the end of a head only. -/
def demoHeads (bytes : List UInt8) : ParseStatus Unit :=
  match findSub crlfcrlf bytes with
  | some i => .complete (i + 4) ()
  | none => .incomplete

theorem demoHeads_complete {bytes : List UInt8} {n : Nat} :
    demoHeads bytes = .complete n () ↔ ∃ i, findSub crlfcrlf bytes = some i ∧ n = i + 4 := by
  rw [demoHeads]
  cases findSub crlfcrlf bytes with
  | none => simp
  | some i => simp [eq_comm]

theorem demoHeads_incremental : ParsesIncrementally demoHeads where
  size_le := by
    intro xs n v h
    obtain ⟨i, hi, rfl⟩ := demoHeads_complete.mp h
    exact findSub_length_le (by decide) hi
  append := by
    intro xs n v h ys
    obtain ⟨i, hi, rfl⟩ := demoHeads_complete.mp h
    exact demoHeads_complete.mpr ⟨i, findSub_append_right hi ys, rfl⟩
  take := by
    intro xs n v h
    obtain ⟨i, hi, rfl⟩ := demoHeads_complete.mp h
    refine demoHeads_complete.mpr ⟨i, ?_, rfl⟩
    have hle : i + crlfcrlf.length ≤ xs.length := findSub_length_le (by decide) hi
    have hfour : crlfcrlf.length = 4 := rfl
    rw [hfour] at hle
    rw [findSub_prefix_eq (by decide) hi (List.take_prefix _ _), if_pos]
    rw [List.length_take_of_le hle, hfour]

/-- A response with a body of two bytes. -/
def demoResponse : List UInt8 :=
  renderHead (utf8 "HTTP/1.1 200 OK") [⟨utf8 "Content-Length", utf8 "2"⟩] ++ utf8 "ok"

theorem demo_response_relayed :
    Relayed demoHeads (utf8 "GET") (utf8 "/") [] [] (upstreamOf [⟨demoResponse, by decide +kernel⟩])
      ⟨127, 0, 0, 1⟩ demoResponse :=
  (response_relayed_iff demoHeads_incremental
    (demoHeads_complete.mpr ⟨34, by decide +kernel, rfl⟩) (by simp) (utf8 "GET") (utf8 "/") [] []
    ⟨127, 0, 0, 1⟩).mpr ⟨_, [], rfl, by decide +kernel⟩

/-- **A head in two pieces.**  The first ends behind the status line, and the client gets a 502
in place of the response. -/
theorem demo_cut_refused :
    ∃ pieces, packetBytes pieces = demoResponse ∧
      (reverseProxy demoHeads (utf8 "GET") (utf8 "/") [] [] (upstreamOf pieces)
        ⟨127, 0, 0, 1⟩).written = write502 (utf8 "incomplete response") ∧
      ¬ Relayed demoHeads (utf8 "GET") (utf8 "/") [] [] (upstreamOf pieces) ⟨127, 0, 0, 1⟩
        demoResponse := by
  have hrefused : refusal demoHeads (upstreamOf [⟨demoResponse.take 17, by decide +kernel⟩,
      ⟨demoResponse.drop 17, by decide +kernel⟩]) = some (utf8 "incomplete response") := by
    decide +kernel
  refine ⟨[⟨demoResponse.take 17, by decide +kernel⟩, ⟨demoResponse.drop 17, by decide +kernel⟩],
    by simp, ?_, fun hrelayed => ?_⟩
  · rw [reverseProxy_of_refusal (utf8 "GET") (utf8 "/") [] [] ⟨127, 0, 0, 1⟩ hrefused]
  · rw [hrelayed.not_refused] at hrefused
    exact absurd hrefused (by simp)

end PpcaNetwork.Minicaddy
