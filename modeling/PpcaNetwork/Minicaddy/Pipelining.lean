import PpcaNetwork.Minicaddy.BodyFraming
import PpcaNetwork.Minicaddy.KeepAlive

/-!
# Pipelined requests

Requests that are sent one behind the other arrive in reads that may be cut anywhere.
The buffer of `serve_connection` and what is still to be read are always the requests
that have not been handled yet, so each is handled once, in order, and with its own body.

* `WireRequest` and `ParsesHeads` — the requests, and what is known of `httparse`.
* `calls` — the calls of `handle_request` in a run.
* `round_of_part`, `round_of_whole` — one round: it reads, or it handles the first request.
* `pipelined_calls` — every run.
-/

namespace PpcaNetwork.Minicaddy

open Http1

/-! ## Requests on the wire -/

/-- A request that is framed by one numeric `Content-Length`, or has no body. -/
structure WireRequest where
  req : HttpRequest
  head : List UInt8
  body : List UInt8
  /-- There are 16 slots for the fields. -/
  headers_le : req.headers.length ≤ 16
  not_coded : fieldValues req.headers (utf8 "Transfer-Encoding") = []
  framed : fieldValues req.headers (utf8 "Content-Length") = [] ∧ body = [] ∨
    ∃ v, fieldValues req.headers (utf8 "Content-Length") = [v] ∧
      parseNumber v = some body.length
  /-- The body is a slice of memory. -/
  body_lt : body.length < 2 ^ 63

namespace WireRequest

/-- The request on the wire. -/
def bytes (r : WireRequest) : List UInt8 := r.head ++ r.body

theorem isChunked_headers (r : WireRequest) : isChunked r.req.headers = false := by
  rw [← Bool.not_eq_true, isChunked_iff]
  rintro ⟨v, hv, -⟩
  rw [r.not_coded] at hv
  exact absurd hv (by simp)

theorem bodyLength_headers (r : WireRequest) : bodyLength r.req.headers = r.body.length := by
  rcases r.framed with ⟨hnone, hbody⟩ | ⟨v, hv, hnumber⟩
  · rw [bodyLength_eq, hnone, hbody]
    rfl
  · exact bodyLength_of_number (by rw [hv]; rfl) hnumber (le_maxU64 r.body_lt)

end WireRequest

/-- What is known of the parser: a part of a head is not enough, and a head is found
whatever follows it. -/
structure ParsesHeads (parse : List UInt8 → ParseStatus HttpRequest) (rs : List WireRequest) :
    Prop where
  empty : parse [] = .incomplete
  part : ∀ r ∈ rs, ∀ p, p <+: r.head → p ≠ r.head → parse p = .incomplete
  whole : ∀ r ∈ rs, ∀ t, parse (r.head ++ t) = .complete r.head.length r.req

theorem ParsesHeads.tail {parse : List UInt8 → ParseStatus HttpRequest} {r : WireRequest}
    {rs : List WireRequest} (h : ParsesHeads parse (r :: rs)) : ParsesHeads parse rs where
  empty := h.empty
  part := fun x hx => h.part x (List.mem_cons_of_mem _ hx)
  whole := fun x hx => h.whole x (List.mem_cons_of_mem _ hx)

/-! ## Calls of `handle_request` -/

/-- A call of `handle_request`, with the body that it reads, if it reads one. -/
structure Call where
  req : HttpRequest
  body : Option (List UInt8)
  world : World

namespace Call

/-- The loop goes on afterwards: the request does not ask to close, and the handler
ends normally. -/
def goesOn (server : Server) (c : Call) : Bool :=
  wantsKeepAlive c.req.headers &&
    c.body.any fun body => (respond server c.world c.req body).ending = .done

end Call

/-- The call of a round, if there is one. -/
def call (server : Server) (c : Conn) (world : World) : List Call :=
  match c.ended, server.crates.parseRequest c.buffer with
  | none, .complete headerSize req =>
    [{ req := req
       body :=
        match readBody c.stream (c.buffer.drop headerSize) req.headers with
        | .ok (body, _) _ => some body
        | _ => none
       world := world }]
  | _, _ => []

/-- The calls in a run. -/
def calls (server : Server) (c : Conn) (worlds : List World) : List Call :=
  Run.observe (serveRound server) (call server) c worlds

theorem calls_cons (server : Server) (c : Conn) (world : World) (worlds : List World) :
    calls server c (world :: worlds) =
      call server c world ++ calls server (serveRound server c world) worlds := rfl

/-- After the end nothing happens any more. -/
theorem serveRound_of_ended {server : Server} {c : Conn} {e : Ending} (h : c.ended = some e)
    (world : World) : serveRound server c world = c := by
  unfold serveRound
  rw [h]

theorem run_of_ended {server : Server} {c : Conn} {e : Ending} (h : c.ended = some e)
    (worlds : List World) : run (serveRound server) c worlds = c := by
  induction worlds with
  | nil => rfl
  | cons world worlds ih => rw [Run.run_cons, serveRound_of_ended h, ih]

theorem calls_of_ended {server : Server} {c : Conn} {e : Ending} (h : c.ended = some e)
    (worlds : List World) : calls server c worlds = [] := by
  induction worlds with
  | nil => rfl
  | cons world worlds ih =>
    have hcall : call server c world = [] := by
      unfold call
      rw [h]
    rw [calls_cons, serveRound_of_ended h, hcall, ih, List.nil_append]

/-! ## One round -/

section Round

variable {server : Server} {c : Conn} {r : WireRequest} {rs : List WireRequest}

/-- A round that reads. -/
theorem round_of_incomplete (hended : c.ended = none)
    (hparse : server.crates.parseRequest c.buffer = .incomplete) (world : World) :
    call server c world = [] ∧ serveRound server c world = readMore c := by
  constructor
  · unfold call
    rw [hended, hparse]
  · unfold serveRound pending
    rw [hended, hparse]

/-- Nothing is left: the connection ends. -/
theorem calls_of_no_bytes (hempty : server.crates.parseRequest [] = .incomplete)
    (hended : c.ended = none) (hbytes : c.buffer ++ c.stream.bytes = []) (worlds : List World) :
    calls server c worlds = [] := by
  obtain ⟨hbuffer, hstream⟩ := List.append_eq_nil_iff.mp hbytes
  have hreads : c.stream.reads = [] := by
    cases hreads : c.stream.reads with
    | nil => rfl
    | cons x reads =>
      rw [Stream.bytes, hreads, packetBytes_cons] at hstream
      exact absurd (List.append_eq_nil_iff.mp hstream).1 x.2
  cases worlds with
  | nil => rfl
  | cons world worlds =>
    obtain ⟨hcall, hround⟩ := round_of_incomplete hended (hbuffer ▸ hempty) world
    rw [calls_cons, hcall, hround, List.nil_append]
    have hdone : ∃ e, (readMore c).ended = some e := by
      unfold readMore
      rw [hreads]
      cases c.stream.ending with
      | waiting => exact ⟨_, rfl⟩
      | failed => exact ⟨_, rfl⟩
      | closed =>
        simp only [hbuffer, if_true]
        exact ⟨_, rfl⟩
    obtain ⟨e, he⟩ := hdone
    exact calls_of_ended he worlds

/-- While the head of the next request has not arrived, the round reads. -/
theorem round_of_part (h : ParsesHeads server.crates.parseRequest (r :: rs))
    (hended : c.ended = none)
    (hbytes : c.buffer ++ c.stream.bytes = (r :: rs).flatMap WireRequest.bytes)
    (hpart : ¬ r.head <+: c.buffer) (world : World) :
    call server c world = [] ∧ (serveRound server c world).ended = none ∧
      (serveRound server c world).buffer ++ (serveRound server c world).stream.bytes =
        (r :: rs).flatMap WireRequest.bytes ∧
      (serveRound server c world).stream.reads.length + 1 = c.stream.reads.length := by
  have hhead : c.buffer ++ c.stream.bytes = r.head ++ (r.body ++ rs.flatMap WireRequest.bytes) := by
    rw [hbytes, List.flatMap_cons, WireRequest.bytes, List.append_assoc]
  have hbuffer : c.buffer <+: r.head :=
    (List.prefix_or_prefix_of_prefix (List.prefix_append ..)
      (hhead ▸ List.prefix_append ..)).resolve_left hpart
  have hne : c.buffer ≠ r.head := fun heq => hpart (heq ▸ List.prefix_refl _)
  obtain ⟨hcall, hround⟩ := round_of_incomplete hended (h.part r (by simp) _ hbuffer hne) world
  cases hreads : c.stream.reads with
  | nil =>
    rw [Stream.bytes, hreads, packetBytes_nil, List.append_nil] at hhead
    exact absurd ⟨_, hhead.symm⟩ hpart
  | cons x reads =>
    have hmore : readMore c =
        { c with buffer := c.buffer ++ x.1, stream := ⟨reads, c.stream.ending⟩ } := by
      unfold readMore
      rw [hreads]
    rw [hround, hmore]
    refine ⟨hcall, hended, ?_, by simp⟩
    rw [← hbytes, Stream.bytes, Stream.bytes, hreads, packetBytes_cons, List.append_assoc]

/-- Once it has arrived, the request is handled with its body, and nothing behind it
is touched. -/
theorem round_of_whole (h : ParsesHeads server.crates.parseRequest (r :: rs))
    (hended : c.ended = none)
    (hbytes : c.buffer ++ c.stream.bytes = (r :: rs).flatMap WireRequest.bytes)
    (hwhole : r.head <+: c.buffer) (world : World) :
    call server c world = [⟨r.req, some r.body, world⟩] ∧
      (serveRound server c world).ended =
        afterHandling (wantsKeepAlive r.req.headers) (respond server world r.req r.body).ending ∧
      (serveRound server c world).buffer ++ (serveRound server c world).stream.bytes =
        rs.flatMap WireRequest.bytes ∧
      (serveRound server c world).stream.reads.length ≤ c.stream.reads.length := by
  obtain ⟨buffered, hbuffer⟩ := hwhole
  have hrest : buffered ++ c.stream.bytes = r.body ++ rs.flatMap WireRequest.bytes := by
    rw [← hbuffer, List.flatMap_cons, WireRequest.bytes, List.append_assoc, List.append_assoc]
      at hbytes
    exact List.append_cancel_left hbytes
  obtain ⟨leftover, reads', hread, hleft, hneeded⟩ :=
    readBody_of_length r.isChunked_headers r.bodyLength_headers.symm hrest
  have hparse : server.crates.parseRequest c.buffer = .complete r.head.length r.req :=
    hbuffer ▸ h.whole r (by simp) buffered
  have hdrop : c.buffer.drop r.head.length = buffered := by
    rw [← hbuffer]
    exact List.drop_left' rfl
  have hround : serveRound server c world =
      { buffer := leftover
        stream := ⟨reads', c.stream.ending⟩
        requests := c.requests ++ [r.req]
        written := c.written ++ (respond server world r.req r.body).written
        ended := afterHandling (wantsKeepAlive r.req.headers)
          (respond server world r.req r.body).ending } := by
    unfold serveRound pending
    rw [hended, hparse]
    simp only [hdrop, hread]
  rw [hround]
  refine ⟨?_, rfl, hleft, hneeded.suffix.length_le⟩
  unfold call
  rw [hended, hparse]
  simp only [hdrop, hread]

end Round

/-! ## Every run -/

/-- The calls are those for the first of the requests, and the loop goes on after all of
them but the last; with enough rounds, it is not over before all requests are handled or
the last call has ended the connection. -/
structure CallsFor (server : Server) (rs : List WireRequest) (enough : Prop) (cs : List Call) :
    Prop where
  inOrder : cs.map (fun c => (c.req, c.body)) <+: rs.map fun r => (r.req, some r.body)
  goOn : ∀ c ∈ cs.dropLast, c.goesOn server = true
  all : enough → cs.length = rs.length ∨ ∃ c, cs.getLast? = some c ∧ c.goesOn server = false

theorem CallsFor.nil {server : Server} {rs : List WireRequest} {enough : Prop}
    (h : enough → rs = []) : CallsFor server rs enough [] where
  inOrder := List.nil_prefix
  goOn := by simp
  all := fun he => .inl (by rw [h he]; rfl)

/-- One more call in front, after which the loop goes on. -/
theorem CallsFor.cons {server : Server} {r : WireRequest} {rs : List WireRequest}
    {enough enough' : Prop} {cs : List Call} (h : CallsFor server rs enough cs)
    (henough : enough' → enough) {c : Call} (hreq : c.req = r.req) (hbody : c.body = some r.body)
    (hgo : c.goesOn server = true) : CallsFor server (r :: rs) enough' (c :: cs) where
  inOrder := by
    rw [List.map_cons, List.map_cons, hreq, hbody]
    exact List.cons_prefix_cons.mpr ⟨rfl, h.inOrder⟩
  goOn := by
    intro x hx
    cases cs with
    | nil => exact absurd hx (by simp)
    | cons y ys =>
      rw [List.dropLast_cons_of_ne_nil (by simp)] at hx
      rcases List.mem_cons.mp hx with rfl | hx
      · exact hgo
      · exact h.goOn x hx
  all := by
    intro he
    rcases h.all (henough he) with hlen | ⟨x, hx, hstop⟩
    · exact .inl (by rw [List.length_cons, List.length_cons, hlen])
    · refine .inr ⟨x, ?_, hstop⟩
      rw [List.getLast?_cons, hx]
      rfl

/-- A call after which the connection ends. -/
theorem CallsFor.last {server : Server} {r : WireRequest} {rs : List WireRequest} {enough : Prop}
    {c : Call} (hreq : c.req = r.req) (hbody : c.body = some r.body)
    (hstop : c.goesOn server = false) : CallsFor server (r :: rs) enough [c] where
  inOrder := by
    rw [List.map_singleton, List.map_cons, hreq, hbody]
    exact List.cons_prefix_cons.mpr ⟨rfl, List.nil_prefix⟩
  goOn := by simp
  all := fun _ => .inr ⟨c, rfl, hstop⟩

/-- The loop goes on exactly if the round leaves the connection open. -/
theorem afterHandling_eq_none_iff {keepAlive : Bool} {e : Ending} :
    afterHandling keepAlive e = none ↔ keepAlive = true ∧ e = .done := by
  cases e <;> cases keepAlive <;> simp [afterHandling]

/-- The run, from any state between two rounds. -/
theorem callsFor_of_bytes {server : Server} {rs : List WireRequest}
    (h : ParsesHeads server.crates.parseRequest rs) {c : Conn} (hended : c.ended = none)
    (hbytes : c.buffer ++ c.stream.bytes = rs.flatMap WireRequest.bytes) (worlds : List World) :
    CallsFor server rs (rs.length + c.stream.reads.length ≤ worlds.length)
      (calls server c worlds) := by
  induction worlds generalizing c rs with
  | nil =>
    refine CallsFor.nil ?_
    intro hle
    rw [List.length_nil] at hle
    exact List.length_eq_zero_iff.mp (by omega)
  | cons world worlds ih =>
    cases rs with
    | nil =>
      rw [calls_of_no_bytes h.empty hended hbytes]
      exact CallsFor.nil fun _ => rfl
    | cons r rs =>
      rw [calls_cons]
      by_cases hwhole : r.head <+: c.buffer
      · obtain ⟨hcall, hafter, hleft, hreads⟩ := round_of_whole h hended hbytes hwhole world
        rw [hcall, List.singleton_append]
        by_cases hgo : Call.goesOn server ⟨r.req, some r.body, world⟩ = true
        · obtain ⟨hkeep, hdone⟩ : wantsKeepAlive r.req.headers = true ∧
              (respond server world r.req r.body).ending = .done := by
            simpa [Call.goesOn] using hgo
          have hopen : (serveRound server c world).ended = none :=
            hafter.trans (afterHandling_eq_none_iff.mpr ⟨hkeep, hdone⟩)
          refine (ih h.tail hopen hleft).cons ?_ rfl rfl hgo
          intro hle
          rw [List.length_cons, List.length_cons] at hle
          omega
        · have hclosed : (serveRound server c world).ended ≠ none := by
            rw [hafter, ne_eq, afterHandling_eq_none_iff]
            simpa [Call.goesOn] using hgo
          obtain ⟨e, he⟩ := Option.ne_none_iff_exists'.mp hclosed
          rw [calls_of_ended he]
          exact CallsFor.last rfl rfl (Bool.not_eq_true _ ▸ hgo)
      · obtain ⟨hcall, hopen, hkept, hreads⟩ := round_of_part h hended hbytes hwhole world
        rw [hcall, List.nil_append]
        have hrest := ih h hopen hkept
        refine ⟨hrest.inOrder, hrest.goOn, fun hle => hrest.all ?_⟩
        simp only [List.length_cons] at hle ⊢
        omega

/-- **Pipelining.**  However the bytes of the requests are cut into reads, and whatever
the world answers, `handle_request` is called once for each of them, in order and with
its body, up to the first after which the connection ends: it asks to close, or its
handler does not end normally. -/
theorem pipelined_calls {server : Server} {rs : List WireRequest}
    (h : ParsesHeads server.crates.parseRequest rs) (s : Stream)
    (hs : s.bytes = rs.flatMap WireRequest.bytes) (worlds : List World) :
    CallsFor server rs (rs.length + s.reads.length ≤ worlds.length)
      (calls server (Conn.start s) worlds) :=
  callsFor_of_bytes (c := Conn.start s) h rfl hs worlds

/-! ## Two requests of the demo -/

/-- A request for a file, as it is sent. -/
def demoWireGet : WireRequest where
  req := demoGet
  head := demoGetBytes
  body := []
  headers_le := by decide
  not_coded := by decide +kernel
  framed := .inl ⟨by decide +kernel, rfl⟩
  body_lt := by decide

theorem demo_parsesHeads :
    ParsesHeads demoServer.crates.parseRequest [demoWireGet, demoWireGet] := by
  have hall : ∀ r ∈ [demoWireGet, demoWireGet], r = demoWireGet := by simp
  refine ⟨?_, ?_, ?_⟩
  · have hget : ¬ demoGetBytes.isPrefixOf [] = true := by decide +kernel
    have hhead : ¬ demoHeadBytes.isPrefixOf [] = true := by decide +kernel
    simp only [demoServer, demoCrates, if_neg hget, if_neg hhead]
  · intro r hr p hp hne
    rw [hall r hr] at hp hne
    have hget : ¬ demoGetBytes.isPrefixOf p = true := by
      rw [List.isPrefixOf_iff_prefix]
      intro hle
      exact hne (hp.eq_of_length (le_antisymm hp.length_le hle.length_le))
    have hhead : ¬ demoHeadBytes.isPrefixOf p = true := by
      rw [List.isPrefixOf_iff_prefix]
      intro hle
      exact absurd (List.isPrefixOf_iff_prefix.mpr (hle.trans hp)) (by decide +kernel)
    simp only [demoServer, demoCrates, if_neg hget, if_neg hhead]
  · intro r hr t
    rw [hall r hr]
    have hget : demoGetBytes.isPrefixOf (demoGetBytes ++ t) = true :=
      List.isPrefixOf_iff_prefix.mpr (List.prefix_append ..)
    simp only [demoServer, demoCrates, demoWireGet, if_pos hget]

/-- Both requests of the demo are handled, in three rounds. -/
theorem demo_pipelined_calls :
    demoGets.bytes = [demoWireGet, demoWireGet].flatMap WireRequest.bytes ∧
      CallsFor demoServer [demoWireGet, demoWireGet]
        ([demoWireGet, demoWireGet].length + demoGets.reads.length ≤
          [demoWorld, demoWorld, demoWorld].length)
        (calls demoServer (Conn.start demoGets) [demoWorld, demoWorld, demoWorld]) := by
  have hbytes : demoGets.bytes = [demoWireGet, demoWireGet].flatMap WireRequest.bytes := by
    decide +kernel
  exact ⟨hbytes, pipelined_calls demo_parsesHeads demoGets hbytes _⟩

/-- The file cannot be opened. -/
def demoUnreadable : World :=
  { demoWorld with
    fs := { demoFiles with openFile := fun _ => .error (utf8 "Permission denied") } }

/-- **A request is never handled.**  Neither request asks to close, but the first is for
a file that cannot be opened: that ends the connection, and the second is not handled in
any number of rounds. -/
theorem demo_second_dropped :
    ParsesHeads demoServer.crates.parseRequest [demoWireGet, demoWireGet] ∧
      demoGets.bytes = [demoWireGet, demoWireGet].flatMap WireRequest.bytes ∧
      (∀ r ∈ [demoWireGet, demoWireGet], wantsKeepAlive r.req.headers = true) ∧
      ∀ worlds, (calls demoServer (Conn.start demoGets)
        (demoUnreadable :: demoUnreadable :: worlds)).length = 1 := by
  refine ⟨demo_parsesHeads, by decide +kernel, by decide +kernel, ?_⟩
  intro worlds
  have hended : (run (serveRound demoServer) (Conn.start demoGets)
      [demoUnreadable, demoUnreadable]).ended =
        some (.failed (.io (utf8 "Permission denied"))) := by decide +kernel
  have hfirst : (calls demoServer (Conn.start demoGets)
      [demoUnreadable, demoUnreadable]).length = 1 := by decide +kernel
  have hrest : calls demoServer (run (serveRound demoServer) (Conn.start demoGets)
      [demoUnreadable, demoUnreadable]) worlds = [] := calls_of_ended hended worlds
  rw [Run.run_cons, Run.run_cons, Run.run_nil] at hrest
  rw [calls_cons, calls_cons, hrest]
  exact hfirst

end PpcaNetwork.Minicaddy
