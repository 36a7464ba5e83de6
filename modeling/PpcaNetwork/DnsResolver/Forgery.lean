import PpcaNetwork.DnsResolver.Provenance

/-!
# Forged replies

`send_query` draws a random identifier for each query and takes the first datagram
that reaches its socket, from whatever address and about whatever question.

* `Exchange.Matches` — the reply belongs to the query.
* `Believes` — records of a reply have come into the cache or the answer.
* `only_matching_believed_iff` — a query believes exactly what it receives first; in
  a run that receives matching replies only, all records come from these.
-/

namespace PpcaNetwork.Dns

/-- What a query meets when these datagrams arrive at its socket, in this order:
`recv_from` is called once, and the socket is closed. -/
def Upstream.ofArrivals : List (SocketAddr × List UInt8) → Upstream
  | [] => .failed .recv (utf8 "timed out")
  | (sender, datagram) :: _ => .received sender datagram

/-- The reply comes from the server that was queried, is a response, and has the
identifier and the question of the query. -/
structure Exchange.Matches (x : Exchange) : Prop where
  sender : x.sender = x.server
  isResponse : x.reply.header.isResponse = true
  question : (decodeMessage x.query).map (fun query => (query.header.id, query.questions)) =
    some (x.reply.header.id, x.reply.questions)

instance (x : Exchange) : Decidable x.Matches :=
  decidable_of_iff
    (x.sender = x.server ∧ x.reply.header.isResponse = true ∧
      (decodeMessage x.query).map (fun query => (query.header.id, query.questions)) =
        some (x.reply.header.id, x.reply.questions))
    ⟨fun ⟨hsender, hresponse, hquestion⟩ => ⟨hsender, hresponse, hquestion⟩,
      fun h => ⟨h.sender, h.isResponse, h.question⟩⟩

/-- After a query, a record of the reply is in the cache or among the answers. -/
def Believes (r : Except ResolveError Sections × World) (reply : DnsMessage) : Prop :=
  ∃ rr ∈ reply.records, r.2.cache.Stores rr ∨ ∃ sections, r.1 = .ok sections ∧ rr ∈ sections.answers

/-- The replies that carry records belong to their queries. -/
def OnlyMatching (xs : List Exchange) : Prop := ∀ x ∈ xs, x.reply.records = [] ∨ x.Matches

/-- A query believes every reply it receives, as far as that carries records. -/
theorem believes_iff (name : Text) (qtype : UInt16) (servers : List Server)
    (lastErr : ResolveError) (w : World) :
    let r := queryServers name qtype servers lastErr w
    ∀ x ∈ w.received r.2, Believes r x.reply ↔ x.reply.records ≠ [] := by
  intro r x hx
  rcases queryServers_received name qtype servers lastErr w with
    ⟨hnone, -⟩ | ⟨y, w₁, hnew, -, -, hput⟩
  · rw [show w.received r.2 = [] from hnone] at hx
    exact absurd hx (by simp)
  · change w.received r.2 = [y] at hnew
    rw [hnew] at hx
    obtain rfl := List.mem_singleton.mp hx
    constructor
    · rintro ⟨rr, hrr, -⟩ hempty
      rw [hempty] at hrr
      exact absurd hrr (by simp)
    · intro hne
      obtain ⟨rr, hrr⟩ := List.exists_mem_of_ne_nil _ hne
      refine ⟨rr, hrr, .inl ?_⟩
      rw [show r.2 = _ from hput, World.stores_putAll_iff]
      exact .inr ⟨rr, hrr, .refl rr⟩

/-- **What is believed.**  For every query in a state, whatever reaches its socket: it
believes matching replies only exactly if those it receives match or carry no records.
In every run from there whose replies are such, every record in the cache and in the
answers was in the cache at the start or is from a matching reply. -/
theorem only_matching_believed_iff (w : World) :
    (∀ (name : Text) (qtype : UInt16) (servers : List Server) (lastErr : ResolveError),
      let r := queryServers name qtype servers lastErr w
      (∀ x ∈ w.received r.2, Believes r x.reply → x.Matches) ↔ OnlyMatching (w.received r.2)) ∧
    ∀ questions : List (Text × UInt16),
      let s := run Session.resolve ⟨w, []⟩ questions
      OnlyMatching (w.received s.world) →
        ∀ rr, s.world.cache.Stores rr ∨ rr ∈ s.answered →
          w.cache.Stores rr ∨
            ∃ x ∈ w.received s.world, x.Matches ∧ ∃ rr' ∈ x.reply.records, rr'.Same rr := by
  constructor
  · intro name qtype servers lastErr r
    have hbelieves := believes_iff name qtype servers lastErr w
    constructor
    · intro h x hx
      by_cases hempty : x.reply.records = []
      · exact .inl hempty
      · exact .inr (h x hx ((hbelieves x hx).mpr hempty))
    · intro h x hx hbelieved
      have hne := (hbelieves x hx).mp hbelieved
      exact (h x hx).resolve_left hne
  · intro questions s hmatching rr hrr
    obtain ⟨new, hlog, horigin⟩ := Session.learned w questions
    have hnew : w.received s.world = new := World.received_of_log hlog
    rcases horigin rr hrr with hstores | ⟨x, hx, rr', hmem, hsame⟩
    · exact .inl hstores
    · refine .inr ⟨x, hnew ▸ hx, ?_, rr', hmem, hsame⟩
      rcases hmatching x (hnew ▸ hx) with hempty | hmatches
      · rw [hempty] at hmem
        exact absurd hmem (by simp)
      · exact hmatches

/-! ## The demo -/

/-- A reply about a name of the demo, with one address. -/
def demoAddressReply (id flags : UInt16) (asked : String) (ip : Ipv4Addr) : DnsMessage where
  header := { id := id, flags := flags, qdcount := 1, ancount := 1, nscount := 0, arcount := 0 }
  questions := [{ qname := utf8 asked, qtype := typeA, qclass := classIn }]
  answers := [demoRr "www.example.com." typeA (.a ip)]
  authorities := []
  additionals := []

/-- The demo resolver, which draws the identifier 7 and whose socket these reach. -/
def demoSocket (arrivals : List (SocketAddr × DnsMessage)) : World :=
  { demoWorld [] with
    upstream := [(7, .ofArrivals (arrivals.map fun (sender, reply) =>
      (sender, encodeMessage reply)))] }

/-- The root server's reply to the query. -/
def demoGenuine : SocketAddr × DnsMessage :=
  (⟨demoRootAddr, dnsPort⟩, demoAddressReply 7 0x8180 "www.example.com." ⟨93, 184, 216, 34⟩)

/-- A datagram from elsewhere that is no response, has another identifier and is about
another name. -/
def demoForged : SocketAddr × DnsMessage :=
  (⟨⟨6, 6, 6, 6⟩, 4444⟩, demoAddressReply 9 0x0100 "other.test." ⟨6, 6, 6, 6⟩)

/-- When the server's reply arrives first, the answer is from there. -/
theorem demo_genuine_believed :
    let w := demoSocket [demoGenuine, demoForged]
    let s := run Session.resolve ⟨w, []⟩ [(utf8 "www.example.com.", typeA)]
    ∀ rr, s.world.cache.Stores rr ∨ rr ∈ s.answered →
      w.cache.Stores rr ∨
        ∃ x ∈ w.received s.world, x.Matches ∧ ∃ rr' ∈ x.reply.records, rr'.Same rr :=
  (only_matching_believed_iff (demoSocket [demoGenuine, demoForged])).2
    [(utf8 "www.example.com.", typeA)] (by
      show ∀ x ∈ _, _ ∨ _
      decide +kernel)

/-- **A forged datagram is believed** when it arrives first: its record is cached and
returned. -/
theorem demo_forgery_believed :
    let w := demoSocket [demoForged, demoGenuine]
    let s := run Session.resolve ⟨w, []⟩ [(utf8 "www.example.com.", typeA)]
    s.answered = demoForged.2.answers ∧
      (∀ rr ∈ s.answered, s.world.cache.Stores rr ∧ ¬ w.cache.Stores rr) ∧
      (w.received s.world).map (fun x => (x.server, x.sender, x.reply)) =
        [(demoGenuine.1, demoForged)] ∧
      ∀ x ∈ w.received s.world, ¬ x.Matches := by
  decide +kernel

end PpcaNetwork.Dns
