import PpcaNetwork.DnsResolver.Resolve

/-!
# The best server

`query_best_server` asks the servers of its list one after another.  It goes on to the next
one when a query fails or its reply cannot be decoded, and returns what the first decodable
reply says, whatever its RCODE.

* `repliesOf` — what each server of the list has to say.
* `DnsMessage.Conclusive` — the replies that settle a question.
* `queryServers_firstReply` — the loop, as a search through the replies.
* `best_server_iff` — when a failing server does not mask a working one.
-/

namespace PpcaNetwork.Dns

/-! ## What the servers say -/

/-- The message that a query gets back, if it gets one that can be decoded. -/
def Upstream.reply : Upstream → Option DnsMessage
  | .failed _ _ => none
  | .received _ datagram => decodeMessage (datagram.take queryBufferSize)

/-- What each server of a list has to say, when each of them is asked in turn.  A server for
which there is nothing in `upstream` does not answer. -/
def repliesOf : List Server → List (UInt16 × Upstream) → List (Option DnsMessage)
  | [], _ => []
  | _ :: servers, [] => none :: repliesOf servers []
  | _ :: servers, (_, u) :: upstream => u.reply :: repliesOf servers upstream

/-- The first reply of all. -/
def firstReply (replies : List (Option DnsMessage)) : Option DnsMessage :=
  replies.findSome? id

/-- The reply settles the question: the name exists, or it does not. -/
def DnsMessage.Conclusive (reply : DnsMessage) : Prop :=
  reply.header.rcode = rcodeNoerror ∨ reply.header.rcode = rcodeNxdomain

instance (reply : DnsMessage) : Decidable reply.Conclusive :=
  inferInstanceAs (Decidable (_ ∨ _))

/-- The first reply that settles the question. -/
def firstConclusive (replies : List (Option DnsMessage)) : Option DnsMessage :=
  replies.findSome? fun reply => reply.filter (·.Conclusive)

/-! ## The loop -/

/-- A query returns what the next item of `upstream` holds, and uses it up. -/
theorem sendQuery_reply (server : SocketAddr) (name : Text) (qtype : UInt16) (w : World) :
    let r := sendQuery server name qtype w
    r.2.upstream = w.upstream.tail ∧
      match (w.upstream.head?).bind fun u => u.2.reply with
      | some reply => r.1 = .ok reply
      | none => ∃ e, r.1 = .error e := by
  unfold sendQuery
  split
  · rename_i hnil
    rw [hnil]
    exact ⟨hnil, _, rfl⟩
  · rename_i id call e upstream hcons
    rw [hcons]
    exact ⟨rfl, _, rfl⟩
  · rename_i id sender datagram upstream hcons
    rw [hcons]
    simp only [List.head?_cons, Option.bind_some, Upstream.reply]
    cases hdecode : decodeMessage (datagram.take queryBufferSize) with
    | none => exact ⟨rfl, _, rfl⟩
    | some reply => exact ⟨rfl, rfl⟩

theorem repliesOf_cons (server : Server) (servers : List Server)
    (upstream : List (UInt16 × Upstream)) :
    repliesOf (server :: servers) upstream =
      ((upstream.head?).bind fun u => u.2.reply) :: repliesOf servers upstream.tail := by
  cases upstream with
  | nil => rfl
  | cons u upstream => rfl

/-- **The loop is a search.**  It returns what the first reply of all says, and an error if
there is no reply. -/
theorem queryServers_firstReply (name : Text) (qtype : UInt16) (servers : List Server)
    (lastErr : ResolveError) (w : World) :
    match firstReply (repliesOf servers w.upstream) with
    | some reply => (queryServers name qtype servers lastErr w).1 = .ok (sectionsOf reply)
    | none => ∃ e, (queryServers name qtype servers lastErr w).1 = .error e := by
  induction servers generalizing lastErr w with
  | nil => exact ⟨lastErr, rfl⟩
  | cons server servers ih =>
    obtain ⟨nsName, ip⟩ := server
    have hsend := sendQuery_reply ⟨ip, dnsPort⟩ name qtype w
    rw [repliesOf_cons, firstReply, List.findSome?_cons]
    cases hquery : sendQuery ⟨ip, dnsPort⟩ name qtype w with
    | mk r w₁ =>
      obtain ⟨hupstream, hreply⟩ := hquery ▸ hsend
      simp only [queryServers, hquery, id]
      cases hhead : (w.upstream.head?).bind fun u => u.2.reply with
      | some reply =>
        rw [hhead] at hreply
        obtain rfl : r = .ok reply := hreply
        rfl
      | none =>
        rw [hhead] at hreply
        obtain ⟨e, rfl⟩ : ∃ e, r = .error e := hreply
        rw [← show w₁.upstream = w.upstream.tail from hupstream]
        exact ih (.server nsName e) w₁

/-! ## Failing and working servers -/

theorem firstConclusive_of_conclusive {replies : List (Option DnsMessage)} {reply : DnsMessage}
    (hfirst : firstReply replies = some reply) (h : reply.Conclusive) :
    firstConclusive replies = some reply := by
  induction replies with
  | nil => exact absurd hfirst (by simp [firstReply])
  | cons r replies ih =>
    cases r with
    | none => exact ih hfirst
    | some r =>
      obtain rfl : r = reply := Option.some.inj hfirst
      simp [firstConclusive, h]

/-- Where nobody answers, nobody settles the question. -/
theorem firstConclusive_of_no_reply {replies : List (Option DnsMessage)}
    (h : firstReply replies = none) : firstConclusive replies = none := by
  rw [firstReply, List.findSome?_eq_none_iff] at h
  rw [firstConclusive, List.findSome?_eq_none_iff]
  intro r hr
  rw [show r = none from h r hr]
  rfl

/-- **When a failing server masks a working one.**  Take any list of servers and anything they
may have to say.  That the reply of the first server with `NOERROR` or `NXDOMAIN` is returned,
and an error only if there is none: it holds if and only if, where there is such a server, the
first reply that can be decoded is such a reply itself, or has the same contents. -/
theorem best_server_iff (name : Text) (qtype : UInt16) (servers : List Server) (w : World) :
    ((∀ reply, firstConclusive (repliesOf servers w.upstream) = some reply →
        (queryBestServer name qtype servers w).1 = .ok (sectionsOf reply)) ∧
      (∀ e, (queryBestServer name qtype servers w).1 = .error e →
        firstConclusive (repliesOf servers w.upstream) = none)) ↔
    ∀ reply, firstConclusive (repliesOf servers w.upstream) = some reply →
      ∀ first, firstReply (repliesOf servers w.upstream) = some first →
        first.Conclusive ∨ sectionsOf first = sectionsOf reply := by
  have hloop := queryServers_firstReply name qtype servers .noServer w
  rw [← queryBestServer] at hloop
  cases hfirst : firstReply (repliesOf servers w.upstream) with
  | none =>
    have hnone := firstConclusive_of_no_reply hfirst
    simp [hnone]
  | some first =>
    rw [hfirst] at hloop
    simp only [hloop, reduceCtorEq, false_implies, implies_true, and_true, Except.ok.injEq,
      Option.some.injEq, forall_eq']
    refine forall₂_congr fun reply hreply => ?_
    constructor
    · exact .inr
    · rintro (hconclusive | heq)
      · rw [firstConclusive_of_conclusive hfirst hconclusive] at hreply
        rw [Option.some.inj hreply]
      · exact heq

/-- Two root servers. -/
def demoServers : List Server :=
  [(utf8 "a.root-servers.net.", demoRootAddr), (utf8 "b.root-servers.net.", ⟨170, 247, 170, 2⟩)]

/-- The address that the second of them knows. -/
def demoKnown : DnsMessage :=
  demoReply rcodeNoerror [demoRr "www.example.com." typeA (.a ⟨93, 184, 216, 34⟩)] [] []

/-- **A failing server masks a working one.**  The first server replies `SERVFAIL`: that is
returned, as a reply without records, and the second one is not asked. -/
theorem demo_masked :
    firstConclusive (repliesOf demoServers (demoWorld [demoReply 2 [] [] [], demoKnown]).upstream) =
        some demoKnown ∧
      (queryBestServer (utf8 "www.example.com.") typeA demoServers
        (demoWorld [demoReply 2 [] [] [], demoKnown])).1 = .ok ⟨[], [], []⟩ ∧
      sectionsOf demoKnown ≠ ⟨[], [], []⟩ := by
  decide +kernel

/-- A server that cannot be reached does not mask it. -/
example :
    (queryBestServer (utf8 "www.example.com.") typeA demoServers
      { demoWorld [demoKnown] with
        upstream := (1, .failed .recv (utf8 "timed out")) :: (demoWorld [demoKnown]).upstream }).1 =
      .ok (sectionsOf demoKnown) := by
  decide +kernel

end PpcaNetwork.Dns
