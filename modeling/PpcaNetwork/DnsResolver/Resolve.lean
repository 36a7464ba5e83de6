import PpcaNetwork.Lib.Loop
import PpcaNetwork.DnsResolver.Cache

/-!
# Iterative resolution

`dnsresolver/src/resolve.rs`: from the root servers down, following referrals
and `CNAME` records.  The resolver works in a `World`: its cache, the clock, and
what its next queries to upstream servers will meet, which is arbitrary.

* `World` — everything a resolution reads and changes, with a log of the upstream
  replies.
* `Lookup.round` — one round of the loop of `resolve_iterative`.
* `lookup` — `resolve_iterative` together with the trace of what it received;
  `resolveIterative` is its result.
* `resolve` — the entry point, which consults the cache first.

The function is called for a name server without an address, up to
`MAX_GLUE_DEPTH` calls deep; `glueLeft` is how many more levels are allowed, that
is `MAX_GLUE_DEPTH - glue_depth`.  The lines printed under `--verbose` are left
out.
-/

namespace PpcaNetwork.Dns

/-! ## Constants -/

/-- How many aliases are followed. -/
def maxCnameDepth : Nat := 16

/-- How many rounds the loop has. -/
def maxIterations : Nat := 30

/-- How deep the calls for the addresses of name servers go. -/
def maxGlueDepth : Nat := 3

/-- The port that servers are queried on. -/
def dnsPort : UInt16 := 53

/-- The size of the receive buffer of `send_query`. -/
def queryBufferSize : Nat := 4096

/-! ## Errors -/

/-- The calls of `send_query` to the operating system. -/
inductive SocketCall where
  | bind
  | setTimeout
  | send
  | recv
  deriving DecidableEq, Repr

/-- What an error calls it. -/
def SocketCall.text : SocketCall → Text
  | .bind => utf8 "bind"
  | .setTimeout => utf8 "set_timeout"
  | .send => utf8 "send"
  | .recv => utf8 "recv"

/-- The errors of `send_query`. -/
inductive QueryError where
  | socket (call : SocketCall) (e : Text)
  | invalidResponse
  deriving DecidableEq, Repr

/-- The error as a string. -/
def QueryError.text : QueryError → Text
  | .socket call e => call.text ++ utf8 ": " ++ e
  | .invalidResponse => utf8 "invalid DNS response"

/-- The errors of `resolve_iterative` and what it calls. -/
inductive ResolveError where
  | noNsRecords (name : Text)
  /-- `last_err` of `query_best_server` when there is no server to query. -/
  | noServer
  | server (nsName : Text) (e : QueryError)
  | cnameDepthExceeded
  | emptyReferral
  | referralCycle
  | noUsefulResponse
  | tooManyIterations
  deriving DecidableEq, Repr

/-- The error as a string. -/
def ResolveError.text : ResolveError → Text
  | .noNsRecords name => utf8 "no NS records found for " ++ name
  | .noServer => []
  | .server nsName e => nsName ++ utf8 ": " ++ e.text
  | .cnameDepthExceeded => utf8 "CNAME depth exceeded"
  | .emptyReferral => utf8 "empty referral"
  | .referralCycle => utf8 "referral cycle detected"
  | .noUsefulResponse => utf8 "no useful response from any server"
  | .tooManyIterations => utf8 "too many iterations"

/-- The text of a referral cycle belongs to no other error. -/
theorem ResolveError.text_eq_referralCycle_iff (e : ResolveError) :
    e.text = utf8 "referral cycle detected" ↔ e = .referralCycle := by
  constructor
  · intro h
    cases e with
    | referralCycle => rfl
    | noNsRecords name =>
      have hleft : utf8 "no NS records found for " = 0x6E :: utf8 "o NS records found for " := by
        decide
      have hright : utf8 "referral cycle detected" = 0x72 :: utf8 "eferral cycle detected" := by
        decide
      rw [text, hleft, hright] at h
      exact absurd (List.cons.inj h).1 (by decide)
    | server nsName e =>
      have hcolon : (0x3A : UInt8) ∈ utf8 "referral cycle detected" := by
        rw [← h]
        show _ ∈ (nsName ++ utf8 ": ") ++ e.text
        exact List.mem_append_left _ (List.mem_append_right _ (by decide))
      exact absurd hcolon (by decide)
    | noServer => exact absurd h (by decide)
    | cnameDepthExceeded => exact absurd h (by decide)
    | emptyReferral => exact absurd h (by decide)
    | noUsefulResponse => exact absurd h (by decide)
    | tooManyIterations => exact absurd h (by decide)
  · rintro rfl
    rfl

/-! ## The world -/

/-- A socket address. -/
structure SocketAddr where
  ip : Ipv4Addr
  port : UInt16
  deriving DecidableEq, Repr

/-- What a query to an upstream server meets. -/
inductive Upstream where
  | failed (call : SocketCall) (e : Text)
  | received (sender : SocketAddr) (datagram : List UInt8)
  deriving DecidableEq, Repr

/-- A query that an upstream server has answered with a valid message. -/
structure Exchange where
  server : SocketAddr
  /-- The datagram sent to the server. -/
  query : List UInt8
  sender : SocketAddr
  asked : Text
  qtype : UInt16
  reply : DnsMessage
  deriving DecidableEq, Repr

/-- The resolver's cache and what surrounds it. -/
structure World where
  cache : DnsCache
  now : Instant
  /-- The time that passes before each of the next calls of `Instant::now`. -/
  delays : List Duration
  /-- For each of the next queries, the identifier `fastrand` draws for it and
  what it meets.  When the list is used up, queries time out. -/
  upstream : List (UInt16 × Upstream)
  /-- The queries answered so far. -/
  log : List Exchange

namespace World

/-- `Instant::now`. -/
def tick (w : World) : World :=
  match w.delays with
  | [] => w
  | d :: ds => { w with now := w.now + d, delays := ds }

/-- `cache.get` for class `IN`. -/
def get (w : World) (name : Text) (qtype : UInt16) : Option (List DnsRR) × World :=
  let w := w.tick
  let (rrs, cache) := w.cache.get name qtype classIn w.now
  (rrs, { w with cache := cache })

/-- `cache.put`. -/
def put (w : World) (rr : DnsRR) : World :=
  let w := w.tick
  { w with cache := w.cache.put rr w.now }

/-- `cache.put_all`. -/
def putAll (w : World) (rrs : List DnsRR) : World := rrs.foldl put w

/-- `cache.put_nxdomain` for class `IN`. -/
def putNxdomain (w : World) (name : Text) (qtype : UInt16) (ttl : UInt32) : World :=
  let w := w.tick
  { w with cache := w.cache.putNxdomain name qtype classIn ttl w.now }

/-- `cache.is_nxdomain` for class `IN`. -/
def isNxdomain (w : World) (name : Text) (qtype : UInt16) : Bool × World :=
  let w := w.tick
  (w.cache.isNxdomain name qtype classIn w.now, w)

end World

/-! ## Servers -/

/-- A name server and one of its addresses. -/
abbrev Server := Text × Ipv4Addr

/-- The addresses that `A` records give a name server. -/
def serversOf (nsName : Text) (rrs : List DnsRR) : List Server :=
  rrs.filterMap fun rr =>
    match rr.rdata with
    | .a ip => some (nsName, ip)
    | _ => none

/-- The body of the loop of `get_ns_ips`. -/
def addNsIps (acc : List Server × World) (ns : DnsRR) : List Server × World :=
  match ns.rdata with
  | .ns nsName =>
    let (aRecords, w) := acc.2.get nsName typeA
    (acc.1 ++ serversOf nsName (aRecords.getD []), w)
  | _ => acc

/-- `cache.get_ns_ips`. -/
def getNsIps (zone : Text) (w : World) : List Server × World :=
  let (nsRecords, w) := w.get (toAsciiLowercase zone) typeNs
  (nsRecords.getD []).foldl addNsIps ([], w)

/-- The zones that `get_nameservers` tries for a name, in order. -/
def zonesOf (name : Text) : List Text :=
  let labels := (trimEndMatches dot name).splitOn dot ++ [[]]
  (List.range labels.length).map fun i =>
    if i = labels.length - 1 then rootName else joinText [dot] (labels.drop i) ++ [dot]

/-- The loop of `get_nameservers`. -/
def firstNameservers (name : Text) :
    List Text → World → Except ResolveError (List Server) × World
  | [], w => (.error (.noNsRecords name), w)
  | zone :: zones, w =>
    let (nsIps, w) := getNsIps zone w
    if nsIps.isEmpty then firstNameservers name zones w else (.ok nsIps, w)

/-- `get_nameservers`: the servers of the closest zone that has any. -/
def getNameservers (name : Text) (w : World) : Except ResolveError (List Server) × World :=
  firstNameservers name (zonesOf name) w

/-! ## Queries -/

/-- The query that `send_query` builds. -/
def queryMessage (id : UInt16) (name : Text) (qtype : UInt16) : DnsMessage where
  header := { id := id, flags := 0x0100, qdcount := 1, ancount := 0, nscount := 0, arcount := 0 }
  questions := [{ qname := name, qtype := qtype, qclass := classIn }]
  answers := []
  authorities := []
  additionals := []

/-- `send_query`: one datagram out, one datagram in. -/
def sendQuery (server : SocketAddr) (name : Text) (qtype : UInt16) (w : World) :
    Except QueryError DnsMessage × World :=
  match w.upstream with
  | [] => (.error (.socket .recv (utf8 "timed out")), w)
  | (_, .failed call e) :: upstream =>
    (.error (.socket call e), { w with upstream := upstream })
  | (id, .received sender datagram) :: upstream =>
    let w := { w with upstream := upstream }
    match decodeMessage (datagram.take queryBufferSize) with
    | none => (.error .invalidResponse, w)
    | some reply =>
      (.ok reply,
        { w with
          log := w.log ++
            [{ server := server, query := encodeMessage (queryMessage id name qtype),
               sender := sender, asked := name, qtype := qtype, reply := reply }] })

/-- The three record sections of a reply. -/
structure Sections where
  answers : List DnsRR
  authorities : List DnsRR
  additionals : List DnsRR
  deriving DecidableEq, Repr

/-- What `query_best_server` makes of a reply: the answers of an `NXDOMAIN` reply
do not count. -/
def sectionsOf (reply : DnsMessage) : Sections where
  answers := if reply.header.rcode = rcodeNxdomain then [] else reply.answers
  authorities := reply.authorities
  additionals := reply.additionals

/-- The loop of `query_best_server`, with `lastErr` the error so far. -/
def queryServers (name : Text) (qtype : UInt16) :
    List Server → ResolveError → World → Except ResolveError Sections × World
  | [], lastErr, w => (.error lastErr, w)
  | (nsName, ip) :: servers, _, w =>
    match sendQuery ⟨ip, dnsPort⟩ name qtype w with
    | (.ok reply, w) =>
      (.ok (sectionsOf reply),
        ((w.putAll reply.answers).putAll reply.authorities).putAll reply.additionals)
    | (.error e, w) => queryServers name qtype servers (.server nsName e) w

/-- `query_best_server`: the first reply, or the error of the last server. -/
def queryBestServer (name : Text) (qtype : UInt16) (servers : List Server) (w : World) :
    Except ResolveError Sections × World :=
  queryServers name qtype servers .noServer w

/-! ## Reading a reply -/

/-- The names of the `NS` records. -/
def nsNamesOf (authorities : List DnsRR) : List Text :=
  authorities.filterMap fun rr =>
    match rr.rdata with
    | .ns name => some name
    | _ => none

/-- The names and addresses of the `A` records. -/
def glueOf (additionals : List DnsRR) : List Server :=
  additionals.filterMap fun rr =>
    match rr.rdata with
    | .a ip => some (rr.name, ip)
    | _ => none

/-- How the address of a name server is looked up when neither the reply nor the
cache has it: a resolution of its own, unless `MAX_GLUE_DEPTH` is reached. -/
abbrev ResolveNs := Option (Text → World → Except ResolveError (List DnsRR) × World)

/-- The body of the loop of `extract_referral`. -/
def addReferral (glue : List Server) (resolveNs : ResolveNs) (acc : List Server × World)
    (ns : Text) : List Server × World :=
  match glue.find? (·.1 = ns) with
  | some (_, ip) => (acc.1 ++ [(ns, ip)], acc.2)
  | none =>
    match acc.2.get ns typeA with
    | (some aRecords, w) => (acc.1 ++ serversOf ns aRecords, w)
    | (none, w) =>
      match resolveNs with
      | none => (acc.1, w)
      | some resolve =>
        match resolve ns w with
        | (.ok rrs, w) => (acc.1 ++ serversOf ns rrs, w)
        | (.error _, w) => (acc.1, w)

/-- `extract_referral`: `none` when the reply has no `NS` record. -/
def extractReferral (authorities additionals : List DnsRR) (resolveNs : ResolveNs) (w : World) :
    Option (List Server) × World :=
  let nsNames := nsNamesOf authorities
  if nsNames.isEmpty then (none, w)
  else
    let (servers, w) := nsNames.foldl (addReferral (glueOf additionals) resolveNs) ([], w)
    (some servers, w)

/-- `find_cname`, with the target that `cname_target` reads. -/
def findCname (rrs : List DnsRR) : Option (DnsRR × Text) :=
  rrs.findSome? fun rr =>
    match rr.rdata with
    | .cname target => some (rr, target)
    | _ => none

/-- `extract_matching`: the records of a type, whatever their name. -/
def extractMatching (rrs : List DnsRR) (qtype : UInt16) : List DnsRR :=
  rrs.filter (·.rtype = qtype)

/-- `is_nxdomain` of a reply: it has an `SOA` record. -/
def isNxdomainReply (authorities : List DnsRR) : Bool := authorities.any (·.rtype = typeSoa)

/-- `extract_soa_minimum`: the minimum of the first `SOA`, or a minute. -/
def extractSoaMinimum (authorities : List DnsRR) : UInt32 :=
  (authorities.findSome? fun rr =>
    match rr.rdata with
    | .soa _ _ _ _ _ _ minimum => some minimum
    | _ => none).getD 60

/-- The key under which `visited_ns` remembers a referral. -/
def nsKey (servers : List Server) : Text := joinText (utf8 ",") (servers.map (·.1))

/-! ## The loop -/

/-- What a resolution has received. -/
inductive Received where
  /-- Records of the type asked for, in a reply about `asked`. -/
  | answered (asked : Text) (rrs : List DnsRR)
  /-- The `CNAME` record that was followed, in a reply about `asked`. -/
  | followed (asked : Text) (rr : DnsRR)
  /-- A referral to servers with addresses. -/
  | referred (servers : List Server)
  deriving DecidableEq, Repr

/-- The variables of the loop of `resolve_iterative`, with the trace of what it
has received, which the loop itself never reads. -/
structure Lookup where
  servers : List Server
  visitedNs : List Text
  currentName : Text
  cnameDepth : Nat
  cnameChain : List DnsRR
  trace : List Received
  world : World

/-- A resolution that has ended. -/
structure Outcome where
  result : Except ResolveError (List DnsRR)
  trace : List Received
  world : World

namespace Lookup

/-- Return `result` in the world `w`. -/
def finish (s : Lookup) (result : Except ResolveError (List DnsRR)) (w : World) :
    Round Lookup Outcome :=
  .done { result := result, trace := s.trace, world := w }

/-- A reply with answers: records of the type asked for, or a `CNAME` to follow. -/
def onAnswers (qtype : UInt16) (s : Lookup) (answers : List DnsRR) (w : World) :
    Round Lookup Outcome :=
  let matching := extractMatching answers qtype
  if !matching.isEmpty then
    let s : Lookup := { s with trace := s.trace ++ [.answered s.currentName matching] }
    s.finish (.ok (s.cnameChain ++ matching)) w
  else if qtype = typeCname then s.finish (.ok s.cnameChain) w
  else
    match findCname answers with
    | none => s.finish (.ok s.cnameChain) w
    | some (rr, target) =>
      if maxCnameDepth ≤ s.cnameDepth then s.finish (.error .cnameDepthExceeded) w
      else
        let s : Lookup := { s with
          cnameDepth := s.cnameDepth + 1
          currentName := target
          cnameChain := s.cnameChain ++ [rr]
          trace := s.trace ++ [.followed s.currentName rr] }
        match getNameservers target w with
        | (.error e, w) => s.finish (.error e) w
        | (.ok servers, w) => .next { s with servers := servers, world := w }

/-- A reply with a referral to `servers`. -/
def onReferral (s : Lookup) (servers : List Server) (w : World) : Round Lookup Outcome :=
  if servers.isEmpty then s.finish (.error .emptyReferral) w
  else
    let s : Lookup := { s with trace := s.trace ++ [.referred servers] }
    if nsKey servers ∈ s.visitedNs then s.finish (.error .referralCycle) w
    else
      .next { s with
        servers := servers
        visitedNs := nsKey servers :: s.visitedNs
        world := w }

/-- A reply without answers: a referral, or a negative answer for the name that
the resolution started with. -/
def onNoAnswers (resolveNs : ResolveNs) (name : Text) (qtype : UInt16) (s : Lookup)
    (authorities additionals : List DnsRR) (w : World) : Round Lookup Outcome :=
  match extractReferral authorities additionals resolveNs w with
  | (some servers, w) => s.onReferral servers w
  | (none, w) =>
    if isNxdomainReply authorities then
      s.finish (.ok []) (w.putNxdomain name qtype (extractSoaMinimum authorities))
    else s.finish (.error .noUsefulResponse) w

/-- One round of the loop. -/
def round (resolveNs : ResolveNs) (name : Text) (qtype : UInt16) (s : Lookup) :
    Round Lookup Outcome :=
  match s.world.get s.currentName qtype with
  | (some rrs, w) => s.finish (.ok (s.cnameChain ++ rrs)) w
  | (none, w) =>
    match queryBestServer s.currentName qtype s.servers w with
    | (.error e, w) => s.finish (.error e) w
    | (.ok sections, w) =>
      if sections.answers.isEmpty then
        s.onNoAnswers resolveNs name qtype sections.authorities sections.additionals w
      else s.onAnswers qtype sections.answers w

/-- What the loop starts from. -/
def start (name : Text) (servers : List Server) (w : World) : Lookup where
  servers := servers
  visitedNs := []
  currentName := name
  cnameDepth := 0
  cnameChain := []
  trace := []
  world := w

/-- What happens when the rounds are used up. -/
def exhausted (s : Lookup) : Outcome where
  result := .error .tooManyIterations
  trace := s.trace
  world := s.world

end Lookup

/-- The body of `resolve_iterative`, with the lookup of name server addresses as
a parameter. -/
def lookupWith (resolveNs : ResolveNs) (name : Text) (qtype : UInt16) (w : World) : Outcome :=
  match getNameservers rootName w with
  | (.error e, w) => { result := .error e, trace := [], world := w }
  | (.ok servers, w) =>
    Loop.bounded (Lookup.round resolveNs name qtype) Lookup.exhausted maxIterations
      (.start name servers w)

/-- `resolve_iterative`, with the trace of what it received. -/
def lookup : (glueLeft : Nat) → (name : Text) → (qtype : UInt16) → World → Outcome
  | 0, name, qtype, w => lookupWith none name qtype w
  | glueLeft + 1, name, qtype, w =>
    lookupWith (some fun ns w =>
      let o := lookup glueLeft ns typeA w
      (o.result, o.world)) name qtype w

/-- `resolve_iterative`. -/
def resolveIterative (glueLeft : Nat) (name : Text) (qtype : UInt16) (w : World) :
    Except ResolveError (List DnsRR) × World :=
  let o := lookup glueLeft name qtype w
  (o.result, o.world)

/-- What `resolve` finds out before it turns an error into an empty list. -/
def tryResolve (name : Text) (qtype : UInt16) (w : World) :
    Except ResolveError (List DnsRR) × World :=
  let name := toAsciiLowercase name
  match w.get name qtype with
  | (some rrs, w) => (.ok rrs, w)
  | (none, w) =>
    match w.isNxdomain name qtype with
    | (true, w) => (.ok [], w)
    | (false, w) => resolveIterative maxGlueDepth name qtype w

/-- `resolve`: an error is no answer. -/
def resolve (name : Text) (qtype : UInt16) (w : World) : List DnsRR × World :=
  match tryResolve name qtype w with
  | (.ok rrs, w) => (rrs, w)
  | (.error _, w) => ([], w)

/-! ## The demo resolver

The cache of the source's tests, which knows one root server, on which the
concrete runs of this development take place. -/

/-- The root server. -/
def demoRootAddr : Ipv4Addr := ⟨198, 41, 0, 4⟩

/-- The root server under its name. -/
def demoCache : DnsCache :=
  (DnsCache.new.put
    { name := rootName, rtype := typeNs, cls := classIn, ttl := 3600000
      rdata := .ns (utf8 "a.root-servers.net.") } 0).put
    { name := utf8 "a.root-servers.net.", rtype := typeA, cls := classIn, ttl := 3600000
      rdata := .a demoRootAddr } 0

/-- A record of the demo's servers. -/
def demoRr (name : String) (rtype : UInt16) (rdata : RData) : DnsRR where
  name := utf8 name
  rtype := rtype
  cls := classIn
  ttl := 300
  rdata := rdata

/-- A reply of the demo's servers. -/
def demoReply (rcode : UInt8) (answers authorities additionals : List DnsRR) : DnsMessage where
  header := { id := 7, flags := 0x8180 ||| rcode.toUInt16, qdcount := 0
              ancount := UInt16.ofNat answers.length, nscount := UInt16.ofNat authorities.length
              arcount := UInt16.ofNat additionals.length }
  questions := []
  answers := answers
  authorities := authorities
  additionals := additionals

/-- The demo resolver, whose next queries meet these replies. -/
def demoWorld (replies : List DnsMessage) : World where
  cache := demoCache
  now := 0
  delays := []
  upstream := replies.map fun reply =>
    (7, .received ⟨demoRootAddr, dnsPort⟩ (encodeMessage reply))
  log := []

end PpcaNetwork.Dns
