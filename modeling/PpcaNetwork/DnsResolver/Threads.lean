import PpcaNetwork.Lib.Threads
import PpcaNetwork.DnsResolver.Provenance
import PpcaNetwork.DnsResolver.Server

/-!
# The server and its threads

`main` of `dnsresolver/src/main.rs` handles every datagram in a thread of its own, and all threads
work on one cache, each operation of which takes a lock.  Here the functions of the resolver are
written once more, as the operations that one thread does.

* `Operation` — what a thread does to what it shares with the others.
* `Thread.resolve`, `Thread.handleQuery` — the functions, operation by operation.
* `Thread.handleQuery_alone` — a thread that runs alone does what `handleQuery` does.
-/

namespace PpcaNetwork.Dns

/-! ## Operations -/

/-- What a thread does to the cache, the clock and the network.  The time that passes while a query
is on its way shows in what the other threads have done before the answer. -/
inductive Operation where
  /-- `Instant::now`, which `put` and `put_nxdomain` call before they take their lock. -/
  | now
  | get (name : Text) (qtype : UInt16)
  | put (rr : DnsRR) (now : Instant)
  | putNxdomain (name : Text) (qtype : UInt16) (ttl : UInt32) (now : Instant)
  | isNxdomain (name : Text) (qtype : UInt16)
  | sendQuery (server : SocketAddr) (name : Text) (qtype : UInt16)

/-- What the operation returns. -/
abbrev Operation.Answer : Operation → Type
  | now => Instant
  | get .. => Option (List DnsRR)
  | put .. => Unit
  | putNxdomain .. => Unit
  | isNxdomain .. => Bool
  | sendQuery .. => Except QueryError DnsMessage

/-- One operation of some thread. -/
def World.exec : (op : Operation) → World → op.Answer × World
  | .now, w => (w.tick.now, w.tick)
  | .get name qtype, w => w.get name qtype
  | .put rr now, w => ((), { w with cache := w.cache.put rr now })
  | .putNxdomain name qtype ttl now, w =>
    ((), { w with cache := w.cache.putNxdomain name qtype classIn ttl now })
  | .isNxdomain name qtype, w => w.isNxdomain name qtype
  | .sendQuery server name qtype, w => sendQuery server name qtype w

/-- What is left of a function for its thread to do. -/
abbrev Thread (α : Type) := Prog Operation.Answer α

namespace Thread

/-! ## The functions -/

/-- One operation of a thread. -/
abbrev perform (op : Operation) : Thread op.Answer := Prog.perform op

/-- `cache.get`. -/
def get (name : Text) (qtype : UInt16) : Thread (Option (List DnsRR)) :=
  perform (.get name qtype)

/-- `cache.put`, which reads the clock first. -/
def put (rr : DnsRR) : Thread Unit := do
  let now ← perform .now
  perform (.put rr now)

/-- The loops that put a section into the cache. -/
def putAll (rrs : List DnsRR) : Thread Unit := rrs.foldlM (fun _ rr => put rr) ()

/-- `cache.put_nxdomain`, which reads the clock first. -/
def putNxdomain (name : Text) (qtype : UInt16) (ttl : UInt32) : Thread Unit := do
  let now ← perform .now
  perform (.putNxdomain name qtype ttl now)

/-- `cache.is_nxdomain`. -/
def isNxdomain (name : Text) (qtype : UInt16) : Thread Bool := perform (.isNxdomain name qtype)

/-- The body of the loop of `get_ns_ips`. -/
def addNsIps (servers : List Server) (ns : DnsRR) : Thread (List Server) :=
  match ns.rdata with
  | .ns nsName => do
    let aRecords ← get nsName typeA
    pure (servers ++ serversOf nsName (aRecords.getD []))
  | _ => pure servers

/-- `cache.get_ns_ips`. -/
def getNsIps (zone : Text) : Thread (List Server) := do
  let nsRecords ← get (toAsciiLowercase zone) typeNs
  (nsRecords.getD []).foldlM addNsIps []

/-- The loop of `get_nameservers`. -/
def firstNameservers (name : Text) : List Text → Thread (Except ResolveError (List Server))
  | [] => pure (.error (.noNsRecords name))
  | zone :: zones => do
    let nsIps ← getNsIps zone
    if nsIps.isEmpty then firstNameservers name zones else pure (.ok nsIps)

/-- `get_nameservers`. -/
def getNameservers (name : Text) : Thread (Except ResolveError (List Server)) :=
  firstNameservers name (zonesOf name)

/-- The loop of `query_best_server`, with `lastErr` the error so far. -/
def queryServers (name : Text) (qtype : UInt16) :
    List Server → ResolveError → Thread (Except ResolveError Sections)
  | [], lastErr => pure (.error lastErr)
  | (nsName, ip) :: servers, _ => do
    match ← perform (.sendQuery ⟨ip, dnsPort⟩ name qtype) with
    | .ok reply => do
      putAll reply.answers
      putAll reply.authorities
      putAll reply.additionals
      pure (.ok (sectionsOf reply))
    | .error e => queryServers name qtype servers (.server nsName e)

/-- `query_best_server`. -/
def queryBestServer (name : Text) (qtype : UInt16) (servers : List Server) :
    Thread (Except ResolveError Sections) :=
  queryServers name qtype servers .noServer

/-- How the address of a name server is looked up, unless `MAX_GLUE_DEPTH` is reached. -/
abbrev ResolveNs := Option (Text → Thread (Except ResolveError (List DnsRR)))

/-- The body of the loop of `extract_referral`. -/
def addReferral (glue : List Server) (resolveNs : ResolveNs) (servers : List Server) (ns : Text) :
    Thread (List Server) :=
  match glue.find? (·.1 = ns) with
  | some (_, ip) => pure (servers ++ [(ns, ip)])
  | none => do
    match ← get ns typeA with
    | some aRecords => pure (servers ++ serversOf ns aRecords)
    | none =>
      match resolveNs with
      | none => pure servers
      | some resolve => do
        match ← resolve ns with
        | .ok rrs => pure (servers ++ serversOf ns rrs)
        | .error _ => pure servers

/-- `extract_referral`. -/
def extractReferral (authorities additionals : List DnsRR) (resolveNs : ResolveNs) :
    Thread (Option (List Server)) :=
  let nsNames := nsNamesOf authorities
  if nsNames.isEmpty then pure none
  else do
    let servers ← nsNames.foldlM (addReferral (glueOf additionals) resolveNs) []
    pure (some servers)

/-- The variables of the loop of `resolve_iterative`. -/
structure Locals where
  servers : List Server
  visitedNs : List Text
  currentName : Text
  cnameDepth : Nat
  cnameChain : List DnsRR

/-- The result of `resolve_iterative`, or the next round. -/
abbrev NextRound := Round Locals (Except ResolveError (List DnsRR))

/-- A reply with answers. -/
def onAnswers (qtype : UInt16) (s : Locals) (answers : List DnsRR) : Thread NextRound :=
  let matching := extractMatching answers qtype
  if !matching.isEmpty then pure (.done (.ok (s.cnameChain ++ matching)))
  else if qtype = typeCname then pure (.done (.ok s.cnameChain))
  else
    match findCname answers with
    | none => pure (.done (.ok s.cnameChain))
    | some (rr, target) =>
      if maxCnameDepth ≤ s.cnameDepth then pure (.done (.error .cnameDepthExceeded))
      else do
        match ← getNameservers target with
        | .error e => pure (.done (.error e))
        | .ok servers =>
          pure (.next { s with
            servers := servers
            currentName := target
            cnameDepth := s.cnameDepth + 1
            cnameChain := s.cnameChain ++ [rr] })

/-- A reply with a referral to `servers`. -/
def onReferral (s : Locals) (servers : List Server) : NextRound :=
  if servers.isEmpty then .done (.error .emptyReferral)
  else if s.visitedNs.contains (nsKey servers) then .done (.error .referralCycle)
  else .next { s with servers := servers, visitedNs := nsKey servers :: s.visitedNs }

/-- A reply without answers. -/
def onNoAnswers (resolveNs : ResolveNs) (name : Text) (qtype : UInt16) (s : Locals)
    (authorities additionals : List DnsRR) : Thread NextRound := do
  match ← extractReferral authorities additionals resolveNs with
  | some servers => pure (onReferral s servers)
  | none =>
    if isNxdomainReply authorities then do
      putNxdomain name qtype (extractSoaMinimum authorities)
      pure (.done (.ok []))
    else pure (.done (.error .noUsefulResponse))

/-- One round of the loop. -/
def round (resolveNs : ResolveNs) (name : Text) (qtype : UInt16) (s : Locals) :
    Thread NextRound := do
  match ← get s.currentName qtype with
  | some rrs => pure (.done (.ok (s.cnameChain ++ rrs)))
  | none => do
    match ← queryBestServer s.currentName qtype s.servers with
    | .error e => pure (.done (.error e))
    | .ok sections =>
      if sections.answers.isEmpty then
        onNoAnswers resolveNs name qtype s sections.authorities sections.additionals
      else onAnswers qtype s sections.answers

/-- What the loop starts from. -/
def Locals.start (name : Text) (servers : List Server) : Locals := ⟨servers, [], name, 0, []⟩

/-- The body of `resolve_iterative`. -/
def lookupWith (resolveNs : ResolveNs) (name : Text) (qtype : UInt16) :
    Thread (Except ResolveError (List DnsRR)) := do
  match ← getNameservers rootName with
  | .error e => pure (.error e)
  | .ok servers =>
    Prog.bounded (round resolveNs name qtype) (fun _ => .error .tooManyIterations) maxIterations
      (.start name servers)

/-- `resolve_iterative`. -/
def lookup : (glueLeft : Nat) → (name : Text) → (qtype : UInt16) →
    Thread (Except ResolveError (List DnsRR))
  | 0, name, qtype => lookupWith none name qtype
  | glueLeft + 1, name, qtype => lookupWith (some fun ns => lookup glueLeft ns typeA) name qtype

/-- What `resolve` finds out before it turns an error into an empty list. -/
def tryResolve (name : Text) (qtype : UInt16) : Thread (Except ResolveError (List DnsRR)) := do
  let name := toAsciiLowercase name
  match ← get name qtype with
  | some rrs => pure (.ok rrs)
  | none => do
    match ← isNxdomain name qtype with
    | true => pure (.ok [])
    | false => lookup maxGlueDepth name qtype

/-- `resolve`. -/
def resolve (name : Text) (qtype : UInt16) : Thread (List DnsRR) := do
  match ← tryResolve name qtype with
  | .ok rrs => pure rrs
  | .error _ => pure []

/-- The loop of `handle_query` over the questions. -/
def answerQuestions : List DnsQuestion → List DnsRR → UInt8 → Thread (List DnsRR × UInt8)
  | [], answers, rcode => pure (answers, rcode)
  | q :: questions, answers, rcode => do
    let results ← resolve q.qname q.qtype
    if results.isEmpty then do
      match ← isNxdomain q.qname q.qtype with
      | true => answerQuestions questions (answers ++ results) rcodeNxdomain
      | false => answerQuestions questions (answers ++ results) rcode
    else answerQuestions questions (answers ++ results) rcode

/-- `handle_query`: the datagram sent to the client, if the query can be read. -/
def handleQuery (data : List UInt8) : Thread (Option (List UInt8)) :=
  match decodeMessage data with
  | none => pure none
  | some query => do
    let (answers, rcode) ← answerQuestions query.questions [] rcodeNoerror
    pure (some (encodeMessage (buildResponse query answers rcode)))

/-! ## A thread that runs alone -/

section Alone

@[simp] theorem get_alone (name : Text) (qtype : UInt16) (w : World) :
    (get name qtype).alone World.exec w = w.get name qtype := rfl

@[simp] theorem put_alone (rr : DnsRR) (w : World) :
    (put rr).alone World.exec w = ((), w.put rr) := rfl

@[simp] theorem putNxdomain_alone (name : Text) (qtype : UInt16) (ttl : UInt32) (w : World) :
    (putNxdomain name qtype ttl).alone World.exec w = ((), w.putNxdomain name qtype ttl) := rfl

@[simp] theorem isNxdomain_alone (name : Text) (qtype : UInt16) (w : World) :
    (isNxdomain name qtype).alone World.exec w = w.isNxdomain name qtype := rfl

@[simp] theorem putAll_alone (rrs : List DnsRR) (w : World) :
    (putAll rrs).alone World.exec w = ((), w.putAll rrs) := by
  rw [putAll, Prog.alone_foldlM]
  induction rrs generalizing w with
  | nil => rfl
  | cons rr rrs ih =>
    rw [List.foldl_cons, put_alone]
    exact ih (w.put rr)

theorem addNsIps_alone (servers : List Server) (ns : DnsRR) (w : World) :
    (addNsIps servers ns).alone World.exec w = Dns.addNsIps (servers, w) ns := by
  unfold addNsIps Dns.addNsIps
  cases ns.rdata with
  | ns nsName => rfl
  | _ => rfl

theorem getNsIps_alone (zone : Text) (w : World) :
    (getNsIps zone).alone World.exec w = Dns.getNsIps zone w := by
  rw [getNsIps, Prog.alone_bind, get_alone, Prog.alone_foldlM]
  simp only [addNsIps_alone]
  rfl

theorem firstNameservers_alone (name : Text) (zones : List Text) (w : World) :
    (firstNameservers name zones).alone World.exec w = Dns.firstNameservers name zones w := by
  induction zones generalizing w with
  | nil => rfl
  | cons zone zones ih =>
    rw [firstNameservers, Prog.alone_bind, getNsIps_alone, Dns.firstNameservers]
    rcases Dns.getNsIps zone w with ⟨nsIps, w'⟩
    dsimp only
    split
    · exact ih w'
    · rfl

theorem getNameservers_alone (name : Text) (w : World) :
    (getNameservers name).alone World.exec w = Dns.getNameservers name w :=
  firstNameservers_alone name (zonesOf name) w

theorem queryServers_alone (name : Text) (qtype : UInt16) (servers : List Server)
    (lastErr : ResolveError) (w : World) :
    (queryServers name qtype servers lastErr).alone World.exec w =
      Dns.queryServers name qtype servers lastErr w := by
  induction servers generalizing lastErr w with
  | nil => rfl
  | cons server servers ih =>
    rw [queryServers, Prog.alone_bind, Prog.alone_perform, Dns.queryServers, World.exec]
    rcases sendQuery ⟨server.2, dnsPort⟩ name qtype w with ⟨e | reply, w'⟩
    · exact ih _ w'
    · simp only [Prog.alone_bind, putAll_alone]
      rfl

/-- The same for a resolution of its own. -/
def ResolveNs.alone (resolveNs : ResolveNs) : Dns.ResolveNs :=
  resolveNs.map fun resolve ns w => (resolve ns).alone World.exec w

theorem addReferral_alone (glue : List Server) (resolveNs : ResolveNs) (servers : List Server)
    (ns : Text) (w : World) : (addReferral glue resolveNs servers ns).alone World.exec w =
      Dns.addReferral glue resolveNs.alone (servers, w) ns := by
  unfold addReferral Dns.addReferral
  cases glue.find? (·.1 = ns) with
  | some server => rfl
  | none =>
    simp only [Prog.alone_bind, get_alone]
    rcases w.get ns typeA with ⟨_ | aRecords, w'⟩
    · cases resolveNs with
      | none => rfl
      | some resolve =>
        simp only [ResolveNs.alone, Option.map_some, Prog.alone_bind]
        rcases (resolve ns).alone World.exec w' with ⟨_ | rrs, w''⟩
        · rfl
        · rfl
    · rfl

theorem extractReferral_alone (authorities additionals : List DnsRR) (resolveNs : ResolveNs)
    (w : World) : (extractReferral authorities additionals resolveNs).alone World.exec w =
      Dns.extractReferral authorities additionals resolveNs.alone w := by
  unfold extractReferral Dns.extractReferral
  dsimp only
  split
  · rfl
  · rw [Prog.alone_bind, Prog.alone_foldlM]
    simp only [addReferral_alone]
    rfl

/-- The variables that the thread holds. -/
def Locals.of (s : Lookup) : Locals :=
  ⟨s.servers, s.visitedNs, s.currentName, s.cnameDepth, s.cnameChain⟩

@[simp] theorem Locals.of_servers (s : Lookup) : (Locals.of s).servers = s.servers := rfl

@[simp] theorem Locals.of_currentName (s : Lookup) : (Locals.of s).currentName = s.currentName :=
  rfl

/-- What a round comes to, without the trace. -/
def withoutTrace : Round Lookup Outcome → NextRound × World
  | .done o => (.done o.result, o.world)
  | .next s => (.next (.of s), s.world)

theorem onAnswers_alone (qtype : UInt16) (s : Lookup) (answers : List DnsRR) (w : World) :
    (onAnswers qtype (.of s) answers).alone World.exec w =
      withoutTrace (s.onAnswers qtype answers w) := by
  unfold onAnswers Lookup.onAnswers
  dsimp only
  split
  · rfl
  split
  · rfl
  cases findCname answers with
  | none => rfl
  | some found =>
    obtain ⟨rr, target⟩ := found
    dsimp only
    by_cases hdeep : maxCnameDepth ≤ s.cnameDepth
    · rw [if_pos (show maxCnameDepth ≤ (Locals.of s).cnameDepth from hdeep), if_pos hdeep]
      rfl
    · rw [if_neg (show ¬ maxCnameDepth ≤ (Locals.of s).cnameDepth from hdeep), if_neg hdeep,
        Prog.alone_bind, getNameservers_alone]
      rcases Dns.getNameservers target w with ⟨e | servers, w'⟩
      · rfl
      · rfl

theorem onReferral_alone (s : Lookup) (servers : List Server) (w : World) :
    (onReferral (.of s) servers, w) = withoutTrace (s.onReferral servers w) := by
  unfold onReferral Lookup.onReferral
  split
  · rfl
  · have hcontains : (Locals.of s).visitedNs.contains (nsKey servers) = true ↔
        nsKey servers ∈ s.visitedNs := List.contains_iff_mem
    dsimp only
    by_cases hvisited : nsKey servers ∈ s.visitedNs
    · rw [if_pos (hcontains.mpr hvisited), if_pos hvisited]
      rfl
    · rw [if_neg (mt hcontains.mp hvisited), if_neg hvisited]
      rfl

theorem onNoAnswers_alone (resolveNs : ResolveNs) (name : Text) (qtype : UInt16) (s : Lookup)
    (authorities additionals : List DnsRR) (w : World) :
    (onNoAnswers resolveNs name qtype (.of s) authorities additionals).alone World.exec w =
      withoutTrace
        (s.onNoAnswers resolveNs.alone name qtype authorities additionals w) := by
  rw [onNoAnswers, Prog.alone_bind, extractReferral_alone, Lookup.onNoAnswers]
  rcases Dns.extractReferral authorities additionals resolveNs.alone w with ⟨_ | servers, w'⟩
  · dsimp only
    split
    · rw [Prog.alone_bind, putNxdomain_alone]
      rfl
    · rfl
  · exact onReferral_alone s servers w'

/-- **One round.** -/
theorem round_alone (resolveNs : ResolveNs) (name : Text) (qtype : UInt16) (s : Lookup) :
    (round resolveNs name qtype (.of s)).alone World.exec s.world =
      withoutTrace (s.round resolveNs.alone name qtype) := by
  rw [round, Prog.alone_bind, get_alone, Locals.of_currentName, Locals.of_servers, Lookup.round]
  rcases s.world.get s.currentName qtype with ⟨_ | rrs, w⟩
  · dsimp only
    rw [Prog.alone_bind, queryBestServer, queryServers_alone, Dns.queryBestServer]
    rcases Dns.queryServers s.currentName qtype s.servers .noServer w with ⟨e | sections, w'⟩
    · rfl
    · dsimp only
      split
      · exact onNoAnswers_alone resolveNs name qtype s _ _ w'
      · exact onAnswers_alone qtype s _ w'
  · rfl

theorem lookupWith_alone (resolveNs : ResolveNs) (name : Text) (qtype : UInt16) (w : World) :
    (lookupWith resolveNs name qtype).alone World.exec w =
      let o := Dns.lookupWith resolveNs.alone name qtype w
      (o.result, o.world) := by
  rw [lookupWith, Prog.alone_bind, getNameservers_alone, Dns.lookupWith]
  rcases Dns.getNameservers rootName w with ⟨e | servers, w'⟩
  · rfl
  · refine Prog.alone_bounded World.exec (fun s : Lookup => (Locals.of s, s.world))
      (fun o : Outcome => (o.result, o.world)) ?_ (fun s => rfl) maxIterations
      (.start name servers w')
    intro s
    refine (round_alone resolveNs name qtype s).trans ?_
    cases s.round resolveNs.alone name qtype with
    | done o => rfl
    | next s' => rfl

theorem lookup_alone (glueLeft : Nat) (name : Text) (qtype : UInt16) (w : World) :
    (lookup glueLeft name qtype).alone World.exec w =
      resolveIterative glueLeft name qtype w := by
  induction glueLeft generalizing name qtype w with
  | zero => exact lookupWith_alone none name qtype w
  | succ glueLeft ih =>
    rw [lookup, lookupWith_alone]
    simp only [ResolveNs.alone, Option.map_some, ih]
    rfl

theorem tryResolve_alone (name : Text) (qtype : UInt16) (w : World) :
    (tryResolve name qtype).alone World.exec w = Dns.tryResolve name qtype w := by
  rw [tryResolve, Dns.tryResolve, Prog.alone_bind, get_alone]
  rcases w.get (toAsciiLowercase name) qtype with ⟨_ | rrs, w'⟩
  · dsimp only
    rw [Prog.alone_bind, isNxdomain_alone]
    rcases w'.isNxdomain (toAsciiLowercase name) qtype with ⟨_ | _, w''⟩
    · exact lookup_alone maxGlueDepth (toAsciiLowercase name) qtype w''
    · rfl
  · rfl

theorem resolve_alone (name : Text) (qtype : UInt16) (w : World) :
    (resolve name qtype).alone World.exec w = Dns.resolve name qtype w := by
  rw [resolve, Prog.alone_bind, tryResolve_alone, Dns.resolve]
  rcases Dns.tryResolve name qtype w with ⟨e | rrs, w'⟩
  · rfl
  · rfl

theorem answerQuestions_alone (questions : List DnsQuestion) (answers : List DnsRR)
    (rcode : UInt8) (w : World) :
    (answerQuestions questions answers rcode).alone World.exec w =
      let r := Dns.answerQuestions questions answers rcode w
      ((r.1, r.2.1), r.2.2) := by
  induction questions generalizing answers rcode w with
  | nil => rfl
  | cons q questions ih =>
    rw [answerQuestions, Prog.alone_bind, resolve_alone, Dns.answerQuestions]
    rcases Dns.resolve q.qname q.qtype w with ⟨results, w'⟩
    dsimp only
    split
    · rw [Prog.alone_bind, isNxdomain_alone]
      rcases w'.isNxdomain q.qname q.qtype with ⟨_ | _, w''⟩
      · exact ih _ _ w''
      · exact ih _ _ w''
    · exact ih _ _ w'

/-- **A thread that nothing comes between does what `handleQuery` does.** -/
theorem handleQuery_alone (data : List UInt8) (w : World) :
    (handleQuery data).alone World.exec w = Dns.handleQuery data w := by
  unfold handleQuery Dns.handleQuery
  cases decodeMessage data with
  | none => rfl
  | some query =>
    dsimp only
    rw [Prog.alone_bind, answerQuestions_alone]
    rfl

end Alone

end Thread

end PpcaNetwork.Dns
