import PpcaNetwork.MyProxy.UdpRelay

/-!
# The client slot

The relay learns its client from the traffic: the sender of the first datagram with FRAG 0
and an address that can be read.  From then on its datagrams are requests, and all others
are sent to it with the address that they are from.

* `client_run` — whom the slot holds after a run.
* `pinned_and_encapsulated` — what every datagram of a run without an error causes.
* `requests_of_first_sender` — whose datagrams are taken for requests.
-/

namespace PpcaNetwork.MyProxy

/-- FRAG 0, and an address that can be read. -/
def IsRequest (d : Arrival) : Bool := (clientRequest d.data).isSome

/-- What the datagrams of a run cause, one after the other. -/
def sent (a : Association) (ds : List Arrival) : List Send :=
  Run.observe Association.step Association.sends a ds

variable {a : Association} {c : SocketAddr} {d : Arrival} {ds : List Arrival}

/-! ## The slot in a run -/

theorem client_step_of_some (h : a.relay.client = some c) :
    (a.step d).relay.client = some c := by
  cases hended : a.ended with
  | some e => rw [Association.step_of_ended hended, h]
  | none => rw [Association.client_step hended, h, slotAfter, Option.some_or]

/-- Once it is taken the slot does not change. -/
theorem client_run_of_some (h : a.relay.client = some c) :
    (run Association.step a ds).relay.client = some c :=
  Run.invariant (fun a : Association => a.relay.client = some c)
    (fun _ _ => client_step_of_some) h ds

/-- While nobody has sent a request, nothing happens. -/
theorem step_of_not_request (hclient : a.relay.client = none) (hended : a.ended = none)
    (hd : IsRequest d = false) :
    (a.step d).relay.client = none ∧ (a.step d).ended = none ∧ a.sends d = [] := by
  have hnone : clientRequest d.data = none := by simpa [IsRequest] using hd
  have hwish : wish a.relay.client d = .nothing := by
    rw [hclient, wish, requested, hnone]
  refine ⟨?_, ?_, ?_⟩
  · rw [Association.client_step hended, hclient, slotAfter, hnone]
    rfl
  · rw [Association.ended_step_iff hended, hwish]
    rfl
  · rw [Association.sends_eq hended, hwish]
    rfl

theorem run_of_not_request (hclient : a.relay.client = none) (hended : a.ended = none)
    (hds : ∀ d ∈ ds, IsRequest d = false) :
    (run Association.step a ds).relay.client = none ∧
    (run Association.step a ds).ended = none ∧ sent a ds = [] := by
  induction ds generalizing a with
  | nil => exact ⟨hclient, hended, rfl⟩
  | cons d ds ih =>
    obtain ⟨hclient, hended', hsends⟩ :=
      step_of_not_request hclient hended (hds d (List.mem_cons_self ..))
    obtain ⟨hrest, hrun, hsent⟩ := ih hclient hended' fun e he => hds e (List.mem_cons_of_mem _ he)
    refine ⟨hrest, hrun, ?_⟩
    rw [sent, Run.observe, hsends]
    exact hsent

theorem client_step_of_request (hclient : a.relay.client = none) (hended : a.ended = none)
    (hd : IsRequest d = true) : (a.step d).relay.client = some d.peer := by
  rw [Association.client_step hended, hclient, slotAfter, Option.none_or]
  exact if_pos hd

/-- The slot holds the first sender of a request, if there is one. -/
theorem client_run (idleTimeout : Duration) (ds : List Arrival) :
    (run Association.step (.new idleTimeout) ds).relay.client
      = (ds.find? IsRequest).map Arrival.peer := by
  cases hfind : ds.find? IsRequest with
  | none =>
    have hds : ∀ d ∈ ds, IsRequest d = false := by simpa using List.find?_eq_none.mp hfind
    exact (run_of_not_request rfl rfl hds).1
  | some d =>
    obtain ⟨hd, pre, post, rfl, hpre⟩ := List.find?_eq_some_iff_append.mp hfind
    have hunread : ∀ d ∈ pre, IsRequest d = false := by simpa using hpre
    obtain ⟨hclient, hended, -⟩ := run_of_not_request (a := .new idleTimeout) rfl rfl hunread
    rw [Run.run_append, Run.run_cons]
    exact client_run_of_some (client_step_of_request hclient hended hd)

/-! ## What a datagram causes -/

/-- What a datagram causes when `c` is the client. -/
structure Answers (c : SocketAddr) (d : Arrival) (out : List Send) : Prop where
  /-- A datagram from elsewhere is sent on with the address that it is from. -/
  reply : ∀ ip port, d.peer ≠ c → d.peer = .v4 ip port →
    ∃ r, out = [⟨r, c⟩] ∧ r.take 3 = [0x00, 0x00, 0x00] ∧
      Address.fromSocks5 (r.drop 3) = .ok (.ipv4 ip port, 7) ∧ r.drop 10 = d.data
  /-- Of a datagram of the client at most what stands behind its address is sent. -/
  request : d.peer = c → out = [] ∨ ∃ addr n target,
    Address.fromSocks5 (d.data.drop 3) = .ok (addr, n) ∧ out = [⟨d.data.drop (3 + n), target⟩]

theorem answers_requested (d : Arrival) : Answers d.peer d (requested d).sends where
  reply _ _ hne := absurd rfl hne
  request _ := by
    unfold requested
    cases h : clientRequest d.data with
    | none => exact .inl rfl
    | some request =>
      obtain ⟨addr, payload⟩ := request
      obtain ⟨-, -, n, hread, rfl⟩ := clientRequest_eq_some_iff.mp h
      dsimp only
      cases addr.resolveIpv4 d.lookupHost with
      | error e => exact .inl rfl
      | ok target => exact .inr ⟨addr, n, target, hread, rfl⟩

theorem answers_wish (c : SocketAddr) (d : Arrival) : Answers c d (wish (some c) d).sends := by
  by_cases hpeer : d.peer = c
  · subst hpeer
    rw [wish, if_pos rfl]
    exact answers_requested d
  · rw [wish, if_neg hpeer]
    refine ⟨?_, fun h => absurd h hpeer⟩
    intro ip port _ hip
    rw [hip]
    exact ⟨_, rfl, serverReply_reads ip port d.data⟩

/-- What the datagrams of a run cause once there is a client. -/
theorem answers_run (hclient : a.relay.client = some c)
    (hended : (run Association.step a ds).ended = none) :
    ∃ out, sent a ds = out.flatten ∧ List.Forall₂ (Answers c) ds out := by
  induction ds generalizing a with
  | nil => exact ⟨[], rfl, .nil⟩
  | cons d ds ih =>
    have hnow : a.ended = none := Association.ended_of_run hended
    obtain ⟨out, hsent, hout⟩ := ih (client_step_of_some hclient) hended
    refine ⟨a.sends d :: out, ?_, .cons ?_ hout⟩
    · rw [List.flatten_cons, ← hsent]
      rfl
    · rw [Association.sends_eq hnow, hclient]
      exact answers_wish c d

/-- In a run without an error the slot stays empty and nothing is sent, or it changes once,
to the sender of a datagram with FRAG 0 and an address that can be read, and from then on
each datagram in turn causes what it should. -/
theorem pinned_and_encapsulated {idleTimeout : Duration} {ds : List Arrival}
    (h : (run Association.step (.new idleTimeout) ds).ended = none) :
    (∀ es, es <+: ds → (run Association.step (.new idleTimeout) es).relay.client = none) ∧
      sent (.new idleTimeout) ds = [] ∨
    ∃ pre d post, ds = pre ++ d :: post ∧
      d.data[2]? = some 0x00 ∧ (∃ addr n, Address.fromSocks5 (d.data.drop 3) = .ok (addr, n)) ∧
      (∀ es, es <+: pre → (run Association.step (.new idleTimeout) es).relay.client = none) ∧
      (∀ es, es <+: post → (run Association.step (.new idleTimeout) (pre ++ d :: es)).relay.client
        = some d.peer) ∧
      ∃ out, sent (.new idleTimeout) ds = out.flatten ∧
        List.Forall₂ (Answers d.peer) (d :: post) out := by
  have hempty : ∀ {ds : List Arrival}, (∀ d ∈ ds, IsRequest d = false) → ∀ es, es <+: ds →
      (run Association.step (.new idleTimeout) es).relay.client = none := by
    intro ds hds es hes
    have hnone : es.find? IsRequest = none :=
      List.find?_eq_none.mpr fun d hd => by simpa using hds d (hes.subset hd)
    rw [client_run, hnone, Option.map_none]
  cases hfind : ds.find? IsRequest with
  | none =>
    have hds : ∀ d ∈ ds, IsRequest d = false := by simpa using List.find?_eq_none.mp hfind
    exact .inl ⟨hempty hds, (run_of_not_request rfl rfl hds).2.2⟩
  | some d =>
    obtain ⟨hd, pre, post, rfl, hpre⟩ := List.find?_eq_some_iff_append.mp hfind
    have hunread : ∀ d ∈ pre, IsRequest d = false := by simpa using hpre
    obtain ⟨hclient, hended, hnothing⟩ :=
      run_of_not_request (a := .new idleTimeout) rfl rfl hunread
    have hpinned := client_step_of_request hclient hended hd
    obtain ⟨request, hrequest⟩ := Option.isSome_iff_exists.mp hd
    obtain ⟨-, hfrag, n, hread, -⟩ := clientRequest_eq_some_iff.mp hrequest
    rw [Run.run_append, Run.run_cons] at h
    obtain ⟨out, hsent, hout⟩ := answers_run hpinned h
    refine .inr ⟨pre, d, post, rfl, hfrag, ⟨_, n, hread⟩, hempty hunread, ?_, ?_⟩
    · intro es _
      rw [client_run, List.find?_append, List.find?_eq_none.mpr (by simpa using hpre),
        Option.none_or, List.find?_cons_of_pos hd, Option.map_some]
    · refine ⟨(requested d).sends :: out, ?_, .cons (answers_requested d) hout⟩
      have hfirst :
          (run Association.step (.new idleTimeout) pre).sends d = (requested d).sends := by
        rw [Association.sends_eq hended, hclient, wish]
      rw [sent, Run.observe_append, Run.observe, hfirst, List.flatten_cons, ← hsent]
      exact congrArg (· ++ _) hnothing

/-! ## Whose datagrams are requests -/

/-- The target of a datagram is contacted. -/
def Contacts (a : Association) (d : Arrival) : Prop := a.relay.FromClient d ∧ a.sends d ≠ []

instance (a : Association) (d : Arrival) : Decidable (Contacts a d) :=
  inferInstanceAs (Decidable (_ ∧ _))

/-- The datagrams of a run whose targets are contacted. -/
def requests (a : Association) (ds : List Arrival) : List Arrival :=
  Run.restrict Association.step Contacts a ds

/-- A request for a target that has an IPv4 address. -/
def Resolvable (d : Arrival) : Prop :=
  ∃ addr payload target, clientRequest d.data = some (addr, payload) ∧
    addr.resolveIpv4 d.lookupHost = .ok target

theorem requests_cons : requests a (d :: ds)
    = (if Contacts a d then [d] else []) ++ requests (a.step d) ds := rfl

theorem requests_append {es : List Arrival} :
    requests a (ds ++ es) = requests a ds ++ requests (run Association.step a ds) es :=
  Run.observe_append

/-- With a client, only its datagrams are requests. -/
theorem peer_of_mem_requests (h : a.relay.client = some c) : ∀ d ∈ requests a ds, d.peer = c := by
  refine Run.forall_observe (fun a : Association => a.relay.client = some c)
    (fun _ _ => client_step_of_some) ?_ h ds
  intro a d hclient e he
  split at he
  · rename_i hcontacts
    rw [List.mem_singleton.mp he]
    rcases hcontacts.1 with hpeer | hnone
    · exact Option.some.inj (hpeer.trans hclient)
    · rw [hclient] at hnone
      cases hnone
  · cases he

/-- Where nothing is sent, nobody is contacted. -/
theorem requests_of_sent (h : sent a ds = []) : requests a ds = [] := by
  induction ds generalizing a with
  | nil => rfl
  | cons d ds ih =>
    obtain ⟨hnow, hrest⟩ := List.append_eq_nil_iff.mp h
    have hcontacts : ¬ Contacts a d := fun hcontacts => hcontacts.2 hnow
    rw [requests_cons, if_neg hcontacts, ih hrest]
    rfl

theorem sent_of_ended {e : Ending} (h : a.ended = some e) : sent a ds = [] := by
  induction ds with
  | nil => rfl
  | cons d ds ih =>
    rw [sent, Run.observe, Association.step_of_ended h, Association.sends, h]
    exact ih

/-- The first request is contacted exactly if its target has an address. -/
theorem requests_of_first (hclient : a.relay.client = none) (hended : a.ended = none)
    (hd : IsRequest d = true) (post : List Arrival) :
    (Resolvable d → d ∈ requests a (d :: post)) ∧
      (¬ Resolvable d → requests a (d :: post) = []) := by
  obtain ⟨⟨addr, payload⟩, hrequest⟩ := Option.isSome_iff_exists.mp hd
  have hwish : wish a.relay.client d = requested d := by rw [hclient, wish]
  constructor
  · rintro ⟨addr', payload', target, hrequest', htarget⟩
    have hsends : a.sends d = [⟨payload', target⟩] := by
      rw [Association.sends_eq hended, hwish, requested, hrequest']
      simp only [htarget, Wish.sends]
    have hcontacts : Contacts a d := ⟨.inr hclient, by rw [hsends]; exact List.cons_ne_nil _ _⟩
    rw [requests_cons, if_pos hcontacts]
    exact List.mem_append_left _ (List.mem_singleton_self d)
  · intro hnot
    apply requests_of_sent
    cases htarget : addr.resolveIpv4 d.lookupHost with
    | ok target => exact absurd ⟨addr, payload, target, hrequest, htarget⟩ hnot
    | error e =>
      -- the loop ends here
      have hunresolved : wish a.relay.client d = .unresolved e := by
        rw [hwish, requested, hrequest]
        simp only [htarget]
      have hstep : (a.step d).ended ≠ none := by
        rw [ne_eq, Association.ended_step_iff hended, hunresolved]
        simp [Wish.ending]
      obtain ⟨ending, hending⟩ := Option.ne_none_iff_exists'.mp hstep
      have hnow : a.sends d = [] := by
        rw [Association.sends_eq hended, hunresolved, Wish.sends]
      rw [sent, Run.observe, hnow]
      exact sent_of_ended hending

/-- Every datagram whose target is contacted is from the first sender of a request; so all of
them are from the host at the other end of the TCP connection exactly if the first
request is, or its target has no address. -/
theorem requests_of_first_sender (idleTimeout : Duration) (ds : List Arrival) :
    (∀ d ∈ requests (.new idleTimeout) ds,
      some d.peer = (ds.find? IsRequest).map Arrival.peer) ∧
    ∀ tcpPeer : SocketAddr, (∀ d ∈ requests (.new idleTimeout) ds, d.peer.ip = tcpPeer.ip) ↔
      ∀ d, ds.find? IsRequest = some d → Resolvable d → d.peer.ip = tcpPeer.ip := by
  cases hfind : ds.find? IsRequest with
  | none =>
    have hds : ∀ d ∈ ds, IsRequest d = false := by simpa using List.find?_eq_none.mp hfind
    have hnone : requests (.new idleTimeout) ds = [] :=
      requests_of_sent (run_of_not_request rfl rfl hds).2.2
    simp [hnone]
  | some d =>
    obtain ⟨hd, pre, post, rfl, hpre⟩ := List.find?_eq_some_iff_append.mp hfind
    have hunread : ∀ d ∈ pre, IsRequest d = false := by simpa using hpre
    obtain ⟨hclient, hended, hnothing⟩ :=
      run_of_not_request (a := .new idleTimeout) rfl rfl hunread
    have hsplit : requests (.new idleTimeout) (pre ++ d :: post)
        = requests (run Association.step (.new idleTimeout) pre) (d :: post) := by
      rw [requests_append, requests_of_sent hnothing, List.nil_append]
    have hfirst := requests_of_first hclient hended hd post
    have hpeer : ∀ e ∈ requests (.new idleTimeout) (pre ++ d :: post), e.peer = d.peer := by
      intro e he
      rw [hsplit, requests_cons] at he
      rcases List.mem_append.mp he with he | he
      · split at he
        · rw [List.mem_singleton.mp he]
        · cases he
      · exact peer_of_mem_requests (client_step_of_request hclient hended hd) e he
    refine ⟨fun e he => congrArg some (hpeer e he), fun tcpPeer => ⟨?_, ?_⟩⟩
    · rintro hall e ⟨⟩ hresolvable
      exact hall d (hsplit ▸ hfirst.1 hresolvable)
    · intro hip e he
      have hresolvable : Resolvable d := by
        by_contra hnot
        rw [hsplit, hfirst.2 hnot] at he
        cases he
      rw [hpeer e he]
      exact hip d rfl hresolvable

/-! ## An association -/

/-- A datagram of `10.0.0.d`, port 5000, that goes to port 53 of `8.8.8.8`. -/
def demoRequest (d : UInt8) : Arrival where
  data := [0x00, 0x00, 0x00, 0x01, 8, 8, 8, 8, 0, 53, 0x41]
  peer := .v4 ⟨10, 0, 0, d⟩ 5000
  length_le := by decide
  lookupHost _ := .ok []
  sendTo _ _ := .ok ()
  sentAt := 0
  cleanedAt := 0

/-- The answer of `8.8.8.8`. -/
def demoReply : Arrival where
  data := [0x42]
  peer := .v4 ⟨8, 8, 8, 8⟩ 53
  length_le := by decide
  lookupHost _ := .ok []
  sendTo _ _ := .ok ()
  sentAt := 0
  cleanedAt := 0

theorem demo_relayed :
    (run Association.step (.new (Duration.fromSecs 30)) [demoRequest 1, demoReply]).ended = none ∧
    ∃ out, sent (.new (Duration.fromSecs 30)) [demoRequest 1, demoReply] = out.flatten ∧
      List.Forall₂ (Answers (demoRequest 1).peer) [demoRequest 1, demoReply] out := by
  have hended : (run Association.step (.new (Duration.fromSecs 30))
      [demoRequest 1, demoReply]).ended = none := by decide +kernel
  refine ⟨hended, ?_⟩
  rcases pinned_and_encapsulated hended with ⟨hnone, -⟩ | ⟨pre, d, post, heq, -, -, hpre, -, hout⟩
  · have hclient := hnone [demoRequest 1] (List.prefix_append _ _)
    exact absurd hclient (by decide +kernel)
  · cases pre with
    | nil =>
      obtain ⟨rfl, rfl⟩ := List.cons.inj heq
      exact hout
    | cons e pre =>
      obtain ⟨rfl, -⟩ := List.cons.inj heq
      have hclient := hpre [demoRequest 1] (List.cons_prefix_cons.mpr ⟨rfl, List.nil_prefix⟩)
      exact absurd hclient (by decide +kernel)

/-- The TCP connection is from `10.0.0.1`, the first request from `10.0.0.2`. -/
theorem demo_stranger : ¬ ∀ (idleTimeout : Duration) (ds : List Arrival) (tcpPeer : SocketAddr),
    ∀ d ∈ requests (.new idleTimeout) ds, d.peer.ip = tcpPeer.ip := by
  intro h
  have hmem : demoRequest 2 ∈ requests (.new 0) [demoRequest 2, demoRequest 1] := by
    have hcontacts : Contacts (.new 0) (demoRequest 2) := by decide +kernel
    rw [requests_cons, if_pos hcontacts]
    exact List.mem_append_left _ (List.mem_singleton_self _)
  exact absurd (h 0 _ (.v4 ⟨10, 0, 0, 1⟩ 40000) _ hmem) (by decide +kernel)

end PpcaNetwork.MyProxy
