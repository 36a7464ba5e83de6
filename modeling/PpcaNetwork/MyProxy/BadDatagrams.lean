import PpcaNetwork.MyProxy.ClientSlot

/-!
# Bad datagrams

An address that cannot be read is dropped, but one that does not resolve to an IPv4 address
ends the loop, and so does every failure of `send_to`.

* `Harmless` — the condition on a datagram.
* `association_survives_iff` — the association goes on, and relays as if the bad datagrams
  had not arrived, exactly in the runs whose datagrams all meet it.
-/

namespace PpcaNetwork.MyProxy

variable {client : Option SocketAddr} {a b : Association} {d : Arrival} {ds : List Arrival}

/-- The datagram makes the relay send something. -/
def Relayable (client : Option SocketAddr) (d : Arrival) : Prop := ∃ s, wish client d = .send s

instance (client : Option SocketAddr) (d : Arrival) : Decidable (Relayable client d) :=
  match h : wish client d with
  | .nothing => isFalse (by rintro ⟨s, hs⟩; rw [h] at hs; cases hs)
  | .unresolved e => isFalse (by rintro ⟨s, hs⟩; rw [h] at hs; cases hs)
  | .send s => isTrue ⟨s, h⟩

/-- A request has a target with an IPv4 address, and the sending that a datagram makes
necessary does not fail. -/
structure Harmless (client : Option SocketAddr) (d : Arrival) : Prop where
  request : client = none ∨ client = some d.peer → ∀ addr payload,
    clientRequest d.data = some (addr, payload) →
    ∃ target, addr.resolveIpv4 d.lookupHost = .ok target ∧ d.sendTo payload target = .ok ()
  reply : ∀ c ip port, client = some c → d.peer ≠ c → d.peer = .v4 ip port →
    d.sendTo (serverReply ip port d.data) c = .ok ()

theorem mapError_eq_ok_iff {ε ε' : Type} {x : Except ε Unit} {f : ε → ε'} :
    x.mapError f = .ok () ↔ x = .ok () := by
  cases x <;> simp [Except.mapError]

theorem ending_requested_iff : (requested d).ending d.sendTo = .ok () ↔
    ∀ addr payload, clientRequest d.data = some (addr, payload) →
      ∃ target, addr.resolveIpv4 d.lookupHost = .ok target ∧ d.sendTo payload target = .ok () := by
  unfold requested
  cases clientRequest d.data with
  | none => simp [Wish.ending]
  | some request =>
    obtain ⟨addr, payload⟩ := request
    cases htarget : addr.resolveIpv4 d.lookupHost with
    | error e => simp [Wish.ending, htarget]
    | ok target => simp [Wish.ending, mapError_eq_ok_iff, htarget]

/-- A datagram does not end the loop exactly if it is harmless. -/
theorem ending_wish_iff : (wish client d).ending d.sendTo = .ok () ↔ Harmless client d := by
  cases client with
  | none =>
    rw [wish, ending_requested_iff]
    constructor
    · intro h
      refine ⟨fun _ => h, ?_⟩
      intro c ip port hnone
      exact absurd hnone (by simp)
    · exact fun h => h.request (.inl rfl)
  | some c =>
    by_cases hpeer : d.peer = c
    · rw [wish, if_pos hpeer, ending_requested_iff]
      refine ⟨fun h => ⟨fun _ => h, ?_⟩, fun h => h.request (.inr (congrArg some hpeer.symm))⟩
      rintro c' ip port ⟨⟩ hne
      exact absurd hpeer hne
    · have hclient : ¬ (some c = none ∨ some c = some d.peer) := by
        simpa using Ne.symm hpeer
      rw [wish, if_neg hpeer]
      cases hcase : d.peer with
      | v6 ip port flowinfo scopeId =>
        refine ⟨fun _ => ⟨fun h => absurd h hclient, ?_⟩, fun _ => rfl⟩
        rintro c' ip port - - hip
        rw [hcase] at hip
        cases hip
      | v4 ip port =>
        simp only [Wish.ending, mapError_eq_ok_iff]
        constructor
        · refine fun h => ⟨fun h => absurd h hclient, ?_⟩
          rintro c' ip' port' ⟨⟩ - hip
          rw [hcase] at hip
          cases hip
          exact h
        · exact fun h => h.reply c ip port rfl hpeer hcase

/-- A datagram that asks for nothing leaves the slot as it is. -/
theorem slotAfter_of_not_relayable (hd : ¬ Relayable client d) (hharmless : Harmless client d) :
    slotAfter client d = client := by
  cases client with
  | some c => rw [slotAfter, Option.some_or]
  | none =>
    have hnone : clientRequest d.data = none := by
      by_contra hsome
      obtain ⟨⟨addr, payload⟩, hrequest⟩ := Option.ne_none_iff_exists'.mp hsome
      obtain ⟨target, htarget, -⟩ := hharmless.request (.inl rfl) addr payload hrequest
      refine hd ⟨⟨payload, target⟩, ?_⟩
      rw [wish, requested, hrequest]
      simp only [htarget]
    rw [slotAfter, hnone]
    rfl

theorem sends_of_not_relayable (hd : ¬ Relayable client d) : (wish client d).sends = [] := by
  cases h : wish client d with
  | nothing => rfl
  | unresolved e => rfl
  | send s => exact absurd ⟨s, h⟩ hd

/-- Two relays with the same client, one of which only sees what is to be relayed. -/
theorem sent_restrict (hclient : a.relay.client = b.relay.client) (ha : a.ended = none)
    (hb : b.ended = none)
    (hds : Run.Guarded Association.step (fun a d => Harmless a.relay.client d) a ds) :
    sent a ds
      = sent b (Run.restrict Association.step (fun a d => Relayable a.relay.client d) a ds) := by
  induction ds generalizing a b with
  | nil => rfl
  | cons d ds ih =>
    obtain ⟨hd, hrest⟩ := hds
    have ha' : (a.step d).ended = none :=
      (Association.ended_step_iff ha).mpr (ending_wish_iff.mpr hd)
    have hrestrict :
        Run.restrict Association.step (fun a d => Relayable a.relay.client d) a (d :: ds)
          = (if Relayable a.relay.client d then [d] else []) ++
            Run.restrict Association.step (fun a d => Relayable a.relay.client d) (a.step d) ds :=
      rfl
    have hsent : sent a (d :: ds) = a.sends d ++ sent (a.step d) ds := rfl
    rw [hrestrict, hsent]
    by_cases hrelay : Relayable a.relay.client d
    · have hb' : (b.step d).ended = none := by
        rw [Association.ended_step_iff hb, ← hclient]
        exact ending_wish_iff.mpr hd
      have hnext : (a.step d).relay.client = (b.step d).relay.client := by
        rw [Association.client_step ha, Association.client_step hb, hclient]
      have hsends : a.sends d = b.sends d := by
        rw [Association.sends_eq ha, Association.sends_eq hb, hclient]
      rw [if_pos hrelay, ih hnext ha' hb' hrest, hsends]
      rfl
    · have hnext : (a.step d).relay.client = b.relay.client := by
        rw [Association.client_step ha, slotAfter_of_not_relayable hrelay hd, hclient]
      rw [if_neg hrelay, Association.sends_eq ha, sends_of_not_relayable hrelay]
      exact ih hnext ha' hb hrest

/-- The loop goes on through a run, and relays as if the datagrams that are not to be relayed
had not arrived, exactly if every datagram is harmless when it arrives. -/
theorem association_survives_iff (idleTimeout : Duration) (ds : List Arrival) :
    ((∀ es, es <+: ds → (run Association.step (.new idleTimeout) es).ended = none) ∧
      sent (.new idleTimeout) ds = sent (.new idleTimeout) (Run.restrict Association.step
        (fun a d => Relayable a.relay.client d) (.new idleTimeout) ds)) ↔
    Run.Guarded Association.step (fun a d => Harmless a.relay.client d) (.new idleTimeout) ds := by
  have hstep : ∀ (a : Association) (d : Arrival), a.ended = none → True →
      ((a.step d).ended = none ↔ Harmless a.relay.client d) :=
    fun a d ha _ => (Association.ended_step_iff ha).trans ending_wish_iff
  have hnew : (Association.new idleTimeout).ended = none := rfl
  have htrivial : Run.Guarded Association.step (fun _ _ => True) (.new idleTimeout) ds :=
    Run.guarded_of_forall (fun _ _ _ => trivial) _
  have hgoes := Run.invariant_iff_guarded _ hstep hnew htrivial
  refine ⟨fun h => hgoes.mp h.1, fun h => ⟨hgoes.mpr h, ?_⟩⟩
  exact sent_restrict rfl rfl rfl h

/-- A request for port 53 of `::`. -/
def demoIpv6Request : Arrival where
  data := [0x00, 0x00, 0x00, 0x04] ++ List.replicate 16 0x00 ++ [0, 53, 0x41]
  peer := .v4 ⟨10, 0, 0, 1⟩ 5000
  length_le := by decide
  lookupHost _ := .ok []
  sendTo _ _ := .ok ()
  sentAt := 0
  cleanedAt := 0

/-- After it nothing is relayed any more. -/
theorem demo_ipv6_ends :
    ¬ ∀ (idleTimeout : Duration) (ds : List Arrival),
      (∀ es, es <+: ds → (run Association.step (.new idleTimeout) es).ended = none) ∧
      sent (.new idleTimeout) ds = sent (.new idleTimeout) (Run.restrict Association.step
        (fun a d => Relayable a.relay.client d) (.new idleTimeout) ds) := by
  intro h
  have hrunning := (h 0 [demoIpv6Request, demoRequest 1]).1 _ (List.prefix_refl _)
  exact absurd hrunning (by decide +kernel)

end PpcaNetwork.MyProxy
