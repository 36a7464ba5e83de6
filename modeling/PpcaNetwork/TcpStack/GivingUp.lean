import PpcaNetwork.TcpStack.Isolation

/-!
# Giving up on a silent peer

Every timeout doubles `rto`, up to a minute, and counts in `retransmit_count`; the one that
finds the count at its maximum gives the connection up.

* `Tcb.Patient` — the bounds on the count and on `rto`, in every reachable state.
* `TcpCore.retransmit_or_remove` — what a `poll` does to a connection whose deadline has
  come.
* `TcpCore.duePolls` and `TcpCore.count_of_quiet` — how many such polls a connection
  survives while nothing else happens to it.
* `silent_peer_given_up` — all of it, for every run.
-/

namespace PpcaNetwork.TcpStack

namespace Tcb

/-! ## The bounds -/

/-- No more retransmissions than allowed, and a timeout between a second and a minute. -/
structure Patient (t : Tcb) : Prop where
  count_le : t.retransmitCount ≤ maxRetransmits
  rto_ge : initialRto ≤ t.rto
  rto_le : t.rto ≤ maxRto

theorem Patient.of_eq {t t' : Tcb} (h : t.Patient) (hrto : t'.rto = t.rto)
    (hcount : t'.retransmitCount = t.retransmitCount ∨ t'.retransmitCount = 0) : t'.Patient := by
  refine ⟨?_, hrto ▸ h.rto_ge, hrto ▸ h.rto_le⟩
  rcases hcount with hcount | hcount
  · exact hcount ▸ h.count_le
  · exact hcount ▸ Nat.zero_le _

@[simp] theorem rto_bufferData (t : Tcb) (header : TcpHeader) (payload : List UInt8) :
    (t.bufferData header payload).rto = t.rto := by
  unfold bufferData
  split <;> rfl

@[simp] theorem count_bufferData (t : Tcb) (header : TcpHeader) (payload : List UInt8) :
    (t.bufferData header payload).retransmitCount = t.retransmitCount := by
  unfold bufferData
  split <;> rfl

theorem count_processEstablished (t : Tcb) (header : TcpHeader) (payload : List UInt8) :
    (t.processEstablished header payload).1.rto = t.rto ∧
      ((t.processEstablished header payload).1.retransmitCount = t.retransmitCount ∨
        (t.processEstablished header payload).1.retransmitCount = 0) := by
  have hack : (t.processAck header).rto = t.rto ∧
      ((t.processAck header).retransmitCount = t.retransmitCount ∨
        (t.processAck header).retransmitCount = 0) := by
    rcases t.processAck_cases header with heq | ⟨-, heq⟩ <;> rw [heq]
    · exact ⟨rfl, .inl rfl⟩
    · exact ⟨rfl, .inr rfl⟩
  rw [processEstablished]
  by_cases hacc : header.Occupies payload ∧ header.seq = (t.processAck header).rcvNxt
  · rw [processData_accepted hacc.1 hacc.2]
    exact hack
  · rw [processData_ignored hacc]
    exact hack

/-- A segment never touches `rto`, and leaves the count alone or starts it over. -/
theorem count_processExistingTcb (t : Tcb) (header : TcpHeader) (payload : List UInt8)
    (now : Instant) :
    (t.processExistingTcb header payload now).1.rto = t.rto ∧
      ((t.processExistingTcb header payload now).1.retransmitCount = t.retransmitCount ∨
        (t.processExistingTcb header payload now).1.retransmitCount = 0) := by
  cases hst : t.state with
  | established =>
    simp only [processExistingTcb, hst]
    exact t.count_processEstablished header payload
  | synReceived =>
    simp only [processExistingTcb, hst, processSynReceived]
    split_ifs <;> simp
  | closeWait =>
    simp only [processExistingTcb, hst, processCloseWait]
    split_ifs <;> simp
  | lastAck =>
    simp only [processExistingTcb, hst, processLastAck]
    split_ifs <;> simp
  | finWait1 =>
    simp only [processExistingTcb, hst, processFinWait1]
    split_ifs <;> simp
  | finWait2 =>
    simp only [processExistingTcb, hst, processFinWait2]
    split_ifs <;> simp
  | synSent =>
    simp only [processExistingTcb, hst, processSynSent]
    split_ifs <;> simp
  | closing =>
    simp only [processExistingTcb, hst, processClosing]
    split_ifs <;> simp
  | closed => simp [processExistingTcb, hst]
  | listen => simp [processExistingTcb, hst]
  | timeWait => simp [processExistingTcb, hst]

theorem Patient.afterSending {t : Tcb} (h : t.Patient) (segs : List OutgoingSegment)
    (now : Instant) : (t.afterSending segs now).Patient := by
  obtain ⟨r, hr⟩ := exists_afterSending segs now t
  rw [hr]
  exact h.of_eq rfl (.inl rfl)

/-- A retransmission counts one more and at most doubles `rto`. -/
theorem Patient.retransmit {t : Tcb} (h : t.Patient) (now : Instant) :
    (t.retransmit now).1.Patient := by
  unfold Tcb.retransmit
  split
  · split
    · exact h.of_eq rfl (.inl rfl)
    · rename_i hmore
      refine ⟨Nat.lt_of_not_le hmore, le_min ?_ (by decide), min_le_right ..⟩
      exact le_trans h.rto_ge (Nat.le_mul_of_pos_right _ Nat.two_pos)
  · exact h

/-- The step: every event keeps the bounds. -/
theorem Patient.onEvent {t : Tcb} (h : t.Patient) (e : ConnEvent) : (t.onEvent e).Patient := by
  cases e with
  | send data now =>
    refine Patient.afterSending ?_ _ now
    unfold send
    split
    · exact h
    · exact h.of_eq rfl (.inl rfl)
  | recv => exact h.of_eq rfl (.inl rfl)
  | close now =>
    refine Patient.afterSending ?_ _ now
    unfold close
    split
    all_goals first | exact h | exact h.of_eq rfl (.inl rfl)
  | segment header payload now =>
    obtain ⟨hrto, hcount⟩ := t.count_processExistingTcb header payload now
    exact (h.of_eq hrto hcount).afterSending _ now
  | poll now => exact h.retransmit now

theorem patient_opened (k : ConnKey) (iss : UInt32) (now : Instant) :
    (k.opened iss now).Patient :=
  ⟨Nat.zero_le _, le_refl _, show initialRto ≤ maxRto by decide⟩

/-- What becomes of a connection at its deadline: it is dropped, or it retransmits. -/
theorem Patient.retained_of_fired {t t' : Tcb} (h : t.Patient) {now : Instant}
    (hfired : t.timerFired now = true) (hkept : stepConn (some t) (.poll now) = some t') :
    t'.retransmitCount = t.retransmitCount + 1 ∧ (∃ seg, (t.retransmit now).2 = some seg) ∧
      ∃ deadline, t'.retransmitAt = some deadline ∧ now + initialRto ≤ deadline := by
  have hfilter : Option.filter (·.isRetained now) (some (t.retransmit now).1) = some t' := hkept
  obtain ⟨heq, hretained⟩ := Option.filter_eq_some_iff.mp hfilter
  obtain rfl : (t.retransmit now).1 = t' := Option.some.inj heq
  by_cases hcount : maxRetransmits ≤ t.retransmitCount
  · have hclosed : (t.retransmit now).1.state = .closed := by
      simp [Tcb.retransmit, hfired, hcount]
    rw [isRetained, if_pos hclosed] at hretained
    exact absurd hretained (by simp)
  · rw [Tcb.retransmit, if_pos hfired, if_neg hcount]
    exact ⟨rfl, ⟨_, rfl⟩, _, rfl, Nat.add_le_add_left h.rto_ge now⟩

end Tcb

namespace TcpCore

variable {k : ConnKey} {c : TcpCore}

theorem patient_run (ourIp : Ipv4Addr) (start : Instant) (es : List Event) {t : Tcb}
    (ht : (run step (.new ourIp start) es).get k = some t) : t.Patient :=
  forall_get_run Tcb.Patient Tcb.patient_opened (fun _ e h => h.onEvent e) ourIp start es ht

/-! ## One poll -/

/-- A `poll` at or after its deadline either removes a connection or makes it retransmit
once, count that, and wait for at least a second more. -/
theorem retransmit_or_remove {t : Tcb} (ht : c.get k = some t) (hp : t.Patient)
    {elapsed : Duration} (hdue : t.timerFired (c.now + elapsed) = true) :
    (c.step (.poll elapsed)).get k = none ∨
      ∃ t' seg deadline, (c.step (.poll elapsed)).get k = some t' ∧
        under k (c.emitted (.poll elapsed)) = [seg] ∧
        t'.retransmitCount = t.retransmitCount + 1 ∧
        t'.retransmitAt = some deadline ∧ c.now + elapsed + initialRto ≤ deadline := by
  have hpoll : (c.step (.poll elapsed)).get k =
      Tcb.stepConn (some t) (.poll (c.now + elapsed)) := ht ▸ c.get_poll k elapsed
  cases hnext : Tcb.stepConn (some t) (.poll (c.now + elapsed)) with
  | none => exact .inl (hpoll.trans hnext)
  | some t' =>
    obtain ⟨hcount, ⟨seg, hseg⟩, deadline, hdeadline, hlater⟩ := hp.retained_of_fired hdue hnext
    refine .inr ⟨t', seg, deadline, hpoll.trans hnext, ?_, hcount, hdeadline, hlater⟩
    have hunder := under_poll c k elapsed
    rw [ht, Option.bind_some, hseg] at hunder
    exact hunder

/-! ## Many polls -/

/-- The event is a `poll` at or after the deadline of the connection under `k`. -/
def Due (k : ConnKey) (c : TcpCore) : Event → Prop
  | .poll elapsed => (c.get k).any (·.timerFired (c.now + elapsed)) = true
  | _ => False

instance decidableDue (k : ConnKey) (c : TcpCore) : (e : Event) → Decidable (Due k c e)
  | .poll _ => inferInstanceAs (Decidable (_ = _))
  | .connect .. | .send .. | .recv _ | .close _ | .segment .. => inferInstanceAs (Decidable False)

/-- How many polls of a run come at or after the deadline of the connection. -/
def duePolls (k : ConnKey) (c : TcpCore) (es : List Event) : Nat :=
  (Run.restrict step (Due k) c es).length

/-- The event leaves the connection under `k` alone, or is a `poll`. -/
def Quiet (k : ConnKey) (c : TcpCore) (e : Event) : Prop :=
  Concerns k c e → ∃ elapsed, e = .poll elapsed

theorem duePolls_cons (k : ConnKey) (c : TcpCore) (e : Event) (es : List Event) :
    duePolls k c (e :: es) = (if Due k c e then 1 else 0) + duePolls k (c.step e) es := by
  rw [duePolls, Run.restrict, Run.observe, List.length_append]
  split <;> rfl

/-- One quiet event: the connection counts it if it is a due poll. -/
theorem count_of_quiet_step {e : Event} (hquiet : Quiet k c e)
    (hp : ∀ t, c.get k = some t → t.Patient) {t' : Tcb} (ht' : (c.step e).get k = some t') :
    ∃ t, c.get k = some t ∧
      t.retransmitCount + (if Due k c e then 1 else 0) ≤ t'.retransmitCount := by
  by_cases hconcerns : Concerns k c e
  · obtain ⟨elapsed, rfl⟩ := hquiet hconcerns
    have hpoll : (c.step (.poll elapsed)).get k = _ := c.get_poll k elapsed
    rw [hpoll] at ht'
    cases ht : c.get k with
    | none => simp [ht] at ht'
    | some t =>
      rw [ht] at ht'
      refine ⟨t, rfl, ?_⟩
      by_cases hfired : t.timerFired (c.now + elapsed) = true
      · obtain ⟨hcount, -⟩ := (hp t ht).retained_of_fired hfired ht'
        rw [if_pos (by simpa [Due, ht] using hfired), hcount]
      · have hnot : ¬ Due k c (.poll elapsed) := by simpa [Due, ht] using hfired
        have hsame := Tcb.eq_onEvent_of_stepConn ht'
        simp only [Tcb.onEvent, Tcb.retransmit_of_not_fired (Bool.not_eq_true _ ▸ hfired)] at hsame
        rw [if_neg hnot, hsame, Nat.add_zero]
  · have hnot : ¬ Due k c e := by
      cases e with
      | poll elapsed => exact absurd trivial hconcerns
      | _ => exact id
    rw [get_step, observe_of_not_concerns hconcerns, Run.run_nil] at ht'
    exact ⟨t', ht', by rw [if_neg hnot, Nat.add_zero]⟩

/-- Every due poll that a connection survives while nothing else happens to it is counted. -/
theorem count_of_quiet {ourIp : Ipv4Addr} {start : Instant} (es fs : List Event)
    (hquiet : Run.Guarded step (Quiet k) (run step (.new ourIp start) es) fs) {t' : Tcb}
    (ht' : (run step (run step (.new ourIp start) es) fs).get k = some t') :
    ∃ t, (run step (.new ourIp start) es).get k = some t ∧
      t.retransmitCount + duePolls k (run step (.new ourIp start) es) fs ≤
        t'.retransmitCount := by
  induction fs generalizing es with
  | nil => exact ⟨t', ht', le_refl _⟩
  | cons e fs ih =>
    have hnext : run step (.new ourIp start) (es ++ [e]) =
        (run step (.new ourIp start) es).step e := Run.run_append _ _ _
    obtain ⟨u, hu, hle⟩ := ih (es ++ [e]) (by rw [hnext]; exact hquiet.2) (by rw [hnext]; exact ht')
    rw [hnext] at hu hle
    obtain ⟨t, ht, hstep⟩ := count_of_quiet_step hquiet.1
      (fun t ht => patient_run ourIp start es ht) hu
    refine ⟨t, ht, ?_⟩
    rw [duePolls_cons]
    omega

end TcpCore

/-- **A silent peer is given up on.**  In every reachable state, every connection has
retransmitted at most five times in a row and has a timeout between a second and a minute;
every `poll` at or after its deadline removes it or makes it retransmit once; and while
nothing but polls happens to it, the sixth of these at the latest removes it. -/
theorem silent_peer_given_up (ourIp : Ipv4Addr) (start : Instant) (es fs : List Event)
    (k : ConnKey)
    (hquiet : Run.Guarded TcpCore.step (TcpCore.Quiet k)
      (run TcpCore.step (.new ourIp start) es) fs) :
    let c := run TcpCore.step (.new ourIp start) es
    (∀ k' t, c.get k' = some t → t.retransmitCount ≤ 5 ∧ Duration.fromSecs 1 ≤ t.rto ∧
      t.rto ≤ Duration.fromSecs 60) ∧
    (∀ gs, gs <+: fs → ∀ t elapsed, (run TcpCore.step c gs).get k = some t →
      t.timerFired ((run TcpCore.step c gs).now + elapsed) = true →
        let c' := run TcpCore.step c gs
        (c'.step (.poll elapsed)).get k = none ∨
          ∃ t' seg deadline, (c'.step (.poll elapsed)).get k = some t' ∧
            TcpCore.under k (c'.emitted (.poll elapsed)) = [seg] ∧
            t'.retransmitCount = t.retransmitCount + 1 ∧
            t'.retransmitAt = some deadline ∧
            c'.now + elapsed + Duration.fromSecs 1 ≤ deadline) ∧
    (6 ≤ TcpCore.duePolls k c fs → (run TcpCore.step c fs).get k = none) := by
  intro c
  refine ⟨?_, ?_, ?_⟩
  · intro k' t ht
    have hp := TcpCore.patient_run ourIp start es ht
    exact ⟨hp.count_le, hp.rto_ge, hp.rto_le⟩
  · intro gs _ t elapsed ht hfired
    have happend : run TcpCore.step c gs = run TcpCore.step (.new ourIp start) (es ++ gs) :=
      (Run.run_append _ _ _).symm
    exact TcpCore.retransmit_or_remove ht
      (TcpCore.patient_run ourIp start (es ++ gs) (happend ▸ ht)) hfired
  · intro hsix
    rw [Option.eq_none_iff_forall_ne_some]
    intro t' ht'
    obtain ⟨t, -, hcount⟩ := TcpCore.count_of_quiet es fs hquiet ht'
    have happend : run TcpCore.step c fs = run TcpCore.step (.new ourIp start) (es ++ fs) :=
      (Run.run_append _ _ _).symm
    have hle : t'.retransmitCount ≤ 5 :=
      (TcpCore.patient_run ourIp start (es ++ fs) (happend ▸ ht')).count_le
    exact absurd (le_trans (Nat.le_add_left _ _) (le_trans hcount hle)) (Nat.not_le.mpr hsix)

/-- The demo's peer never answers: the SYN is sent again after 1, 2, 4, 8 and 16 seconds,
and the poll half a minute later removes the connection. -/
theorem demo_peer_given_up :
    let fs : List Event := [1, 1, 2, 4, 8, 16].map fun n => .poll (Duration.fromSecs n)
    let es : List Event := [.connect demoKey.remoteIp demoKey.remotePort 1000]
    TcpCore.duePolls demoKey (run TcpCore.step demoStack es) fs = 6 ∧
      (run TcpCore.step (run TcpCore.step demoStack es) fs).get demoKey = none := by
  intro fs es
  have hsix : TcpCore.duePolls demoKey (run TcpCore.step demoStack es) fs = 6 := by decide
  have hquiet : Run.Guarded TcpCore.step (TcpCore.Quiet demoKey)
      (run TcpCore.step demoStack es) fs := by
    apply Run.guarded_of_forall
    intro c e he _
    obtain ⟨n, -, rfl⟩ := List.mem_map.mp he
    exact ⟨_, rfl⟩
  exact ⟨hsix, (silent_peer_given_up demoKey.localIp 0 es fs demoKey hquiet).2.2 hsix.ge⟩

end PpcaNetwork.TcpStack
