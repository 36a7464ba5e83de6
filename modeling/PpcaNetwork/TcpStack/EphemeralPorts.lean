import PpcaNetwork.TcpStack.Connection

/-!
# Ephemeral ports

`next_ephemeral` looks for a local port that no connection uses, and falls back to the
first one when there is none.

* `firstFreePort_eq_some`, `firstFreePort_eq_none_iff` — what the search finds.
* `TcpManager.PortsDistinct` and `TcpManager.ConnectSafe` — one local port for each
  connection, and what is asked of `initiate_connect`.
* `TcpManager.connectSafe_iff` — a free port is what it takes.
* `connects_safe_iff` — the same for whole runs.
-/

namespace PpcaNetwork.TcpStack

/-! ## The search -/

namespace TcpManager

theorem toNat_port {n : Nat} (hn : n < 65536) : (UInt16.ofNat n).toNat = n := by
  rw [UInt16.toNat_ofNat']
  exact Nat.mod_eq_of_lt hn

/-- A port that is found is in the range, and no connection uses it. -/
theorem firstFreePort_eq_some {used : List UInt16} {port count : Nat} {p : UInt16}
    (hfit : port + count ≤ 65536) (h : firstFreePort used port count = some p) :
    p ∉ used ∧ port ≤ p.toNat ∧ p.toNat < port + count := by
  induction count generalizing port with
  | zero => exact absurd h (by simp [firstFreePort])
  | succ count ih =>
    unfold firstFreePort at h
    split at h
    · obtain ⟨hfree, hge, hlt⟩ := ih (by omega) h
      exact ⟨hfree, by omega, by omega⟩
    · rename_i hfree
      obtain rfl := Option.some.inj h
      rw [toNat_port (by omega)]
      exact ⟨hfree, le_refl _, by omega⟩

/-- No port is found exactly if all are in use. -/
theorem firstFreePort_eq_none_iff {used : List UInt16} {port count : Nat} :
    firstFreePort used port count = none ↔
      ∀ i, i < count → UInt16.ofNat (port + i) ∈ used := by
  induction count generalizing port with
  | zero => simp [firstFreePort]
  | succ count ih =>
    unfold firstFreePort
    split
    · rename_i hused
      rw [ih]
      constructor
      · intro h i hi
        cases i with
        | zero => exact hused
        | succ i =>
          rw [← Nat.add_assoc, Nat.add_right_comm]
          exact h i (by omega)
      · intro h i hi
        rw [Nat.add_right_comm]
        exact h (i + 1) (by omega)
    · rename_i hfree
      refine iff_of_false (by simp) ?_
      intro h
      exact hfree (h 0 (Nat.succ_pos count))

/-- The search passes over the ports in use. -/
theorem firstFreePort_skip {used : List UInt16} {port skipped count : Nat}
    (hused : ∀ i, i < skipped → UInt16.ofNat (port + i) ∈ used)
    (hfree : UInt16.ofNat (port + skipped) ∉ used) (hlt : skipped < count) :
    firstFreePort used port count = some (UInt16.ofNat (port + skipped)) := by
  induction skipped generalizing port count with
  | zero =>
    obtain ⟨count, rfl⟩ : ∃ n, count = n + 1 := ⟨count - 1, by omega⟩
    rw [Nat.add_zero] at hfree
    rw [firstFreePort, if_neg hfree, Nat.add_zero]
  | succ skipped ih =>
    obtain ⟨count, rfl⟩ : ∃ n, count = n + 1 := ⟨count - 1, by omega⟩
    have hrest : firstFreePort used (port + 1) count =
        some (UInt16.ofNat (port + 1 + skipped)) := by
      refine ih ?_ (by rwa [Nat.add_assoc, Nat.add_comm 1]) (by omega)
      intro i hi
      rw [Nat.add_assoc, Nat.add_comm 1]
      exact hused (i + 1) (by omega)
    have hfirst := hused 0 (Nat.succ_pos skipped)
    rw [Nat.add_zero] at hfirst
    rw [firstFreePort, if_pos hfirst, hrest, Nat.add_assoc, Nat.add_comm 1]

/-! ## Connecting -/

/-- The table has an entry with this local port. -/
def UsesPort (m : TcpManager) (port : UInt16) : Prop :=
  ∃ k t, m.get k = some t ∧ k.localPort = port

/-- Some port of the range that `next_ephemeral` searches is not in use. -/
def HasFreePort (m : TcpManager) : Prop :=
  ∃ port : UInt16, 40000 ≤ port.toNat ∧ port.toNat < 60000 ∧ ¬ m.UsesPort port

/-- No two entries have the same local port. -/
def PortsDistinct (m : TcpManager) : Prop :=
  ∀ k k' t t', m.get k = some t → m.get k' = some t' → k.localPort = k'.localPort → k = k'

theorem mem_ports_iff (m : TcpManager) (port : UInt16) :
    port ∈ m.connections.keys.map (·.localPort) ↔ m.UsesPort port := by
  have hmem : ∀ k, k ∈ m.connections.keys ↔ ∃ t, m.get k = some t := fun k =>
    AList.lookup_isSome.symm.trans Option.isSome_iff_exists
  simp only [List.mem_map, hmem, UsesPort]
  constructor
  · rintro ⟨k, ⟨t, ht⟩, rfl⟩
    exact ⟨k, t, ht, rfl⟩
  · rintro ⟨k, t, ht, rfl⟩
    exact ⟨k, ⟨t, ht⟩, rfl⟩

/-- With a free port, the port chosen is not in use. -/
theorem not_usesPort_nextEphemeral {m : TcpManager} (h : m.HasFreePort) :
    ¬ m.UsesPort m.nextEphemeral := by
  rw [← mem_ports_iff]
  unfold nextEphemeral
  cases hfirst : firstFreePort (m.connections.keys.map (·.localPort)) 40000 20000 with
  | some port => exact (firstFreePort_eq_some (by decide) hfirst).1
  | none =>
    obtain ⟨port, hge, hlt, hfree⟩ := h
    have hused := firstFreePort_eq_none_iff.mp hfirst (port.toNat - 40000) (by omega)
    rw [Nat.add_sub_cancel' hge, UInt16.ofNat_toNat, mem_ports_iff] at hused
    exact absurd hused hfree

/-- Without one, the port chosen is the first of the range, which is in use. -/
theorem usesPort_nextEphemeral {m : TcpManager} (h : ¬ m.HasFreePort) :
    m.UsesPort m.nextEphemeral := by
  have hall : ∀ i, i < 20000 → UInt16.ofNat (40000 + i) ∈ m.connections.keys.map (·.localPort) := by
    intro i hi
    rw [mem_ports_iff]
    by_contra hfree
    have hport : (UInt16.ofNat (40000 + i)).toNat = 40000 + i := toNat_port (by omega)
    exact h ⟨UInt16.ofNat (40000 + i), by omega, by omega, hfree⟩
  rw [← mem_ports_iff, nextEphemeral, firstFreePort_eq_none_iff.mpr hall]
  exact hall 0 (by decide)

/-- What is asked of `initiate_connect`: it adds one connection under a new key or fails,
leaves every entry as it was, and gives no local port to two connections. -/
structure ConnectSafe (m : TcpManager) (localIp remoteIp : Ipv4Addr) (remotePort : UInt16)
    (now : Instant) (iss : UInt32) : Prop where
  adds_or_fails :
    let r := m.initiateConnect localIp remoteIp remotePort now iss
    (∃ k t, r.2.1 = some k ∧ m.get k = none ∧ r.1.get k = some t ∧ t.state = .synSent ∧
      ∀ k', k' ≠ k → r.1.get k' = m.get k') ∨ (r.2.1 = none ∧ ∀ k, r.1.get k = m.get k)
  unchanged : ∀ k t, m.get k = some t →
    (m.initiateConnect localIp remoteIp remotePort now iss).1.get k = some t
  distinct : (m.initiateConnect localIp remoteIp remotePort now iss).1.PortsDistinct

variable {m : TcpManager} {localIp remoteIp : Ipv4Addr} {remotePort : UInt16}

/-- What `initiate_connect` returns is never `None`. -/
theorem key_initiateConnect (m : TcpManager) (localIp remoteIp : Ipv4Addr)
    (remotePort : UInt16) (now : Instant) (iss : UInt32) :
    (m.initiateConnect localIp remoteIp remotePort now iss).2.1 =
      some (m.connectKey localIp remoteIp remotePort) := by
  unfold initiateConnect
  simp only
  split <;> rfl

/-- A connection under a key that is not in the table. -/
theorem initiateConnect_absent (now : Instant) (iss : UInt32)
    (h : m.get (m.connectKey localIp remoteIp remotePort) = none) (k : ConnKey) :
    (m.initiateConnect localIp remoteIp remotePort now iss).1.get k =
      if k = m.connectKey localIp remoteIp remotePort then
        some (k.opened iss now)
      else m.get k := by
  rw [m.initiateConnect_new now iss (by simp [h])]
  split
  · rename_i hk
    subst hk
    exact AList.lookup_insert _
  · rename_i hk
    exact AList.lookup_insert_ne hk

/-- **What it takes.**  While the local ports are distinct, `initiate_connect` does what
is asked of it exactly if some port of its range is free. -/
theorem connectSafe_iff (hports : m.PortsDistinct) (localIp remoteIp : Ipv4Addr)
    (remotePort : UInt16) (now : Instant) (iss : UInt32) :
    m.ConnectSafe localIp remoteIp remotePort now iss ↔ m.HasFreePort := by
  constructor
  · intro hsafe
    by_contra hfull
    obtain ⟨k, t, ht, hport⟩ := usesPort_nextEphemeral hfull
    have hkey := key_initiateConnect m localIp remoteIp remotePort now iss
    rcases hsafe.adds_or_fails with ⟨k', t', hk', hnone, hnew, -, -⟩ | ⟨hnone, -⟩
    · -- the entry that uses the port is another one, so two entries share it
      obtain rfl : m.connectKey localIp remoteIp remotePort = k' :=
        Option.some.inj (hkey.symm.trans hk')
      have hkept := hsafe.unchanged k t ht
      have hsame := hsafe.distinct _ _ _ _ hkept hnew hport
      rw [hsame, hnone] at ht
      exact absurd ht (by simp)
    · exact absurd (hkey.symm.trans hnone) (by simp)
  · intro hfree
    have hunused := not_usesPort_nextEphemeral hfree
    have hnone : m.get (m.connectKey localIp remoteIp remotePort) = none := by
      rw [Option.eq_none_iff_forall_ne_some]
      intro t ht
      exact hunused ⟨_, t, ht, rfl⟩
    have hget := initiateConnect_absent now iss hnone
    have hkept : ∀ k t, m.get k = some t →
        (m.initiateConnect localIp remoteIp remotePort now iss).1.get k = some t := by
      intro k t ht
      rw [hget, if_neg (by rintro rfl; simp [hnone] at ht), ht]
    refine ⟨.inl ⟨_, _, key_initiateConnect .., hnone, (hget _).trans (if_pos rfl), ?_, ?_⟩,
      hkept, ?_⟩
    · rfl
    · intro k hk
      exact (hget k).trans (if_neg hk)
    · intro k k' t t' ht ht' hport
      rw [hget] at ht ht'
      split at ht
      · rename_i hk
        split at ht'
        · rename_i hk'
          rw [hk, hk']
        · subst hk
          exact absurd ⟨k', t', ht', hport.symm⟩ hunused
      · split at ht'
        · rename_i hk'
          subst hk'
          exact absurd ⟨k, t, ht, hport⟩ hunused
        · exact hports k k' t t' ht ht' hport

/-- A table without new keys keeps its ports distinct. -/
theorem PortsDistinct.of_subset {m m' : TcpManager} (h : m.PortsDistinct)
    (hsub : ∀ k t', m'.get k = some t' → ∃ t, m.get k = some t) : m'.PortsDistinct := by
  intro k k' t t' ht ht' hport
  obtain ⟨u, hu⟩ := hsub k t ht
  obtain ⟨u', hu'⟩ := hsub k' t' ht'
  exact h k k' u u' hu hu' hport

end TcpManager

/-! ## Runs -/

namespace TcpCore

/-- What is asked of an event that connects. -/
def ConnectsSafely (c : TcpCore) : Event → Prop
  | .connect remoteIp remotePort iss =>
    c.tcp.ConnectSafe c.ourIp remoteIp remotePort c.now iss
  | _ => True

/-- An event that connects finds a free port. -/
def FindsPort (c : TcpCore) : Event → Prop
  | .connect .. => c.tcp.HasFreePort
  | _ => True

/-- Sending adds no entry to the table. -/
theorem exists_of_get_sendSegments {c : TcpCore} {segs : List OutgoingSegment}
    {key : Option ConnKey} {k : ConnKey} {t' : Tcb}
    (h : (c.sendSegments segs key).get k = some t') :
    ∃ t, c.get k = some t := by
  by_cases hk : key = some k
  · rw [hk, get_sendSegments_self] at h
    obtain ⟨t, ht, -⟩ := Option.map_eq_some_iff.mp h
    exact ⟨t, ht⟩
  · rw [get_sendSegments_ne c segs hk] at h
    exact ⟨t', h⟩

/-- Only connecting adds entries to the table. -/
theorem exists_of_get_step {c : TcpCore} {e : Event} (he : ∀ ip port iss, e ≠ .connect ip port iss)
    {k : ConnKey} {t' : Tcb} (h : (c.step e).get k = some t') : ∃ t, c.get k = some t := by
  rw [get_step] at h
  cases ht : c.get k with
  | some t => exact ⟨t, rfl⟩
  | none =>
    rw [ht] at h
    cases e with
    | connect ip port iss => exact absurd rfl (he ip port iss)
    | poll elapsed => exact absurd h (by simp [observe, Tcb.stepKey])
    | _ =>
      simp only [observe] at h
      split at h <;> simp [Tcb.stepKey] at h

/-- The local ports stay distinct through every event that connects safely. -/
theorem portsDistinct_step {c : TcpCore} {e : Event} (h : c.tcp.PortsDistinct)
    (he : c.ConnectsSafely e) : (c.step e).tcp.PortsDistinct := by
  cases e with
  | connect ip port iss =>
    have hsafe : c.tcp.ConnectSafe c.ourIp ip port c.now iss := he
    exact hsafe.distinct.of_subset fun k t' => exists_of_get_sendSegments
  | _ => exact h.of_subset fun k t' => exists_of_get_step (by simp)

end TcpCore

/-- **When connecting harms no connection.**  In every run of the stack, each
`initiate_connect` adds one connection under a new key, leaves the others alone and keeps
the local ports distinct, exactly if each of them finds a port of 40000..60000 that no
connection uses. -/
theorem connects_safe_iff (ourIp : Ipv4Addr) (start : Instant) (es : List Event) :
    Run.Guarded TcpCore.step TcpCore.ConnectsSafely (.new ourIp start) es ↔
      Run.Guarded TcpCore.step TcpCore.FindsPort (.new ourIp start) es := by
  have hstart : (TcpCore.new ourIp start).tcp.PortsDistinct := by
    intro k k' t t' ht
    exact absurd ht (by simp [TcpCore.new, TcpManager.new, TcpManager.get])
  refine Run.guarded_congr_of_guarded (fun c => c.tcp.PortsDistinct)
    (fun c e h he => TcpCore.portsDistinct_step h he) ?_ hstart
  intro c e hports
  cases e with
  | connect ip port iss => exact TcpManager.connectSafe_iff hports c.ourIp ip port c.now iss
  | _ => exact Iff.rfl

/-! ## One connection too many -/

/-- The key of the demo's connection number `i`, when all of them go to its peer. -/
def demoKeyAt (i : Nat) : ConnKey := { demoKey with localPort := UInt16.ofNat (40000 + i) }

/-- One after the other, `n` connections to the demo's peer. -/
def demoConnects (n : Nat) : List Event :=
  List.replicate n (.connect demoKey.remoteIp demoKey.remotePort 1000)

theorem demoConnects_succ (n : Nat) :
    demoConnects (n + 1) =
      demoConnects n ++ [.connect demoKey.remoteIp demoKey.remotePort 1000] :=
  List.replicate_succ'

theorem demoKeyAt_inj {i j : Nat} (hi : i < 20000) (hj : j < 20000)
    (h : demoKeyAt i = demoKeyAt j) : i = j := by
  have hports := congrArg (fun k => k.localPort.toNat) h
  simp only [demoKeyAt] at hports
  rw [TcpManager.toNat_port (by omega), TcpManager.toNat_port (by omega)] at hports
  omega

/-- The first `n` connections are there, each of them still in `SynSent`, and no others. -/
structure DemoOpened (n : Nat) (c : TcpCore) : Prop where
  ourIp : c.ourIp = demoKey.localIp
  get : ∀ k, (∃ i < n, k = demoKeyAt i) ∧ (∃ t, c.get k = some t ∧ t.state = .synSent) ∨
    (∀ i < n, k ≠ demoKeyAt i) ∧ c.get k = none

namespace DemoOpened

variable {n : Nat} {c : TcpCore}

theorem exists_get (h : DemoOpened n c) {i : Nat} (hi : i < n) :
    ∃ t, c.get (demoKeyAt i) = some t ∧ t.state = .synSent := by
  rcases h.get (demoKeyAt i) with ⟨-, hget⟩ | ⟨hne, -⟩
  · exact hget
  · exact absurd rfl (hne i hi)

theorem get_new (h : DemoOpened n c) (hn : n < 20000) : c.get (demoKeyAt n) = none := by
  rcases h.get (demoKeyAt n) with ⟨⟨i, hi, heq⟩, -⟩ | ⟨-, hnone⟩
  · exact absurd (demoKeyAt_inj hn (hi.trans hn) heq) (Nat.ne_of_gt hi)
  · exact hnone

/-- Connecting once more takes the next port. -/
theorem connectKey_eq (h : DemoOpened n c) (hn : n < 20000) :
    c.tcp.connectKey c.ourIp demoKey.remoteIp demoKey.remotePort = demoKeyAt n := by
  have hused : ∀ i, i < n →
      UInt16.ofNat (40000 + i) ∈ c.tcp.connections.keys.map (·.localPort) := by
    intro i hi
    obtain ⟨t, ht, -⟩ := h.exists_get hi
    exact (c.tcp.mem_ports_iff _).mpr ⟨demoKeyAt i, t, ht, rfl⟩
  have hfree : UInt16.ofNat (40000 + n) ∉ c.tcp.connections.keys.map (·.localPort) := by
    rw [TcpManager.mem_ports_iff]
    rintro ⟨k, t, ht, hk⟩
    have hsome : c.get k = some t := ht
    rcases h.get k with ⟨⟨i, hi, rfl⟩, -⟩ | ⟨-, hnone⟩
    · have hports := congrArg UInt16.toNat hk
      simp only [demoKeyAt] at hports
      rw [TcpManager.toNat_port (by omega), TcpManager.toNat_port (by omega)] at hports
      omega
    · rw [hnone] at hsome
      exact absurd hsome (by simp)
  rw [TcpManager.connectKey, h.ourIp, TcpManager.nextEphemeral,
    TcpManager.firstFreePort_skip hused hfree (by omega)]
  rfl

theorem step (h : DemoOpened n c) (hn : n < 20000) :
    DemoOpened (n + 1) (c.step (.connect demoKey.remoteIp demoKey.remotePort 1000)) := by
  refine ⟨(TcpCore.step_ourIp _ _).trans h.ourIp, ?_⟩
  intro k
  rw [TcpCore.get_step, TcpCore.observe, h.connectKey_eq hn]
  by_cases hk : k = demoKeyAt n
  · subst hk
    rw [if_pos ⟨rfl, by rw [h.get_new hn]; rfl⟩]
    exact .inl ⟨⟨n, Nat.lt_succ_self n, rfl⟩, _, rfl, rfl⟩
  · rw [if_neg (by rintro ⟨heq, -⟩; exact hk heq.symm)]
    rcases h.get k with ⟨⟨i, hi, rfl⟩, t, ht, hst⟩ | ⟨hne, hnone⟩
    · exact .inl ⟨⟨i, Nat.lt_succ_of_lt hi, rfl⟩, t, ht, hst⟩
    · refine .inr ⟨?_, hnone⟩
      intro i hi
      rcases Nat.lt_succ_iff_lt_or_eq.mp hi with hlt | rfl
      · exact hne i hlt
      · exact hk

end DemoOpened

/-- The connections take the ports from 40000 on. -/
theorem demoOpened_run {n : Nat} (hn : n ≤ 20000) :
    DemoOpened n (run TcpCore.step demoStack (demoConnects n)) := by
  induction n with
  | zero => exact ⟨rfl, fun k => .inr ⟨by simp, rfl⟩⟩
  | succ n ih =>
    rw [demoConnects_succ, Run.run_append, Run.run_cons, Run.run_nil]
    exact (ih (Nat.le_of_succ_le hn)).step hn

/-- **A connection handed out twice.**  After 20000 connections to one peer all ports are
in use, and connecting once more returns the key of the first connection, which is still
in the table. -/
theorem demo_connection_hijacked :
    let c := run TcpCore.step demoStack (demoConnects 20000)
    (∃ t, c.get (demoKeyAt 0) = some t) ∧
      (c.tcp.initiateConnect c.ourIp demoKey.remoteIp demoKey.remotePort c.now 1000).2 =
        (some (demoKeyAt 0), []) ∧
      ¬ Run.Guarded TcpCore.step TcpCore.ConnectsSafely demoStack (demoConnects (20000 + 1)) := by
  -- the number is kept out of the way of evaluation
  obtain ⟨n, hn⟩ : ∃ n, n = 20000 := ⟨20000, rfl⟩
  rw [← hn]
  intro c
  have hopened : DemoOpened n c := demoOpened_run hn.le
  have hport : c.tcp.nextEphemeral = 40000 := by
    have hnone : TcpManager.firstFreePort (c.tcp.connections.keys.map (·.localPort)) 40000 20000 =
        none := by
      rw [TcpManager.firstFreePort_eq_none_iff]
      intro i hi
      obtain ⟨t, ht, -⟩ := hopened.exists_get (show i < n by omega)
      exact (c.tcp.mem_ports_iff _).mpr ⟨demoKeyAt i, t, ht, rfl⟩
    rw [TcpManager.nextEphemeral, hnone, Option.getD_none]
  have hkey : c.tcp.connectKey c.ourIp demoKey.remoteIp demoKey.remotePort = demoKeyAt 0 := by
    rw [TcpManager.connectKey, hport, hopened.ourIp]
    rfl
  obtain ⟨t, ht, hst⟩ := hopened.exists_get (show 0 < n by omega)
  have hentry : c.tcp.get (demoKeyAt 0) = some t := ht
  have hreused : c.tcp.initiateConnect c.ourIp demoKey.remoteIp demoKey.remotePort c.now 1000 =
      (c.tcp, some (demoKeyAt 0), []) := by
    rw [c.tcp.initiateConnect_reused c.now 1000, hkey]
    rw [hkey, hentry]
    simp [TcpManager.isReused, hst]
  refine ⟨⟨t, ht⟩, by rw [hreused], ?_⟩
  intro hguarded
  rw [demoConnects_succ, Run.guarded_append] at hguarded
  have hsafe : c.tcp.ConnectSafe c.ourIp demoKey.remoteIp demoKey.remotePort c.now 1000 :=
    hguarded.2.1
  have hcases := hsafe.adds_or_fails
  rw [hreused] at hcases
  rcases hcases with ⟨k, -, hk, hnone, -⟩ | ⟨hnone, -⟩
  · rw [← Option.some.inj hk, hentry] at hnone
    exact absurd hnone (by simp)
  · exact absurd hnone (by simp)

end PpcaNetwork.TcpStack
