import PpcaNetwork.TcpStack.Arp

/-!
# The packets for one address

Seen from one destination, the link is a machine with a queue and a history: what was
handed to `send_frame` for the address, what of it was written, how often the address was
asked for, and how the asking ended.

* `Neighbour` — the machine.
* `Neighbour.Moves` — the ways in which its events move packets.
* `Neighbour.Conserved` — no packet is lost, and none is written twice.
* `Neighbour.InOrder` — packets leave in order, as long as each waits for its turn.
* `Neighbour.Asking` — the address is asked for three times at most, three seconds apart.
-/

namespace PpcaNetwork.TcpStack

/-! ## The machine -/

/-- Something done for one address. -/
inductive NeighbourAction where
  /-- A packet for it is handed to `send_frame`. -/
  | handed (packet : List UInt8)
  /-- A packet to it is written. -/
  | wrote (packet : List UInt8)
  /-- An ARP request for it is written. -/
  | requested
  | resolved
  | timedOut (packets : List (List UInt8))
  deriving DecidableEq, Repr

/-- What waits for one address, and what has been done about it. -/
structure Neighbour where
  pending : Option PendingEntry
  history : List (Instant × NeighbourAction)
  deriving DecidableEq, Repr

/-- What can happen to the packets for one address, at a stack's time. -/
inductive NeighbourEvent where
  /-- `send_frame` when the address is known. -/
  | direct (packet : List UInt8) (now : Instant)
  /-- `send_frame` when it is not. -/
  | queued (packet : List UInt8) (now : Instant)
  | tick (now : Instant)
  /-- An ARP reply from the address. -/
  | resolved (now : Instant)
  deriving DecidableEq, Repr

namespace Neighbour

/-- Nothing waits, and nothing has been done. -/
def absent : Neighbour := ⟨none, []⟩

/-- The packets that wait. -/
def waiting (n : Neighbour) : List (List UInt8) := (n.pending.map (·.packets)).getD []

/-- Note what is done. -/
def record (n : Neighbour) (now : Instant) (actions : List NeighbourAction) : Neighbour :=
  { n with history := n.history ++ actions.map (now, ·) }

/-- `queue_packet`, with the request that follows the first packet. -/
def queue (n : Neighbour) (packet : List UInt8) (now : Instant) : Neighbour :=
  match n.pending with
  | none =>
    ({ n with pending := some ⟨[packet], now, 1⟩ } : Neighbour).record now
      [.handed packet, .requested]
  | some entry =>
    ({ n with pending := some { entry with packets := entry.packets ++ [packet] } } :
      Neighbour).record now [.handed packet]

/-- `tick`, with the request that it asks for. -/
def tick (n : Neighbour) (now : Instant) : Neighbour :=
  match n.pending with
  | none => n
  | some entry =>
    if ArpCache.isTimedOut now entry then
      ({ n with pending := none } : Neighbour).record now [.timedOut entry.packets]
    else if ArpCache.isRetried now entry then
      ({ n with pending := some { entry with lastRequest := now, retries := entry.retries + 1 } } :
        Neighbour).record now [.requested]
    else n

theorem tick_of_none {n : Neighbour} (h : n.pending = none) (now : Instant) :
    n.tick now = n := by
  simp only [tick, h]

theorem tick_of_timedOut {n : Neighbour} {entry : PendingEntry} {now : Instant}
    (h : n.pending = some entry) (hto : ArpCache.isTimedOut now entry = true) :
    n.tick now = ({ n with pending := none } : Neighbour).record now [.timedOut entry.packets] := by
  simp only [tick, h, if_pos hto]

theorem tick_of_retried {n : Neighbour} {entry : PendingEntry} {now : Instant}
    (h : n.pending = some entry) (hto : ¬ ArpCache.isTimedOut now entry = true)
    (hre : ArpCache.isRetried now entry = true) :
    n.tick now = ({ n with
      pending := some { entry with lastRequest := now, retries := entry.retries + 1 } } :
        Neighbour).record now [.requested] := by
  simp only [tick, h, if_neg hto, if_pos hre]

theorem tick_of_waiting {n : Neighbour} {entry : PendingEntry} {now : Instant}
    (h : n.pending = some entry) (hto : ¬ ArpCache.isTimedOut now entry = true)
    (hre : ¬ ArpCache.isRetried now entry = true) : n.tick now = n := by
  simp only [tick, h, if_neg hto, if_neg hre]

/-- `insert`, with the writing of what waited. -/
def resolve (n : Neighbour) (now : Instant) : Neighbour :=
  ({ n with pending := none } : Neighbour).record now (.resolved :: n.waiting.map .wrote)

/-- One event. -/
def step (n : Neighbour) : NeighbourEvent → Neighbour
  | .direct packet now => n.record now [.handed packet, .wrote packet]
  | .queued packet now => n.queue packet now
  | .tick now => n.tick now
  | .resolved now => n.resolve now

/-- A packet that waits has waited before, or has just been queued. -/
theorem mem_waiting_step {n : Neighbour} {e : NeighbourEvent} {packet : List UInt8}
    (h : packet ∈ (n.step e).waiting) : packet ∈ n.waiting ∨ ∃ now, e = .queued packet now := by
  cases e with
  | direct p now => exact .inl h
  | queued p now =>
    cases hp : n.pending with
    | none =>
      have hone : packet ∈ [p] := by simpa [step, queue, hp, waiting, record] using h
      exact .inr ⟨now, by rw [List.mem_singleton.mp hone]⟩
    | some entry =>
      have hmem : packet ∈ entry.packets ++ [p] := by
        simpa [step, queue, hp, waiting, record] using h
      rcases List.mem_append.mp hmem with hold | hnew
      · exact .inl (by simpa [waiting, hp] using hold)
      · exact .inr ⟨now, by rw [List.mem_singleton.mp hnew]⟩
  | tick now =>
    refine .inl ?_
    cases hp : n.pending with
    | none => rwa [step, tick_of_none hp] at h
    | some entry =>
      have hwaiting : n.waiting = entry.packets := by simp [waiting, hp]
      by_cases hto : ArpCache.isTimedOut now entry = true
      · rw [step, tick_of_timedOut hp hto] at h
        exact absurd h (by simp [waiting, record])
      · by_cases hre : ArpCache.isRetried now entry = true
        · rw [step, tick_of_retried hp hto hre] at h
          exact hwaiting ▸ h
        · rwa [step, tick_of_waiting hp hto hre] at h
  | resolved now => exact absurd h (by simp [step, resolve, waiting, record])

/-! ## What became of the packets -/

/-- The packet that an action hands to `send_frame`, if it does. -/
def handedPacket : NeighbourAction → Option (List UInt8)
  | .handed packet => some packet
  | _ => none

/-- The packet that an action writes, if it does. -/
def writtenPacket : NeighbourAction → Option (List UInt8)
  | .wrote packet => some packet
  | _ => none

/-- The packets that an action drops. -/
def droppedPackets : NeighbourAction → List (List UInt8)
  | .timedOut packets => packets
  | _ => []

/-- The packets handed over. -/
def handed (n : Neighbour) : List (List UInt8) := n.history.filterMap fun a => handedPacket a.2

/-- The packets written. -/
def written (n : Neighbour) : List (List UInt8) := n.history.filterMap fun a => writtenPacket a.2

/-- The packets given up. -/
def dropped (n : Neighbour) : List (List UInt8) := n.history.flatMap fun a => droppedPackets a.2

section Record

variable (n : Neighbour) (now : Instant) (actions : List NeighbourAction)

@[simp] theorem handed_record :
    (n.record now actions).handed = n.handed ++ actions.filterMap handedPacket := by
  simp [handed, record, List.filterMap_map]

@[simp] theorem written_record :
    (n.record now actions).written = n.written ++ actions.filterMap writtenPacket := by
  simp [written, record, List.filterMap_map]

@[simp] theorem dropped_record :
    (n.record now actions).dropped = n.dropped ++ actions.flatMap droppedPackets := by
  simp [dropped, record, List.flatMap_map]

@[simp] theorem pending_record : (n.record now actions).pending = n.pending := rfl

@[simp] theorem waiting_record : (n.record now actions).waiting = n.waiting := rfl

end Record

theorem filterMap_wrote (packets : List (List UInt8)) :
    (packets.map NeighbourAction.wrote).filterMap writtenPacket = packets ∧
      (packets.map NeighbourAction.wrote).filterMap handedPacket = [] ∧
      (packets.map NeighbourAction.wrote).flatMap droppedPackets = [] := by
  induction packets with
  | nil => exact ⟨rfl, rfl, rfl⟩
  | cons packet packets ih =>
    obtain ⟨hwritten, hhanded, hdropped⟩ := ih
    exact ⟨congrArg (packet :: ·) hwritten, hhanded, hdropped⟩

/-- Where an event that writes nothing directly moves packets from and to. -/
inductive Moves (n n' : Neighbour) : Prop where
  | none (handed : n'.handed = n.handed) (written : n'.written = n.written)
      (waiting : n'.waiting = n.waiting) (dropped : n'.dropped = n.dropped)
  | enqueue (packet : List UInt8) (handed : n'.handed = n.handed ++ [packet])
      (written : n'.written = n.written) (waiting : n'.waiting = n.waiting ++ [packet])
      (dropped : n'.dropped = n.dropped)
  | drain (handed : n'.handed = n.handed) (written : n'.written = n.written ++ n.waiting)
      (waiting : n'.waiting = []) (dropped : n'.dropped = n.dropped)
  | drop (handed : n'.handed = n.handed) (written : n'.written = n.written)
      (waiting : n'.waiting = []) (dropped : n'.dropped = n.dropped ++ n.waiting)

theorem moves_queue (n : Neighbour) (packet : List UInt8) (now : Instant) :
    n.Moves (n.queue packet now) := by
  unfold queue
  split
  · rename_i hp
    refine .enqueue packet (handed_record ..) ?_ ?_ ?_
    · exact (written_record ..).trans (List.append_nil _)
    · simp [waiting, hp]
    · exact (dropped_record ..).trans (List.append_nil _)
  · rename_i entry hp
    refine .enqueue packet (handed_record ..) ?_ ?_ ?_
    · exact (written_record ..).trans (List.append_nil _)
    · simp [waiting, hp]
    · exact (dropped_record ..).trans (List.append_nil _)

theorem moves_tick (n : Neighbour) (now : Instant) : n.Moves (n.tick now) := by
  unfold tick
  split
  · exact .none rfl rfl rfl rfl
  · rename_i entry hp
    have hwaiting : n.waiting = entry.packets := by simp [waiting, hp]
    split_ifs
    · refine .drop ?_ ?_ rfl ?_
      · exact (handed_record ..).trans (List.append_nil _)
      · exact (written_record ..).trans (List.append_nil _)
      · rw [hwaiting]
        exact (dropped_record ..).trans (congrArg _ (List.append_nil _))
    · refine .none ?_ ?_ hwaiting.symm ?_
      · exact (handed_record ..).trans (List.append_nil _)
      · exact (written_record ..).trans (List.append_nil _)
      · exact (dropped_record ..).trans (List.append_nil _)
    · exact .none rfl rfl rfl rfl

theorem moves_resolve (n : Neighbour) (now : Instant) : n.Moves (n.resolve now) := by
  obtain ⟨hwritten, hhanded, hdropped⟩ := filterMap_wrote n.waiting
  refine .drain ?_ ?_ rfl ?_
  · exact (handed_record ..).trans ((congrArg _ hhanded).trans (List.append_nil _))
  · exact (written_record ..).trans (congrArg _ hwritten)
  · exact (dropped_record ..).trans ((congrArg _ hdropped).trans (List.append_nil _))

/-- Every packet that was handed over has been written, or waits, or was dropped, and
each of them once. -/
def Conserved (n : Neighbour) : Prop := n.handed.Perm (n.written ++ n.waiting ++ n.dropped)

/-- What has been written, and then what waits, is in the order it was handed over. -/
def InOrder (n : Neighbour) : Prop := (n.written ++ n.waiting).Sublist n.handed

/-- A packet is written at once only if none waits. -/
def InTurn (n : Neighbour) : NeighbourEvent → Prop
  | .direct _ _ => n.waiting = []
  | _ => True

variable {n n' : Neighbour}

theorem Conserved.of_moves (h : n.Conserved) (hm : n.Moves n') : n'.Conserved := by
  rw [Conserved, List.perm_iff_count] at h ⊢
  intro p
  have hp := h p
  simp only [List.count_append] at hp
  cases hm with
  | none hh hw hq hd => simp only [hh, hw, hq, hd, List.count_append, hp]
  | enqueue packet hh hw hq hd =>
    simp only [hh, hw, hq, hd, List.count_append]
    omega
  | drain hh hw hq hd =>
    simp only [hh, hw, hq, hd, List.count_append, List.count_nil]
    omega
  | drop hh hw hq hd =>
    simp only [hh, hw, hq, hd, List.count_append, List.count_nil]
    omega

theorem InOrder.of_moves (h : n.InOrder) (hm : n.Moves n') : n'.InOrder := by
  unfold InOrder at h ⊢
  cases hm with
  | none hh hw hq _ => rwa [hh, hw, hq]
  | enqueue packet hh hw hq _ =>
    rw [hh, hw, hq, ← List.append_assoc]
    exact h.append_right [packet]
  | drain hh hw hq _ => rwa [hh, hw, hq, List.append_nil]
  | drop hh hw hq _ =>
    rw [hh, hw, hq, List.append_nil]
    exact (List.sublist_append_left ..).trans h

/-- A packet that is written at once. -/
theorem packets_direct (n : Neighbour) (packet : List UInt8) (now : Instant) :
    (n.step (.direct packet now)).handed = n.handed ++ [packet] ∧
      (n.step (.direct packet now)).written = n.written ++ [packet] ∧
      (n.step (.direct packet now)).waiting = n.waiting ∧
      (n.step (.direct packet now)).dropped = n.dropped :=
  ⟨handed_record .., written_record .., rfl, (dropped_record ..).trans (List.append_nil _)⟩

theorem Conserved.step (h : n.Conserved) (e : NeighbourEvent) : (n.step e).Conserved := by
  cases e with
  | direct packet now =>
    obtain ⟨hh, hw, hq, hd⟩ := n.packets_direct packet now
    rw [Conserved, List.perm_iff_count] at h ⊢
    intro p
    have hp := h p
    simp only [hh, hw, hq, hd, List.count_append] at hp ⊢
    omega
  | queued packet now => exact h.of_moves (n.moves_queue packet now)
  | tick now => exact h.of_moves (n.moves_tick now)
  | resolved now => exact h.of_moves (n.moves_resolve now)

theorem InOrder.step (h : n.InOrder) {e : NeighbourEvent} (he : n.InTurn e) :
    (n.step e).InOrder := by
  cases e with
  | direct packet now =>
    obtain ⟨hh, hw, hq, -⟩ := n.packets_direct packet now
    have hnone : n.waiting = [] := he
    rw [InOrder, hnone, List.append_nil] at h
    rw [InOrder, hh, hw, hq, hnone, List.append_nil]
    exact h.append_right [packet]
  | queued packet now => exact h.of_moves (n.moves_queue packet now)
  | tick now => exact h.of_moves (n.moves_tick now)
  | resolved now => exact h.of_moves (n.moves_resolve now)

theorem conserved_absent : absent.Conserved := List.Perm.nil

theorem inOrder_absent : absent.InOrder := List.Sublist.slnil

/-! ## How often the address is asked for -/

/-- The times of the requests that are still open, after one more action. -/
def afterAction (asked : List Instant) (a : Instant × NeighbourAction) : List Instant :=
  match a.2 with
  | .requested => asked ++ [a.1]
  | .resolved | .timedOut _ => []
  | .handed _ | .wrote _ => asked

/-- When the address has been asked for since it was last resolved or given up. -/
def openRequests (history : List (Instant × NeighbourAction)) : List Instant :=
  history.foldl afterAction []

/-- What the requests before it allow an action to be: the third request at most, and both
requests and giving up at least three seconds after each of them. -/
def Admissible (before : List (Instant × NeighbourAction)) (a : Instant × NeighbourAction) :
    Prop :=
  match a.2 with
  | .requested => (openRequests before).length < 3 ∧
      ∀ t ∈ openRequests before, t + Duration.fromSecs 3 ≤ a.1
  | .timedOut _ => ∀ t ∈ openRequests before, t + Duration.fromSecs 3 ≤ a.1
  | _ => True

/-- All actions of a history are. -/
def Paced (history : List (Instant × NeighbourAction)) : Prop :=
  ∀ before a after, history = before ++ a :: after → Admissible before a

theorem openRequests_concat (history : List (Instant × NeighbourAction))
    (a : Instant × NeighbourAction) :
    openRequests (history ++ [a]) = afterAction (openRequests history) a :=
  List.foldl_append

theorem Paced.concat {history : List (Instant × NeighbourAction)} (h : Paced history)
    {a : Instant × NeighbourAction} (ha : Admissible history a) : Paced (history ++ [a]) := by
  intro before b after heq
  rcases List.eq_nil_or_concat after with rfl | ⟨after, c, rfl⟩
  · obtain ⟨rfl, hlast⟩ := List.append_inj' heq rfl
    rwa [← (List.cons.inj hlast).1]
  · have hsplit : history ++ [a] = (before ++ b :: after) ++ [c] := by
      rw [heq, List.concat_eq_append, List.append_assoc, List.cons_append]
    exact h before b after (List.append_inj' hsplit rfl).1

/-- The requests are counted in the entry, which has the time of the last one. -/
structure Asking (n : Neighbour) : Prop where
  paced : Paced n.history
  idle : n.pending = none → openRequests n.history = []
  asked : ∀ entry, n.pending = some entry → (openRequests n.history).length = entry.retries ∧
    entry.retries ≤ 3 ∧ ∀ t ∈ openRequests n.history, t ≤ entry.lastRequest

theorem asking_of_some {n : Neighbour} {entry : PendingEntry} {asked : List Instant}
    (hp : n.pending = some entry) (hpaced : Paced n.history)
    (hopen : openRequests n.history = asked) (hcount : asked.length = entry.retries)
    (hle : entry.retries ≤ 3) (hlast : ∀ t ∈ asked, t ≤ entry.lastRequest) : n.Asking := by
  subst hopen
  refine ⟨hpaced, fun hnone => absurd (hp.symm.trans hnone) (by simp), ?_⟩
  intro entry' hentry
  obtain rfl := Option.some.inj (hp.symm.trans hentry)
  exact ⟨hcount, hle, hlast⟩

/-- Packets that come and go do not matter. -/
theorem openRequests_record {n : Neighbour} (h : Paced n.history) (now : Instant)
    {actions : List NeighbourAction}
    (hneutral : ∀ a ∈ actions, (∃ p, a = .handed p) ∨ ∃ p, a = .wrote p) :
    Paced (n.record now actions).history ∧
      openRequests (n.record now actions).history = openRequests n.history := by
  induction actions generalizing n with
  | nil =>
    have hnil : n.record now [] = n := by simp [record]
    rw [hnil]
    exact ⟨h, rfl⟩
  | cons a actions ih =>
    have hcons : n.record now (a :: actions) = (n.record now [a]).record now actions := by
      simp [record]
    have hone : openRequests (n.record now [a]).history = openRequests n.history ∧
        Admissible n.history (now, a) := by
      have hconcat : openRequests (n.record now [a]).history = _ :=
        openRequests_concat n.history (now, a)
      rw [hconcat]
      rcases hneutral a List.mem_cons_self with ⟨p, rfl⟩ | ⟨p, rfl⟩
      · exact ⟨rfl, trivial⟩
      · exact ⟨rfl, trivial⟩
    obtain ⟨hpaced, hsame⟩ := @ih (n.record now [a]) (h.concat hone.2)
      (fun b hb => hneutral b (List.mem_cons_of_mem _ hb))
    rw [hcons]
    exact ⟨hpaced, hsame.trans hone.1⟩

theorem Asking.direct {n : Neighbour} (h : n.Asking) (packet : List UInt8) (now : Instant) :
    (n.step (.direct packet now)).Asking := by
  have hneutral : ∀ a ∈ [NeighbourAction.handed packet, .wrote packet],
      (∃ p, a = .handed p) ∨ ∃ p, a = .wrote p := by simp
  obtain ⟨hpaced, hopen⟩ := openRequests_record h.paced now hneutral
  exact ⟨hpaced, fun hp => hopen.trans (h.idle hp), fun entry hp => hopen ▸ h.asked entry hp⟩

/-- The first packet is followed by the first request. -/
theorem Asking.queue {n : Neighbour} (h : n.Asking) (packet : List UInt8) (now : Instant) :
    (n.queue packet now).Asking := by
  have hpaced : Paced (n.history ++ [(now, NeighbourAction.handed packet)]) :=
    h.paced.concat trivial
  have hopen : openRequests (n.history ++ [(now, NeighbourAction.handed packet)]) =
      openRequests n.history := openRequests_concat n.history (now, .handed packet)
  unfold Neighbour.queue
  split
  · rename_i hp
    have hnone : openRequests (n.history ++ [(now, NeighbourAction.handed packet)]) = [] :=
      hopen.trans (h.idle hp)
    have hhistory : n.history ++ [(now, NeighbourAction.handed packet), (now, .requested)] =
        n.history ++ [(now, NeighbourAction.handed packet)] ++ [(now, .requested)] := by simp
    have hopen' : openRequests
        (n.history ++ [(now, NeighbourAction.handed packet), (now, .requested)]) = [now] := by
      rw [hhistory, openRequests_concat, hnone]
      rfl
    refine asking_of_some rfl ?_ hopen' rfl Nat.one_le_ofNat ?_
    · show Paced (n.history ++ [(now, NeighbourAction.handed packet), (now, .requested)])
      rw [hhistory]
      exact hpaced.concat (by simp [Admissible, hnone])
    · intro t ht
      exact (List.mem_singleton.mp ht).le
  · rename_i entry hp
    obtain ⟨hcount, hle, hlast⟩ := h.asked entry hp
    exact asking_of_some rfl hpaced hopen hcount hle hlast

/-- By the time `tick` acts, three seconds have passed since the last request. -/
theorem Asking.tick {n : Neighbour} (h : n.Asking) (now : Instant) : (n.tick now).Asking := by
  unfold Neighbour.tick
  split
  · exact h
  · rename_i entry hp
    obtain ⟨hcount, hle, hlast⟩ := h.asked entry hp
    have hlater : entry.lastRequest + Duration.fromSecs 3 ≤ now →
        ∀ t ∈ openRequests n.history, t + Duration.fromSecs 3 ≤ now :=
      fun hnow t ht => le_trans (Nat.add_le_add_right (hlast t ht) _) hnow
    split_ifs with htimedOut hretried
    · simp only [ArpCache.isTimedOut, decide_eq_true_eq] at htimedOut
      have hnow : entry.lastRequest + Duration.fromSecs 3 ≤ now := by
        have hinterval : Duration.fromSecs 3 ≤ now - entry.lastRequest := htimedOut.2
        have hpos : 0 < Duration.fromSecs 3 := by decide
        exact Nat.add_comm .. ▸ Nat.add_le_of_le_sub
          (Nat.le_of_lt (Nat.lt_of_sub_pos (lt_of_lt_of_le hpos hinterval))) hinterval
      refine ⟨h.paced.concat (hlater hnow), fun _ => openRequests_concat .., ?_⟩
      intro entry' hentry
      exact absurd hentry (by simp)
    · simp only [ArpCache.isRetried, decide_eq_true_eq] at hretried
      have hmore : entry.retries < 3 := hretried.1
      have hconcat : openRequests (n.history ++ [(now, NeighbourAction.requested)]) =
          openRequests n.history ++ [now] := openRequests_concat n.history (now, .requested)
      refine asking_of_some rfl (h.paced.concat ⟨hcount ▸ hmore, hlater hretried.2⟩) hconcat ?_
        hmore ?_
      · rw [List.length_append, hcount]
        rfl
      · intro t ht
        rcases List.mem_append.mp ht with ht | ht
        · exact le_trans (Nat.le_add_right ..) (hlater hretried.2 t ht)
        · exact (List.mem_singleton.mp ht).le
    · exact h

theorem Asking.resolve {n : Neighbour} (h : n.Asking) (now : Instant) :
    (n.resolve now).Asking := by
  have hneutral : ∀ a ∈ n.waiting.map NeighbourAction.wrote,
      (∃ p, a = .handed p) ∨ ∃ p, a = .wrote p := by simp
  have hpaced : Paced (n.record now [.resolved]).history := h.paced.concat trivial
  have hopen : openRequests (n.record now [.resolved]).history = [] := openRequests_concat ..
  obtain ⟨hpaced', hopen'⟩ := openRequests_record hpaced now hneutral
  have hhistory : (n.resolve now).history =
      ((n.record now [.resolved]).record now (n.waiting.map .wrote)).history := by
    simp [Neighbour.resolve, record]
  refine ⟨hhistory ▸ hpaced', fun _ => hhistory ▸ hopen'.trans hopen, ?_⟩
  intro entry hentry
  exact absurd hentry (by simp [Neighbour.resolve])

theorem Asking.step {n : Neighbour} (h : n.Asking) (e : NeighbourEvent) : (n.step e).Asking := by
  cases e with
  | direct packet now => exact h.direct packet now
  | queued packet now => exact h.queue packet now
  | tick now => exact h.tick now
  | resolved now => exact h.resolve now

theorem asking_absent : absent.Asking := by
  refine ⟨?_, fun _ => rfl, fun _ h => absurd h (by simp [absent])⟩
  intro before a after heq
  exact absurd heq (by simp [absent])

end Neighbour
end PpcaNetwork.TcpStack
