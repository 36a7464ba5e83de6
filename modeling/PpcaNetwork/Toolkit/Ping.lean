import PpcaNetwork.Lib.Outstanding
import PpcaNetwork.Lib.Run
import PpcaNetwork.Lib.Table
import PpcaNetwork.Toolkit.Icmp

/-!
# The two threads of `ping`

The main thread sends a probe, enters its time in `sent_times` and counts it; the receiver
takes the time out again when a reply comes, and reports the probes that have been there for
too long.  Each step that takes a lock, or reads a clock, a flag or the socket, is a step
here, and the steps of the threads come in any order.

* `Ping.senderStep`, `Ping.receiverStep` — the next step of either thread.
* `Ping.Orderly` — no reply is looked up between the sending and the counting of its probe.
* `Ping.books` — the probes as outstanding requests; the simulation is in
  `Ping.senderStep_refines` and `Ping.receiverStep_refines`.
* `replies_counted_once` — every orderly run.
-/

namespace PpcaNetwork.Toolkit

/-- Where the main thread is. -/
inductive SenderAt where
  | checkRunning
  | checkCount
  | sendTo
  | insert
  | countSent
  | pace
  /-- `thread::sleep`, until the next probe is due. -/
  | pause (wake : Instant)
  /-- `thread::sleep(timeout)`, behind the loop. -/
  | lastSleep (wake : Instant)
  | stopReceiver
  | join
  | report
  | done
  deriving DecidableEq

/-- Where the receiver is. -/
inductive ReceiverAt where
  | checkRunning
  | recvFrom
  /-- It has read a reply, and waits for the lock of `sent_times`. -/
  | remove (seq : UInt16)
  /-- It holds that lock, and waits for the lock of the statistics. -/
  | record (seq : UInt16)
  | readClock
  | expire (now : Instant)
  | stopped
  deriving DecidableEq

/-- What the threads know of the command line. -/
structure PingConfig where
  id : UInt16
  count : Option Nat
  interval : Duration
  timeout : Duration

/-- The variables of both threads.  Of the statistics the counters are kept; the log has the
probes that are sent, the replies that are read, and what is recorded and printed. -/
structure Ping where
  sentTimes : Table UInt16 Instant
  sent : Nat
  received : Nat
  running : Bool
  seq : UInt16
  nextSend : Instant
  sender : SenderAt
  receiver : ReceiverAt
  now : Instant
  log : List (RequestEvent UInt16)

/-- What `recv_from` gives the receiver. -/
inductive PingReception where
  | packet (p : IpPacket)
  | wouldBlock
  | failed

/-- Which thread takes its next step, and how the socket answers. -/
inductive Move where
  | sender (sendOk : Bool)
  | receiver (reception : PingReception)
  /-- SIGINT. -/
  | interrupt

/-- The receiver has the turn. -/
def Move.isReceiver : Move → Bool
  | receiver _ => true
  | _ => false

/-- A step, after some time. -/
structure PingAction where
  wait : Duration
  move : Move

namespace Ping

/-- At the start of the main thread's loop, when the receiver has been spawned. -/
def start (now : Instant) : Ping where
  sentTimes := ∅
  sent := 0
  received := 0
  running := true
  seq := 0
  nextSend := now
  sender := .checkRunning
  receiver := .checkRunning
  now := now
  log := []

/-- The receiver keeps the lock of `sent_times` until it has recorded the reply. -/
def timesLocked (p : Ping) : Bool :=
  match p.receiver with
  | .record _ => true
  | _ => false

/-- The next step of the main thread. -/
def senderStep (c : PingConfig) (p : Ping) (sendOk : Bool) : Ping :=
  let leaveLoop := { p with sender := .lastSleep (p.now + c.timeout) }
  match p.sender with
  | .checkRunning => if p.running then { p with sender := .checkCount } else leaveLoop
  | .checkCount =>
    match c.count with
    | some n => if n ≤ p.sent then leaveLoop else { p with sender := .sendTo }
    | none => { p with sender := .sendTo }
  | .sendTo =>
    if sendOk then { p with sender := .insert, log := p.log ++ [.issued p.seq p.now] }
    else leaveLoop
  | .insert =>
    if p.timesLocked then p
    else { p with sentTimes := p.sentTimes.insert p.seq p.now, sender := .countSent }
  | .countSent => { p with sent := p.sent + 1, seq := p.seq + 1, sender := .pace }
  | .pace =>
    let nextSend := p.nextSend + c.interval
    if p.now < nextSend then { p with nextSend := nextSend, sender := .pause nextSend }
    else { p with nextSend := p.now, sender := .checkRunning }
  | .pause wake => if wake ≤ p.now then { p with sender := .checkRunning } else p
  | .lastSleep wake => if wake ≤ p.now then { p with sender := .stopReceiver } else p
  | .stopReceiver => { p with running := false, sender := .join }
  | .join => if p.receiver = .stopped then { p with sender := .report } else p
  | .report =>
    let seqs := p.sentTimes.keys.mergeSort fun a b => a ≤ b
    { p with sender := .done, log := p.log ++ seqs.map .expired }
  | .done => p

/-- The next step of the receiver. -/
def receiverStep (c : PingConfig) (p : Ping) (reception : PingReception) : Ping :=
  match p.receiver with
  | .checkRunning =>
    if p.running then { p with receiver := .recvFrom } else { p with receiver := .stopped }
  | .recvFrom =>
    match reception with
    | .packet packet =>
      match parseEchoReply packet.icmpBody with
      | some (rid, rseq, _) =>
        if rid = c.id then
          { p with receiver := .remove rseq, log := p.log ++ [.answered rseq p.now] }
        else { p with receiver := .readClock }
      | none => { p with receiver := .readClock }
    | .wouldBlock => { p with receiver := .readClock }
    | .failed => { p with receiver := .stopped }
  | .remove rseq =>
    match p.sentTimes.lookup rseq with
    | some _ => { p with sentTimes := p.sentTimes.erase rseq, receiver := .record rseq }
    | none => { p with receiver := .readClock }
  | .record rseq =>
    { p with received := p.received + 1, receiver := .readClock, log := p.log ++ [.recorded rseq] }
  | .readClock => { p with receiver := .expire p.now }
  | .expire now =>
    let timedOut := p.sentTimes.collect fun seq sentAt =>
      if c.timeout < now - sentAt then some seq else none
    { p with
      sentTimes := timedOut.foldl (fun times seq => times.erase seq) p.sentTimes
      receiver := .checkRunning
      log := p.log ++ timedOut.map .expired }
  | .stopped => p

/-- One turn, after some time. -/
def step (c : PingConfig) (p : Ping) (a : PingAction) : Ping :=
  let p := { p with now := p.now + a.wait }
  match a.move with
  | .sender sendOk => p.senderStep c sendOk
  | .receiver reception => p.receiverStep c reception
  | .interrupt => { p with running := false }

/-- The receiver does not look up the reply to a probe before the probe has been counted. -/
def Orderly (p : Ping) (a : PingAction) : Prop :=
  a.move.isReceiver = true → p.receiver = .remove p.seq →
    p.sender ≠ .insert ∧ p.sender ≠ .countSent

instance (p : Ping) (a : PingAction) : Decidable (Orderly p a) :=
  inferInstanceAs (Decidable (_ → _))

/-! ## The probes as outstanding requests -/

/-- The probe that is being sent. -/
def issuing (p : Ping) : Issuing UInt16 :=
  match p.sender with
  | .insert => .issued p.seq
  | .countSent => .entered p.seq
  | _ => .none

/-- The reply that is being handled. -/
def answering (p : Ping) : Answering UInt16 :=
  match p.receiver with
  | .remove rseq => .read rseq
  | .record rseq => .taken rseq
  | _ => .none

/-- What is left in `sent_times` in the end has been reported. -/
def books (p : Ping) : Outstanding UInt16 where
  entry seq := if p.sender = .done then none else p.sentTimes.lookup seq
  counted := (List.range p.sent).map UInt16.ofNat
  issuing := p.issuing
  answering := p.answering
  closed := p.receiver = .stopped
  now := p.now
  log := p.log

/-- How many probes have been sent. -/
def probes (log : List (RequestEvent UInt16)) : Nat :=
  log.countP fun
    | .issued _ _ => true
    | _ => false

theorem probes_append (log es : List (RequestEvent UInt16)) :
    probes (log ++ es) = probes log + probes es := List.countP_append

theorem probes_map_expired (seqs : List UInt16) : probes (seqs.map .expired) = 0 := by
  simp [probes, List.countP_map, Function.comp_def]

/-- What the threads rely on besides. -/
structure Sound (p : Ping) : Prop where
  seq_eq : p.seq = UInt16.ofNat p.sent
  clock_le : ∀ t, p.receiver = .expire t → t ≤ p.now
  stopped : p.sender = .report ∨ p.sender = .done → p.receiver = .stopped
  received_eq : p.received = (Outstanding.recorded p.log).length
  probes_eq : probes p.log = p.sent + if p.issuing = .none then 0 else 1

section Steps

variable {c : PingConfig} {p : Ping} {a : PingAction}

/-- A probe of a number below 65536 has a sequence number of its own. -/
theorem ofNat_notMem_range {n : Nat} (h : n < 65536) :
    UInt16.ofNat n ∉ (List.range n).map UInt16.ofNat := by
  intro hmem
  obtain ⟨m, hm, heq⟩ := List.mem_map.mp hmem
  have hlt := List.mem_range.mp hm
  have hnat := congrArg UInt16.toNat heq
  rw [UInt16.toNat_ofNat', UInt16.toNat_ofNat'] at hnat
  omega

theorem issuing_eq_issued {seq : UInt16} :
    p.issuing = .issued seq ↔ p.sender = .insert ∧ p.seq = seq := by
  unfold issuing
  cases p.sender <;> simp

theorem issuing_eq_entered {seq : UInt16} :
    p.issuing = .entered seq ↔ p.sender = .countSent ∧ p.seq = seq := by
  unfold issuing
  cases p.sender <;> simp

theorem answering_eq_read {rseq : UInt16} :
    p.answering = .read rseq ↔ p.receiver = .remove rseq := by
  unfold answering
  cases p.receiver <;> simp

theorem answering_eq_taken {rseq : UInt16} :
    p.answering = .taken rseq ↔ p.receiver = .record rseq := by
  unfold answering
  cases p.receiver <;> simp

/-- The main thread is not through before the receiver has stopped. -/
theorem Sound.not_done (hs : p.Sound) (h : p.receiver ≠ .stopped) : p.sender ≠ .done :=
  fun hdone => h (hs.stopped (.inr hdone))

/-! ## The steps that are seen in the books -/

/-- A probe is sent: its sequence number is a new one. -/
theorem sendTo_refines (hs : p.Sound) (hsender : p.sender = .sendTo) (timeout : Duration)
    (hfew : probes (p.log ++ [.issued p.seq p.now]) < 65536) :
    Outstanding.Step timeout p.books
      ({ p with sender := .insert, log := p.log ++ [.issued p.seq p.now] } : Ping).books := by
  have hidle : p.issuing = .none := by simp [issuing, hsender]
  have hprobes := hs.probes_eq
  rw [probes_append] at hfew
  simp only [hidle, if_true, Nat.add_zero] at hprobes
  have hfresh : p.seq ∉ p.books.counted := by
    rw [hs.seq_eq]
    exact ofNat_notMem_range (by omega)
  have hbooks : ({ p with sender := .insert, log := p.log ++ [.issued p.seq p.now] } : Ping).books
      = { p.books with
          issuing := .issued p.seq, log := p.books.log ++ [.issued p.seq p.books.now] } := by
    simp [books, issuing, answering, hsender]
  rw [hbooks]
  exact .issue p.seq hidle hfresh

/-- Its time is entered. -/
theorem insert_refines (hsender : p.sender = .insert) (timeout : Duration) :
    Outstanding.Step timeout p.books
      ({ p with
        sentTimes := p.sentTimes.insert p.seq p.now, sender := .countSent } : Ping).books := by
  have hissued : p.issuing = .issued p.seq := by simp [issuing, hsender]
  have hentry : (fun seq => (p.sentTimes.insert p.seq p.now).lookup seq)
      = Function.update (fun seq => p.sentTimes.lookup seq) p.seq (some p.now) := by
    funext seq
    by_cases hseq : seq = p.seq
    · subst hseq
      simp
    · simp [hseq, AList.lookup_insert_ne]
  have hbooks : ({ p with
        sentTimes := p.sentTimes.insert p.seq p.now, sender := .countSent } : Ping).books
      = { p.books with
          issuing := .entered p.seq
          entry := Function.update p.books.entry p.seq (some p.books.now) } := by
    simp [books, issuing, answering, hsender, hentry]
  rw [hbooks]
  exact .enter p.seq hissued

/-- It is counted, and the next sequence number is taken. -/
theorem countSent_refines (hs : p.Sound) (hsender : p.sender = .countSent) (timeout : Duration) :
    Outstanding.Step timeout p.books
      ({ p with sent := p.sent + 1, seq := p.seq + 1, sender := .pace } : Ping).books := by
  have hentered : p.issuing = .entered p.seq := by simp [issuing, hsender]
  have hbooks : ({ p with sent := p.sent + 1, seq := p.seq + 1, sender := .pace } : Ping).books
      = { p.books with issuing := .none, counted := p.books.counted ++ [p.seq] } := by
    simp [books, issuing, answering, hsender, List.range_succ, hs.seq_eq]
  rw [hbooks]
  exact .count p.seq hentered

/-- In the end all that is left in `sent_times` expires. -/
theorem report_refines (hs : p.Sound) (hsender : p.sender = .report) (timeout : Duration)
    {seqs : List UInt16} (hseqs : ∀ seq, seq ∈ seqs ↔ seq ∈ p.sentTimes) :
    Outstanding.Step timeout p.books
      ({ p with sender := .done, log := p.log ++ seqs.map .expired } : Ping).books := by
  have hstopped := hs.stopped (.inl hsender)
  have hidle : p.answering = .none := by simp [answering, hstopped]
  have hentry : (fun seq => if seq ∈ seqs then none else p.sentTimes.lookup seq)
      = fun _ => none := by
    funext seq
    split
    · rfl
    · rename_i hseq
      exact AList.lookup_eq_none.mpr fun hmem => hseq ((hseqs seq).mpr hmem)
  have hbooks : ({ p with sender := .done, log := p.log ++ seqs.map .expired } : Ping).books
      = { p.books with
          entry := fun seq => if seq ∈ seqs then none else p.books.entry seq
          log := p.books.log ++ seqs.map .expired } := by
    simp [books, issuing, answering, hsender, hentry]
  rw [hbooks]
  refine .expire seqs hidle fun seq hseq => ?_
  obtain ⟨e, he⟩ := Option.isSome_iff_exists.mp (AList.lookup_isSome.mpr ((hseqs seq).mp hseq))
  refine ⟨e, ?_, .inr (by simp [books, hstopped])⟩
  simp [books, hsender, he]

/-- A reply is read. -/
theorem read_refines (hreceiver : p.receiver = .recvFrom) (timeout : Duration) (rseq : UInt16) :
    Outstanding.Step timeout p.books
      ({ p with
        receiver := .remove rseq, log := p.log ++ [.answered rseq p.now] } : Ping).books := by
  have hidle : p.answering = .none := by simp [answering, hreceiver]
  have hopen : p.books.closed = false := by simp [books, hreceiver]
  have hbooks : ({ p with
        receiver := .remove rseq, log := p.log ++ [.answered rseq p.now] } : Ping).books
      = { p.books with
          answering := .read rseq, log := p.books.log ++ [.answered rseq p.books.now] } := by
    simp [books, issuing, answering, hreceiver]
  rw [hbooks]
  exact .read rseq hidle hopen

/-- Its probe is looked up, and its entry taken if there is one. -/
theorem remove_refines (hs : p.Sound) {rseq : UInt16} (hreceiver : p.receiver = .remove rseq)
    (horderly : rseq = p.seq → p.sender ≠ .insert ∧ p.sender ≠ .countSent) (timeout : Duration) :
    Outstanding.Step timeout p.books
      (match p.sentTimes.lookup rseq with
        | some _ => { p with sentTimes := p.sentTimes.erase rseq, receiver := .record rseq }
        | none => { p with receiver := .readClock } : Ping).books := by
  have hread : p.answering = .read rseq := by simp [answering, hreceiver]
  have hrunning : p.sender ≠ .done := hs.not_done (by simp [hreceiver])
  have hentry : p.books.entry rseq = p.sentTimes.lookup rseq := by simp [books, hrunning]
  have hissued : p.issuing ≠ .issued rseq := by
    intro hissuing
    obtain ⟨hsender, hseq⟩ := issuing_eq_issued.mp hissuing
    exact (horderly hseq.symm).1 hsender
  have hentered : p.issuing ≠ .entered rseq := by
    intro hissuing
    obtain ⟨hsender, hseq⟩ := issuing_eq_entered.mp hissuing
    exact (horderly hseq.symm).2 hsender
  cases hlookup : p.sentTimes.lookup rseq with
  | some sentAt =>
    have herase : (fun seq => (p.sentTimes.erase rseq).lookup seq)
        = Function.update (fun seq => p.sentTimes.lookup seq) rseq none := by
      funext seq
      by_cases hseq : seq = rseq
      · subst hseq
        simp
      · simp [hseq, AList.lookup_erase_ne hseq]
    have hbooks : ({ p with
          sentTimes := p.sentTimes.erase rseq, receiver := .record rseq } : Ping).books
        = { p.books with
            answering := .taken rseq, entry := Function.update p.books.entry rseq none } := by
      simp [books, issuing, answering, hreceiver, hrunning, herase]
    simp only [hbooks]
    exact .take rseq hread (by simp [hentry, hlookup]) hissued hentered
  | none =>
    have hbooks : ({ p with receiver := .readClock } : Ping).books
        = { p.books with answering := .none } := by
      simp [books, issuing, answering, hreceiver]
    simp only [hbooks]
    exact .miss rseq hread (by rw [hentry, hlookup]) hissued hentered

theorem record_refines {rseq : UInt16} (hreceiver : p.receiver = .record rseq)
    (timeout : Duration) :
    Outstanding.Step timeout p.books
      ({ p with
        received := p.received + 1, receiver := .readClock
        log := p.log ++ [.recorded rseq] } : Ping).books := by
  have htaken : p.answering = .taken rseq := by simp [answering, hreceiver]
  have hbooks : ({ p with
        received := p.received + 1, receiver := .readClock
        log := p.log ++ [.recorded rseq] } : Ping).books
      = { p.books with answering := .none, log := p.books.log ++ [.recorded rseq] } := by
    simp [books, issuing, answering, hreceiver]
  rw [hbooks]
  exact .record rseq htaken

/-- The entries that are too old expire. -/
theorem expire_refines (hs : p.Sound) {now : Instant} (hreceiver : p.receiver = .expire now)
    {timeout : Duration} {timedOut : List UInt16}
    (htimedOut : (p.sentTimes.collect fun seq sentAt =>
      if timeout < now - sentAt then some seq else none) = timedOut) :
    Outstanding.Step timeout p.books
      ({ p with
        sentTimes := timedOut.foldl (fun times seq => times.erase seq) p.sentTimes
        receiver := .checkRunning, log := p.log ++ timedOut.map .expired } : Ping).books := by
  have hidle : p.answering = .none := by simp [answering, hreceiver]
  have hrunning : p.sender ≠ .done := hs.not_done (by simp [hreceiver])
  have hentry : p.books.entry = fun seq => p.sentTimes.lookup seq := by simp [books, hrunning]
  have hbooks : ({ p with
        sentTimes := timedOut.foldl (fun times seq => times.erase seq) p.sentTimes
        receiver := .checkRunning, log := p.log ++ timedOut.map .expired } : Ping).books
      = { p.books with
          entry := fun seq => if seq ∈ timedOut then none else p.books.entry seq
          log := p.books.log ++ timedOut.map .expired } := by
    simp [books, issuing, answering, hreceiver, hrunning, Table.lookup_foldl_erase]
  rw [hbooks]
  refine .expire timedOut hidle fun seq hseq => ?_
  rw [← htimedOut, Table.mem_collect] at hseq
  obtain ⟨seq', sentAt, hlookup, hlate⟩ := hseq
  obtain ⟨hlt, heq⟩ := Option.ite_none_right_eq_some.mp hlate
  cases heq
  have hclock := hs.clock_le now hreceiver
  refine ⟨sentAt, by rw [hentry]; exact hlookup, .inl ?_⟩
  exact (Nat.add_lt_of_lt_sub' hlt).trans_le hclock

/-- When the receiver stops no more replies are read. -/
theorem stop_refines (hidle : p.answering = .none) (timeout : Duration) :
    Outstanding.Step timeout p.books ({ p with receiver := .stopped } : Ping).books := by
  have hanswering : ({ p with receiver := .stopped } : Ping).answering = p.answering := hidle.symm
  have hbooks : ({ p with receiver := .stopped } : Ping).books
      = { p.books with closed := true } := by
    simp [books, issuing, hanswering]
  rw [hbooks]
  exact .close hidle

/-- A step of the main thread does what may be done with outstanding requests. -/
theorem senderStep_refines (hs : p.Sound) {sendOk : Bool}
    (hfew : probes (p.senderStep c sendOk).log < 65536) :
    (p.senderStep c sendOk).books = p.books ∨
      Outstanding.Step c.timeout p.books (p.senderStep c sendOk).books := by
  unfold senderStep at hfew ⊢
  cases hsender : p.sender with
  | checkRunning =>
    left
    dsimp only
    split <;> simp [books, issuing, answering, hsender]
  | checkCount =>
    left
    dsimp only
    split
    · split <;> simp [books, issuing, answering, hsender]
    · simp [books, issuing, answering, hsender]
  | sendTo =>
    cases sendOk with
    | false =>
      left
      simp [books, issuing, answering, hsender]
    | true =>
      simp only [hsender, if_true] at hfew ⊢
      exact .inr (sendTo_refines hs hsender c.timeout hfew)
  | insert =>
    dsimp only
    split
    · exact .inl rfl
    · exact .inr (insert_refines hsender c.timeout)
  | countSent => exact .inr (countSent_refines hs hsender c.timeout)
  | pace =>
    left
    dsimp only
    split <;> simp [books, issuing, answering, hsender]
  | pause wake =>
    left
    dsimp only
    split <;> simp [books, issuing, answering, hsender]
  | lastSleep wake =>
    left
    dsimp only
    split <;> simp [books, issuing, answering, hsender]
  | stopReceiver =>
    left
    simp [books, issuing, answering, hsender]
  | join =>
    left
    dsimp only
    split <;> simp [books, issuing, answering, hsender]
  | report =>
    refine .inr (report_refines hs hsender c.timeout fun seq => ?_)
    rw [List.mem_mergeSort, AList.mem_keys]
  | done => exact .inl rfl

/-- A step of the receiver, too, if the reply that it looks up is not to the probe that is
being sent. -/
theorem receiverStep_refines (hs : p.Sound) {reception : PingReception}
    (horderly : p.receiver = .remove p.seq → p.sender ≠ .insert ∧ p.sender ≠ .countSent) :
    (p.receiverStep c reception).books = p.books ∨
      Outstanding.Step c.timeout p.books (p.receiverStep c reception).books := by
  unfold receiverStep
  cases hreceiver : p.receiver with
  | checkRunning =>
    have hidle : p.answering = .none := by simp [answering, hreceiver]
    dsimp only
    split
    · left
      simp [books, issuing, answering, hreceiver]
    · exact .inr (stop_refines hidle c.timeout)
  | recvFrom =>
    have hidle : p.answering = .none := by simp [answering, hreceiver]
    have hquiet : ({ p with receiver := .readClock } : Ping).books = p.books := by
      simp [books, issuing, answering, hreceiver]
    cases reception with
    | wouldBlock => exact .inl hquiet
    | failed => exact .inr (stop_refines hidle c.timeout)
    | packet packet =>
      dsimp only
      cases parseEchoReply packet.icmpBody with
      | none => exact .inl hquiet
      | some reply =>
        obtain ⟨rid, rseq, payload⟩ := reply
        dsimp only
        split
        · exact .inr (read_refines hreceiver c.timeout rseq)
        · exact .inl hquiet
  | remove rseq =>
    refine .inr (remove_refines hs hreceiver (fun hseq => ?_) c.timeout)
    exact horderly (hseq ▸ hreceiver)
  | record rseq => exact .inr (record_refines hreceiver c.timeout)
  | readClock =>
    left
    simp [books, issuing, answering, hreceiver]
  | expire now => exact .inr (expire_refines hs hreceiver rfl)
  | stopped => exact .inl rfl

/-! ## What the threads rely on -/

theorem sound_start (now : Instant) : (start now).Sound where
  seq_eq := rfl
  clock_le := by simp [start]
  stopped := by simp [start]
  received_eq := rfl
  probes_eq := rfl

theorem Sound.withSender (hs : p.Sound) (s : SenderAt) (nextSend : Instant) (running : Bool)
    (hissuing : ({ p with sender := s } : Ping).issuing = .none ↔ p.issuing = .none)
    (hstopped : s = .report ∨ s = .done → p.receiver = .stopped) :
    Sound { p with sender := s, nextSend := nextSend, running := running } where
  seq_eq := hs.seq_eq
  clock_le := hs.clock_le
  stopped := hstopped
  received_eq := hs.received_eq
  probes_eq := by
    have hsame : ({ p with sender := s, nextSend := nextSend, running := running } : Ping).issuing
      = .none ↔ p.issuing = .none := hissuing
    simp only [hsame]
    exact hs.probes_eq

theorem Sound.withReceiver (hs : p.Sound) (r : ReceiverAt) (times : Table UInt16 Instant)
    (hclock : ∀ t, r = .expire t → t ≤ p.now) (hstopped : p.receiver = .stopped → r = .stopped) :
    Sound { p with sentTimes := times, receiver := r } where
  seq_eq := hs.seq_eq
  clock_le := hclock
  stopped h := hstopped (hs.stopped h)
  received_eq := hs.received_eq
  probes_eq := hs.probes_eq

/-- Events that neither send nor record a probe do not count. -/
theorem Sound.withLog (hs : p.Sound) {es : List (RequestEvent UInt16)}
    (hrecorded : Outstanding.recorded es = []) (hprobes : probes es = 0) :
    Sound { p with log := p.log ++ es } where
  seq_eq := hs.seq_eq
  clock_le := hs.clock_le
  stopped := hs.stopped
  received_eq := by
    rw [Outstanding.recorded_append, hrecorded, List.append_nil]
    exact hs.received_eq
  probes_eq := by
    rw [probes_append, hprobes, Nat.add_zero]
    exact hs.probes_eq

theorem Sound.senderStep (hs : p.Sound) (sendOk : Bool) : (p.senderStep c sendOk).Sound := by
  unfold Ping.senderStep
  cases hsender : p.sender with
  | checkRunning =>
    dsimp only
    split <;> exact hs.withSender _ _ _ (by simp [issuing, hsender]) (by simp)
  | checkCount =>
    dsimp only
    split
    · split <;> exact hs.withSender _ _ _ (by simp [issuing, hsender]) (by simp)
    · exact hs.withSender _ _ _ (by simp [issuing, hsender]) (by simp)
  | sendTo =>
    cases sendOk with
    | false => exact hs.withSender _ _ _ (by simp [issuing, hsender]) (by simp)
    | true =>
      have hprobes := hs.probes_eq
      simp only [issuing, hsender, if_true, Nat.add_zero] at hprobes
      refine ⟨hs.seq_eq, hs.clock_le, by simp, ?_, ?_⟩
      · simp only [if_true, Outstanding.recorded_append]
        exact hs.received_eq.trans (congrArg List.length (List.append_nil _)).symm
      · simp only [if_true, probes_append, hprobes]
        rfl
  | insert =>
    have hprobes := hs.probes_eq
    simp only [issuing, hsender] at hprobes
    dsimp only
    split
    · exact hs
    · exact ⟨hs.seq_eq, hs.clock_le, by simp, hs.received_eq, hprobes⟩
  | countSent =>
    have hprobes := hs.probes_eq
    simp only [issuing, hsender] at hprobes
    refine ⟨?_, hs.clock_le, by simp, hs.received_eq, hprobes⟩
    rw [hs.seq_eq, UInt16.ofNat_add]
    rfl
  | pace =>
    dsimp only
    split <;> exact hs.withSender _ _ _ (by simp [issuing, hsender]) (by simp)
  | pause wake =>
    dsimp only
    split
    · exact hs.withSender _ _ _ (by simp [issuing, hsender]) (by simp)
    · exact hs
  | lastSleep wake =>
    dsimp only
    split
    · exact hs.withSender _ _ _ (by simp [issuing, hsender]) (by simp)
    · exact hs
  | stopReceiver => exact hs.withSender _ _ _ (by simp [issuing, hsender]) (by simp)
  | join =>
    dsimp only
    split
    · rename_i hstopped
      exact hs.withSender _ _ _ (by simp [issuing, hsender]) fun _ => hstopped
    · exact hs
  | report =>
    have hdone := hs.withSender .done p.nextSend p.running (by simp [issuing, hsender])
      fun _ => hs.stopped (.inl hsender)
    exact hdone.withLog (Outstanding.recorded_map_expired _) (probes_map_expired _)
  | done => exact hs

theorem Sound.receiverStep (hs : p.Sound) (reception : PingReception) :
    (p.receiverStep c reception).Sound := by
  unfold Ping.receiverStep
  cases hreceiver : p.receiver with
  | checkRunning =>
    dsimp only
    split <;> exact hs.withReceiver _ _ (by simp) (by simp [hreceiver])
  | recvFrom =>
    have hquiet : ∀ r, (∀ t, r ≠ .expire t) → Sound { p with receiver := r } := fun r hr =>
      hs.withReceiver r p.sentTimes (fun t ht => absurd ht (hr t)) (by simp [hreceiver])
    cases reception with
    | wouldBlock => exact hquiet .readClock (by simp)
    | failed => exact hquiet .stopped (by simp)
    | packet packet =>
      dsimp only
      split
      · split
        · exact (hquiet (.remove _) (by simp)).withLog rfl rfl
        · exact hquiet .readClock (by simp)
      · exact hquiet .readClock (by simp)
  | remove rseq =>
    dsimp only
    split <;> exact hs.withReceiver _ _ (by simp) (by simp [hreceiver])
  | record rseq =>
    refine ⟨hs.seq_eq, by simp, ?_, ?_, ?_⟩
    · intro hsender
      rw [hs.stopped hsender] at hreceiver
      cases hreceiver
    · dsimp only
      rw [Outstanding.recorded_append, List.length_append, hs.received_eq]
      rfl
    · dsimp only
      rw [probes_append]
      exact hs.probes_eq
  | readClock => exact hs.withReceiver _ _ (by simp) (by simp [hreceiver])
  | expire now =>
    have hmoved := hs.withReceiver .checkRunning ((p.sentTimes.collect fun seq sentAt =>
      if c.timeout < now - sentAt then some seq else none).foldl
        (fun times seq => times.erase seq) p.sentTimes) (by simp) (by simp [hreceiver])
    exact hmoved.withLog (Outstanding.recorded_map_expired _) (probes_map_expired _)
  | stopped => exact hs

/-! ## Runs -/

/-- What holds at any time. -/
structure Inv (c : PingConfig) (p : Ping) : Prop where
  sound : p.Sound
  books : p.books.Inv c.timeout

theorem inv_start (now : Instant) : Inv c (start now) where
  sound := sound_start now
  books := by
    constructor <;> simp [Ping.books, start, issuing, answering, Outstanding.Entered,
      Outstanding.AnsweredInTime]

theorem Inv.of_refines (h : p.Inv c) {p' : Ping} (hs : p'.Sound)
    (hstep : p'.books = p.books ∨ Outstanding.Step c.timeout p.books p'.books) : p'.Inv c where
  sound := hs
  books := by
    rcases hstep with heq | hstep
    · rw [heq]
      exact h.books
    · exact h.books.step hstep

theorem Inv.tick (h : p.Inv c) (wait : Duration) : Inv c { p with now := p.now + wait } := by
  have hle : p.now ≤ p.now + wait := Nat.le_add_right _ _
  refine h.of_refines ⟨h.sound.seq_eq, ?_, h.sound.stopped, h.sound.received_eq, h.sound.probes_eq⟩
    (.inr (.tick _ hle))
  exact fun t ht => (h.sound.clock_le t ht).trans hle

/-- The log only grows. -/
theorem probes_step_le : probes p.log ≤ probes (step c p a).log := by
  have hsender : ∀ (p : Ping) sendOk, p.log <+: (p.senderStep c sendOk).log := by
    intro p sendOk
    unfold senderStep
    cases p.sender <;> dsimp only
    all_goals repeat' split
    all_goals simp
  have hreceiver : ∀ (p : Ping) reception, p.log <+: (p.receiverStep c reception).log := by
    intro p reception
    unfold receiverStep
    cases p.receiver <;> dsimp only
    all_goals repeat' split
    all_goals simp
  unfold Ping.step
  cases a.move with
  | sender sendOk => exact (hsender { p with now := p.now + a.wait } sendOk).sublist.countP_le
  | receiver reception =>
    exact (hreceiver { p with now := p.now + a.wait } reception).sublist.countP_le
  | interrupt => exact Nat.le_refl _

/-- An orderly step, with which no sequence number is used twice. -/
theorem Inv.step (h : p.Inv c) (horderly : Orderly p a) (hfew : probes (step c p a).log < 65536) :
    (step c p a).Inv c := by
  have htick := h.tick a.wait
  unfold Ping.step at hfew ⊢
  cases hmove : a.move with
  | sender sendOk =>
    rw [hmove] at hfew
    exact htick.of_refines (htick.sound.senderStep sendOk) (senderStep_refines htick.sound hfew)
  | receiver reception =>
    exact htick.of_refines (htick.sound.receiverStep reception)
      (receiverStep_refines htick.sound (horderly (by rw [hmove, Move.isReceiver])))
  | interrupt =>
    exact htick.of_refines (htick.sound.withSender p.sender p.nextSend false Iff.rfl
      htick.sound.stopped) (.inl rfl)

end Steps

end Ping

open Ping

/-- In every orderly run of fewer than 65536 probes no more replies are counted than probes,
and a probe that is answered in time is never reported, and recorded exactly once when its
reply has been handled. -/
theorem replies_counted_once {c : PingConfig} {now : Instant} {acts : List PingAction}
    (hfew : probes (run (step c) (start now) acts).log < 65536)
    (horderly : Run.Guarded (step c) Orderly (start now) acts) :
    (run (step c) (start now) acts).received ≤ (run (step c) (start now) acts).sent ∧
    ∀ seq, Outstanding.AnsweredInTime c.timeout (run (step c) (start now) acts).log seq →
      .expired seq ∉ (run (step c) (start now) acts).log ∧
      (run (step c) (start now) acts).log.count (.recorded seq) ≤ 1 ∧
      ((run (step c) (start now) acts).receiver ≠ .remove seq →
        (run (step c) (start now) acts).receiver ≠ .record seq →
        (run (step c) (start now) acts).log.count (.recorded seq) = 1) := by
  have hgrows : ∀ p a, probes p.log ≤ probes (step c p a).log := fun _ _ => probes_step_le
  have hguard := Run.guarded_and.mpr ⟨horderly, Run.guarded_le hgrows (start now) acts⟩
  have hinv : (run (step c) (start now) acts).Inv c :=
    Run.invariant_of_guarded (Inv c) (fun p a h hg => h.step hg.1 (hg.2.trans_lt hfew))
      (inv_start now) hguard
  generalize run (step c) (start now) acts = p at hinv
  refine ⟨?_, fun seq hseq => ?_⟩
  · have hle := hinv.books.recorded_le
    rw [hinv.sound.received_eq]
    simpa [books] using hle
  · obtain ⟨hexpired, hle, hone⟩ := hinv.books.recorded_once hseq
    refine ⟨hexpired, hle, fun hremove hrecord => hone ?_ ?_⟩
    · exact fun h => hremove (answering_eq_read.mp h)
    · exact fun h => hrecord (answering_eq_taken.mp h)

/-! ## A probe and its reply -/

/-- One request. -/
def demoConfig : PingConfig where
  id := 7
  count := some 1
  interval := 1000
  timeout := 2000

/-- The reply to the first probe. -/
def demoReply : IpPacket where
  data := 0x45 :: List.replicate 19 0 ++ [0, 0, 0, 0, 0, 7, 0, 0]
  header_le := by decide
  options_le := by decide

/-- The sender has a turn. -/
def demoSender : PingAction := ⟨0, .sender true⟩

/-- The reply arrives. -/
def demoReceiver : PingAction := ⟨0, .receiver (.packet demoReply)⟩

/-- The probe is counted before its reply is read. -/
def demoOrderly : List PingAction := List.replicate 5 demoSender ++ List.replicate 4 demoReceiver

theorem demo_counted_once :
    (run (step demoConfig) (start 0) demoOrderly).log.count (.recorded 0) = 1 := by
  have hfew : probes (run (step demoConfig) (start 0) demoOrderly).log < 65536 := by decide +kernel
  have horderly : Run.Guarded (step demoConfig) Orderly (start 0) demoOrderly := by decide +kernel
  have hanswered : Outstanding.AnsweredInTime demoConfig.timeout
      (run (step demoConfig) (start 0) demoOrderly).log 0 :=
    ⟨[.issued 0 0], 0, 0, by decide +kernel, by decide, by decide⟩
  refine ((replies_counted_once hfew horderly).2 0 hanswered).2.2 ?_ ?_
  · decide +kernel
  · decide +kernel

/-- The reply is looked up before the time of its probe has been entered. -/
theorem demo_reported : ¬ ∀ (c : PingConfig) (now : Instant) (acts : List PingAction),
    probes (run (step c) (start now) acts).log < 65536 →
    (run (step c) (start now) acts).received ≤ (run (step c) (start now) acts).sent ∧
    ∀ seq, Outstanding.AnsweredInTime c.timeout (run (step c) (start now) acts).log seq →
      .expired seq ∉ (run (step c) (start now) acts).log ∧
      (run (step c) (start now) acts).log.count (.recorded seq) ≤ 1 ∧
      ((run (step c) (start now) acts).receiver ≠ .remove seq →
        (run (step c) (start now) acts).receiver ≠ .record seq →
        (run (step c) (start now) acts).log.count (.recorded seq) = 1) := by
  intro h
  have hrun := h demoConfig 0 (List.replicate 3 demoSender ++ List.replicate 3 demoReceiver ++
    demoSender :: ⟨3000, .receiver .wouldBlock⟩ :: [demoReceiver]) (by decide +kernel)
  have hanswered := hrun.2 0 ⟨[.issued 0 0], 0, 0, by decide +kernel, by decide, by decide⟩
  exact absurd hanswered.1 (by decide +kernel)

end PpcaNetwork.Toolkit
