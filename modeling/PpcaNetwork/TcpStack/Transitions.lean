import PpcaNetwork.TcpStack.Connection

/-!
# What each operation can do to a control block

One lemma for each operation of the state machine, saying which fields it may
change and in which cases, so that no invariant has to unfold the source again.

* `Tcb.exists_afterSending` — sending touches the timer only.
* `Tcb.exists_retransmit` — so does a retransmission, apart from giving up.
* `Tcb.processAck_cases` — ACK processing accepts exactly the acknowledgement of
  everything sent.
* `Tcb.processData_accepted` and `Tcb.processData_ignored` — a segment is either
  accepted as the next one or leaves no trace.
* `Tcb.processExistingTcb_takesFin` and `Tcb.processExistingTcb_buffers` — after
  our FIN, a segment either brings the peer's FIN or at most data.
* `Tcb.state_eq_closed_iff` — the segments that end a connection at once.
-/

namespace PpcaNetwork.TcpStack

/-- The segment occupies sequence space: it carries data, a SYN or a FIN. -/
def TcpHeader.Occupies (header : TcpHeader) (payload : List UInt8) : Prop :=
  0 < segLen payload ∨ header.has tcpSyn = true ∨ header.has tcpFin = true

instance (header : TcpHeader) (payload : List UInt8) : Decidable (header.Occupies payload) :=
  inferInstanceAs (Decidable (_ ∨ _ ∨ _))

theorem TcpHeader.flagLen_ne_zero (header : TcpHeader) (flag : UInt8) :
    header.flagLen flag ≠ 0 ↔ header.has flag = true := by
  unfold flagLen
  split
  · rename_i h; simp [h]
  · rename_i h; simp [h]

@[simp] theorem segLen_nil : segLen [] = 0 := rfl

namespace Tcb

/-! ## The timer -/

/-- Sending under a connection changes nothing but its timer. -/
theorem exists_afterSending (segs : List OutgoingSegment) (now : Instant) (t : Tcb) :
    ∃ r, t.afterSending segs now = { t with retransmitAt := r } := by
  induction segs generalizing t with
  | nil => exact ⟨t.retransmitAt, rfl⟩
  | cons seg segs ih =>
    obtain ⟨r, hr⟩ := ih (t.recordSent now)
    have hcons : t.afterSending (seg :: segs) now = (t.recordSent now).afterSending segs now := rfl
    refine ⟨r, ?_⟩
    rw [hcons, hr, recordSent]
    split <;> rfl

/-- A poll changes the timer and the retransmission state, and may give the
connection up. -/
theorem exists_retransmit (t : Tcb) (now : Instant) :
    ∃ st r rto n, (st = t.state ∨ st = .closed) ∧ (t.retransmit now).1 =
      { t with state := st, retransmitAt := r, rto := rto, retransmitCount := n } := by
  unfold retransmit
  split
  · split
    · exact ⟨.closed, t.retransmitAt, t.rto, t.retransmitCount, .inr rfl, rfl⟩
    · exact ⟨t.state, _, _, _, .inl rfl, rfl⟩
  · exact ⟨t.state, t.retransmitAt, t.rto, t.retransmitCount, .inl rfl, rfl⟩

/-- A timer that has not run out leaves the connection alone. -/
theorem retransmit_of_not_fired {t : Tcb} {now : Instant} (h : t.timerFired now = false) :
    t.retransmit now = (t, none) := by
  simp [retransmit, h]

/-- A timer that has run out either gives the connection up or retransmits. -/
theorem retransmit_of_fired {t : Tcb} {now : Instant} (h : t.timerFired now = true) :
    (t.retransmit now).1.state = .closed ∨
      ∃ seg, (t.retransmit now).2 = some seg := by
  unfold retransmit
  rw [if_pos h]
  split
  · exact .inl rfl
  · exact .inr ⟨_, rfl⟩

/-! ## `Established` -/

/-- The window test of the source accepts exactly one value: with the comparison
`≤ 0` on unsigned numbers, an acknowledgement counts only if it covers
everything sent. -/
theorem ack_accepted_iff (t : Tcb) (ack : UInt32) :
    (0 < ack - t.sndUna ∧ ack - t.sndNxt ≤ 0) ↔ ack = t.sndNxt ∧ t.sndNxt ≠ t.sndUna := by
  constructor
  · rintro ⟨h1, h2⟩
    have hack : ack = t.sndNxt := by grind
    refine ⟨hack, ?_⟩
    rintro heq
    rw [hack, heq, sub_self] at h1
    exact absurd h1 (by decide)
  · rintro ⟨rfl, hne⟩
    refine ⟨?_, by simp⟩
    grind

/-- What an accepted acknowledgement leaves behind. -/
def acknowledged (t : Tcb) : Tcb :=
  { t with
    sendBuffer := t.sendBuffer.drop (min (t.sndNxt - t.sndUna).toNat t.sendBuffer.length)
    sndUna := t.sndNxt
    retransmitAt := none
    retransmitCount := 0 }

/-- ACK processing either does nothing or takes the acknowledgement of all
outstanding data, which stops the timer. -/
theorem processAck_cases (t : Tcb) (header : TcpHeader) :
    t.processAck header = t ∨ (t.sndNxt ≠ t.sndUna ∧ t.processAck header = t.acknowledged) := by
  unfold processAck
  split
  · split
    · rename_i h
      obtain ⟨hack, hne⟩ := (t.ack_accepted_iff header.ack).mp h
      refine .inr ⟨hne, ?_⟩
      simp [acknowledged, hack]
    · exact .inl rfl
  · exact .inl rfl

/-- With nothing outstanding, no acknowledgement has any effect. -/
theorem processAck_of_idle {t : Tcb} (h : t.sndUna = t.sndNxt) (header : TcpHeader) :
    t.processAck header = t := by
  rcases t.processAck_cases header with heq | ⟨hne, -⟩
  · exact heq
  · exact absurd h.symm hne

/-- The control block after the next expected segment has been accepted. -/
def accepted (t : Tcb) (header : TcpHeader) (payload : List UInt8) : Tcb :=
  { t with
    recvBuffer := if 0 < segLen payload then t.recvBuffer ++ payload else t.recvBuffer
    rcvNxt := header.seq + (segLen payload + header.flagLen tcpSyn + header.flagLen tcpFin)
    state := if header.has tcpFin then .closeWait else t.state }

/-- A segment that occupies sequence space at `rcv_nxt` is accepted and acknowledged. -/
theorem processData_accepted {t : Tcb} {header : TcpHeader} {payload : List UInt8}
    (hocc : header.Occupies payload) (hseq : header.seq = t.rcvNxt) :
    t.processData header payload =
      (t.accepted header payload, [(t.accepted header payload).ackSegment]) := by
  have hcond : 0 < segLen payload ∨ header.flagLen tcpSyn ≠ 0 ∨ header.flagLen tcpFin ≠ 0 := by
    simpa [TcpHeader.flagLen_ne_zero, TcpHeader.Occupies] using hocc
  simp only [processData, if_pos hcond, if_pos hseq, accepted]
  by_cases hfin : header.has tcpFin = true
  · simp [hfin, (header.flagLen_ne_zero tcpFin).mpr hfin, ackSegment]
  · have hzero : ¬ header.flagLen tcpFin ≠ 0 := fun h => hfin ((header.flagLen_ne_zero _).mp h)
    simp [hfin, hzero, ackSegment]

/-- Every other segment is ignored. -/
theorem processData_ignored {t : Tcb} {header : TcpHeader} {payload : List UInt8}
    (h : ¬ (header.Occupies payload ∧ header.seq = t.rcvNxt)) :
    t.processData header payload = (t, []) := by
  have hcond : (0 < segLen payload ∨ header.flagLen tcpSyn ≠ 0 ∨ header.flagLen tcpFin ≠ 0) ↔
      header.Occupies payload := by
    simp [TcpHeader.flagLen_ne_zero, TcpHeader.Occupies]
  simp only [processData, hcond]
  split
  · rename_i hocc
    rw [if_neg fun hseq => h ⟨hocc, hseq⟩]
  · rfl

/-! ## The closing states -/

/-- The segment acknowledges everything sent, our FIN included. -/
def AcksAll (t : Tcb) (header : TcpHeader) : Prop :=
  header.has tcpAck = true ∧ header.ack = t.sndNxt

instance (t : Tcb) (header : TcpHeader) : Decidable (t.AcksAll header) :=
  inferInstanceAs (Decidable (_ ∧ _))

/-- ACK processing takes an acknowledgement of everything outstanding. -/
theorem processAck_of_acksAll {t : Tcb} {header : TcpHeader} (hall : t.AcksAll header)
    (hne : t.sndNxt ≠ t.sndUna) : t.processAck header = t.acknowledged := by
  have haccepted := (t.ack_accepted_iff header.ack).mpr ⟨hall.2, hne⟩
  rw [processAck, if_pos hall.1, if_pos haccepted]
  simp [acknowledged, hall.2]

/-- It ignores every other. -/
theorem processAck_of_not_acksAll {t : Tcb} {header : TcpHeader}
    (h : ¬ (t.AcksAll header ∧ t.sndNxt ≠ t.sndUna)) : t.processAck header = t := by
  unfold processAck
  split
  · rename_i hack
    rw [if_neg]
    intro haccepted
    obtain ⟨hall, hne⟩ := (t.ack_accepted_iff header.ack).mp haccepted
    exact h ⟨⟨hack, hall⟩, hne⟩
  · rfl

/-- After our FIN, the peer's is taken from this segment: in `FinWait1` unless an
acknowledgement of something else comes with it, in `FinWait2` if it is the next
one expected. -/
def takesFin (t : Tcb) (header : TcpHeader) : Bool :=
  header.has tcpFin &&
    match t.state with
    | .finWait1 => !header.has tcpAck || header.ack = t.sndNxt
    | .finWait2 => header.seq = t.rcvNxt
    | _ => false

@[simp] theorem state_bufferData (t : Tcb) (header : TcpHeader) (payload : List UInt8) :
    (t.bufferData header payload).state = t.state := by
  unfold bufferData
  split <;> rfl

/-- A FIN that is taken moves `rcv_nxt` behind its segment, whose payload is
dropped, and is acknowledged. -/
theorem processExistingTcb_takesFin {t : Tcb} {header : TcpHeader}
    (h : t.takesFin header = true) (payload : List UInt8) (now : Instant) :
    let r := t.processExistingTcb header payload now
    r.1.rcvNxt = header.seq + (segLen payload + 1) ∧ r.1.recvBuffer = t.recvBuffer ∧
      r.2 = [r.1.ackSegment] ∧
      (r.1.state = .timeWait ∧ (t.state = .finWait2 ∨ t.AcksAll header) ∨
        r.1.state = .closing) := by
  obtain ⟨hfin, hwhen⟩ := Bool.and_eq_true_iff.mp h
  cases hst : t.state with
  | finWait1 =>
    simp only [hst, Bool.or_eq_true, Bool.not_eq_true', decide_eq_true_eq] at hwhen
    by_cases hack : header.has tcpAck = true
    · have hall : header.ack = t.sndNxt := by simpa [hack] using hwhen
      simp [processExistingTcb, hst, processFinWait1, hack, hall, hfin, AcksAll]
    · simp [processExistingTcb, hst, processFinWait1, hack, hfin]
  | finWait2 =>
    have hseq : header.seq = t.rcvNxt := by simpa [hst] using hwhen
    simp [processExistingTcb, hst, processFinWait2, hseq, hfin]
  | _ => simp [hst] at hwhen

/-- Any other segment is at most a source of data, which is not acknowledged. -/
theorem processExistingTcb_buffers {t : Tcb} {header : TcpHeader}
    (hst : t.state = .finWait1 ∨ t.state = .finWait2) (h : t.takesFin header = false)
    (payload : List UInt8) (now : Instant) :
    let r := t.processExistingTcb header payload now
    r.1.rcvNxt = (t.bufferData header payload).rcvNxt ∧
      r.1.recvBuffer = (t.bufferData header payload).recvBuffer ∧ r.2 = [] ∧
      (r.1.state = t.state ∨ r.1.state = .finWait2 ∧ t.AcksAll header) := by
  rcases hst with hst | hst
  · simp only [takesFin, hst] at h
    simp only [processExistingTcb, hst, processFinWait1]
    by_cases hack : header.has tcpAck = true
    · rw [if_pos hack]
      by_cases hall : header.ack = t.sndNxt
      · have hfin : ¬ header.has tcpFin = true := by simpa [hack, hall] using h
        rw [if_pos hall, if_neg hfin]
        refine ⟨?_, ?_, rfl, .inr ⟨state_bufferData .., hack, hall⟩⟩
        · unfold bufferData
          split <;> rfl
        · unfold bufferData
          split <;> rfl
      · rw [if_neg hall]
        exact ⟨rfl, rfl, rfl, .inl (by simp [hst])⟩
    · have hfin : ¬ header.has tcpFin = true := by simpa [hack] using h
      rw [if_neg hack, if_neg hfin]
      exact ⟨rfl, rfl, rfl, .inl (by simp [hst])⟩
  · have hnot : ¬ (header.has tcpFin = true ∧ header.seq = t.rcvNxt) := by
      simpa [takesFin, hst] using h
    simp only [processExistingTcb, hst, processFinWait2]
    rw [if_neg hnot]
    exact ⟨rfl, rfl, rfl, .inl (by simp [hst])⟩

/-- The states that `FinWait1` and `FinWait2` are left for. -/
theorem state_processExistingTcb_finWait {t : Tcb}
    (hst : t.state = .finWait1 ∨ t.state = .finWait2) (header : TcpHeader)
    (payload : List UInt8) (now : Instant) :
    let r := t.processExistingTcb header payload now
    r.1.state = t.state ∨ r.1.state = .finWait2 ∨ r.1.state = .closing ∨
      r.1.state = .timeWait := by
  by_cases h : t.takesFin header = true
  · obtain ⟨-, -, -, hend⟩ := processExistingTcb_takesFin h payload now
    tauto
  · obtain ⟨-, -, -, hend⟩ :=
      processExistingTcb_buffers hst (Bool.not_eq_true _ ▸ h) payload now
    tauto

/-- `Established` is left for `CloseWait` only. -/
theorem state_processEstablished {t : Tcb} (hst : t.state = .established) (header : TcpHeader)
    (payload : List UInt8) :
    (t.processEstablished header payload).1.state = .established ∨
      (t.processEstablished header payload).1.state = .closeWait := by
  have hack : (t.processAck header).state = .established := by
    rcases t.processAck_cases header with heq | ⟨-, heq⟩ <;> rw [heq]
    · exact hst
    · exact hst
  rw [processEstablished]
  by_cases h : header.Occupies payload ∧ header.seq = (t.processAck header).rcvNxt
  · rw [processData_accepted h.1 h.2]
    by_cases hfin : header.has tcpFin = true
    · exact .inr (by simp [accepted, hfin])
    · exact .inl (by simp [accepted, hfin, hack])
  · rw [processData_ignored h]
    exact .inl hack

/-- A segment closes a connection at once in two cases only: any acknowledgement
in `LastAck`, and in `SynSent` any reset that is not a SYN+ACK as well. -/
theorem state_eq_closed_iff (t : Tcb) (header : TcpHeader) (payload : List UInt8)
    (now : Instant) :
    (t.processExistingTcb header payload now).1.state = .closed ↔
      t.state = .closed ∨ (t.state = .lastAck ∧ header.has tcpAck = true) ∨
        (t.state = .synSent ∧ header.has tcpRst = true ∧
          header.flags &&& (tcpSyn ||| tcpAck) ≠ tcpSyn ||| tcpAck) := by
  cases hst : t.state with
  | lastAck =>
    simp only [processExistingTcb, hst, processLastAck]
    split <;> simp_all
  | synSent =>
    simp only [processExistingTcb, hst, processSynSent]
    split
    · split <;> simp_all
    · split <;> simp_all
  | established =>
    have hopen := state_processEstablished hst header payload
    simp only [processExistingTcb, hst]
    rcases hopen with hopen | hopen <;> simp [hopen]
  | synReceived =>
    simp only [processExistingTcb, hst, processSynReceived]
    split
    · simp
    · split <;> simp [hst]
  | closeWait =>
    simp only [processExistingTcb, hst, processCloseWait]
    split <;> simp [hst]
  | closing =>
    simp only [processExistingTcb, hst, processClosing]
    split <;> simp [hst]
  | finWait1 =>
    have hopen := state_processExistingTcb_finWait (.inl hst) header payload now
    rcases hopen with hopen | hopen | hopen | hopen <;> simp [hopen, hst]
  | finWait2 =>
    have hopen := state_processExistingTcb_finWait (.inr hst) header payload now
    rcases hopen with hopen | hopen | hopen | hopen <;> simp [hopen, hst]
  | closed => simp [processExistingTcb, hst]
  | listen => simp [processExistingTcb, hst]
  | timeWait => simp [processExistingTcb, hst]

end Tcb
end PpcaNetwork.TcpStack
