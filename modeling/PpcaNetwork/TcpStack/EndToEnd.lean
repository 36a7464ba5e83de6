import PpcaNetwork.TcpStack.Outgoing

/-!
# From one application to the other

Two connections of this stack, each the peer of the other, after the handshake.  The network loses,
repeats and reorders segments; the applications send, receive and close when they like, and the
clocks run as they like.

* `Tcb.Received` — what a connection has received of the stream of its peer, in every state.
* `EndToEnd.after` — the two connections after a run.
* `EndToEnd.Sound` — the invariant: each side's history, and the segments on their way.
* `end_to_end` — **integrity**: what an application receives is a prefix of what the other's `send`
  has taken while `Established`, and all of it once the FIN has been taken.
-/

namespace PpcaNetwork.TcpStack

/-! ## What has been received -/

namespace ReceiveWindow

variable {irs : UInt32} {D returned : List UInt8} {t : Tcb} {fin : Bool} {n : Nat}

theorem isPrefix (h : ReceiveWindow irs D t returned fin n) : returned ++ t.recvBuffer <+: D := by
  rw [h.bytes_eq]
  exact List.take_prefix ..

/-- Buffering the data of a segment moves the window over it. -/
theorem bufferData (h : ReceiveWindow irs D t returned false n) (hD : D.length < 2 ^ 32 - 2)
    {header : TcpHeader} {payload : List UInt8} (hc : ConsistentSegment irs D header payload) :
    ∃ n, ReceiveWindow irs D (t.bufferData header payload) returned false n := by
  by_cases hnext : 0 < segLen payload ∧ header.seq = t.rcvNxt
  · obtain ⟨htake, hlen, -⟩ := h.next_segment hD hc hnext.2
    rw [Tcb.bufferData, if_pos hnext]
    refine ⟨n + payload.length, hlen, ?_, ?_, by rintro ⟨⟩⟩
    · show returned ++ (t.recvBuffer ++ payload) = _
      rw [← List.append_assoc, h.bytes_eq, htake]
    · show t.rcvNxt + segLen payload = _
      rw [h.rcvNxt_eq, UInt32.ofNat_add, segLen]
      simp only [Bool.false_eq_true, if_false, add_zero, add_assoc]
  · rw [Tcb.bufferData, if_neg hnext]
    exact ⟨n, h⟩

end ReceiveWindow

namespace Tcb

variable {irs : UInt32} {D returned : List UInt8} {t : Tcb}

/-- What has been returned and what is buffered are the front of the peer's stream, and as long as
more may be accepted `rcv_nxt` stands behind them. -/
def Received (irs : UInt32) (D returned : List UInt8) (t : Tcb) : Prop :=
  match t.state with
  | .established | .finWait1 | .finWait2 => ∃ n, ReceiveWindow irs D t returned false n
  | .closeWait | .lastAck => ∃ n, ReceiveWindow irs D t returned true n
  | .closing | .timeWait | .closed => returned ++ t.recvBuffer <+: D
  | .synSent | .synReceived | .listen => False

theorem Received.isPrefix (h : t.Received irs D returned) : returned ++ t.recvBuffer <+: D := by
  unfold Received at h
  split at h
  all_goals first | exact h.elim fun n hn => hn.isPrefix | exact h | exact h.elim

/-- Nothing more is accepted. -/
theorem received_of_isPrefix (h : returned ++ t.recvBuffer <+: D)
    (hst : t.state = .closing ∨ t.state = .timeWait ∨ t.state = .closed) :
    t.Received irs D returned := by
  rcases hst with hst | hst | hst <;> simpa only [Received, hst] using h

/-- It reads the state, `recv_buffer` and `rcv_nxt`. -/
theorem Received.map (h : t.Received irs D returned) {t' : Tcb} {returned' : List UInt8}
    (hst : t'.state = t.state) (hbytes : returned' ++ t'.recvBuffer = returned ++ t.recvBuffer)
    (hnxt : t'.rcvNxt = t.rcvNxt) : t'.Received irs D returned' := by
  have hwin : ∀ {fin n}, ReceiveWindow irs D t returned fin n →
      ReceiveWindow irs D t' returned' fin n :=
    fun hn => ⟨hn.le_length, hbytes.trans hn.bytes_eq, hnxt.trans hn.rcvNxt_eq, hn.fin_end⟩
  unfold Received at h ⊢
  rw [hst]
  cases hs : t.state with
  | established => exact (by simpa only [hs] using h : ∃ n, _).imp fun n hn => hwin hn
  | finWait1 => exact (by simpa only [hs] using h : ∃ n, _).imp fun n hn => hwin hn
  | finWait2 => exact (by simpa only [hs] using h : ∃ n, _).imp fun n hn => hwin hn
  | closeWait => exact (by simpa only [hs] using h : ∃ n, _).imp fun n hn => hwin hn
  | lastAck => exact (by simpa only [hs] using h : ∃ n, _).imp fun n hn => hwin hn
  | closing => exact hbytes ▸ (by simpa only [hs] using h)
  | timeWait => exact hbytes ▸ (by simpa only [hs] using h)
  | closed => exact hbytes ▸ (by simpa only [hs] using h)
  | _ => simp only [hs] at h

theorem Received.afterSending (h : t.Received irs D returned) (segs : List OutgoingSegment)
    (now : Instant) : (t.afterSending segs now).Received irs D returned := by
  obtain ⟨r, hr⟩ := exists_afterSending segs now t
  rw [hr]
  exact h.map rfl rfl rfl

theorem Received.retransmit (h : t.Received irs D returned) (now : Instant) :
    (t.retransmit now).1.Received irs D returned := by
  obtain ⟨st, r, rto, n, rfl | rfl, heq⟩ := t.exists_retransmit now
  · rw [heq]
    exact h.map rfl rfl rfl
  · rw [heq]
    exact received_of_isPrefix h.isPrefix (.inr (.inr rfl))

theorem Received.send (h : t.Received irs D returned) (data : List UInt8) :
    (t.send data).1.Received irs D returned := by
  unfold Tcb.send
  split
  · exact h
  · exact h.map rfl rfl rfl

theorem Received.close (h : t.Received irs D returned) (now : Instant) :
    (t.close now).1.Received irs D returned := by
  have hprefix := h.isPrefix
  unfold Tcb.close
  cases hst : t.state with
  | established =>
    obtain ⟨n, hn⟩ := by simpa only [Received, hst] using h
    exact ⟨n, hn.congr rfl rfl⟩
  | closeWait =>
    obtain ⟨n, hn⟩ := by simpa only [Received, hst] using h
    exact ⟨n, hn.congr rfl rfl⟩
  | closed => exact h
  | timeWait => exact h
  | listen => exact h
  | _ => exact received_of_isPrefix hprefix (.inr (.inr rfl))

theorem Received.processEstablished (h : t.Received irs D returned) (hst : t.state = .established)
    (hD : D.length < 2 ^ 32 - 2) {header : TcpHeader} {payload : List UInt8}
    (hc : ConsistentSegment irs D header payload) :
    (t.processEstablished header payload).1.Received irs D returned := by
  have hack : (t.processAck header).state = .established ∧
      (t.processAck header).Received irs D returned := by
    rcases t.processAck_cases header with heq | ⟨-, heq⟩ <;> rw [heq]
    · exact ⟨hst, h⟩
    · exact ⟨hst, h.map rfl rfl rfl⟩
  obtain ⟨hst', hreceived⟩ := hack
  obtain ⟨n, hn⟩ := by simpa only [Received, hst'] using hreceived
  unfold Tcb.processEstablished
  by_cases hocc : header.Occupies payload ∧ header.seq = (t.processAck header).rcvNxt
  · have haccept := hn.accept hD hc hocc.2
    rw [processData_accepted hocc.1 hocc.2]
    cases hfin : header.has tcpFin with
    | true =>
      have hstate : ((t.processAck header).accepted header payload).state = .closeWait := by
        simp [accepted, hfin]
      rw [Received, hstate]
      exact ⟨_, hfin ▸ haccept⟩
    | false =>
      have hstate : ((t.processAck header).accepted header payload).state = .established := by
        simp [accepted, hfin, hst']
      rw [Received, hstate]
      exact ⟨_, hfin ▸ haccept⟩
  · rw [processData_ignored hocc]
    exact hreceived

/-- In `FinWait1` and `FinWait2` data is still buffered, until the peer's FIN is taken. -/
theorem Received.finWait (h : t.Received irs D returned)
    (hst : t.state = .finWait1 ∨ t.state = .finWait2) (hD : D.length < 2 ^ 32 - 2)
    {header : TcpHeader} {payload : List UInt8} (hc : ConsistentSegment irs D header payload)
    (now : Instant) : (t.processExistingTcb header payload now).1.Received irs D returned := by
  have hprefix := h.isPrefix
  obtain ⟨n, hn⟩ : ∃ n, ReceiveWindow irs D t returned false n := by
    rcases hst with hst | hst <;> simpa only [Received, hst] using h
  cases htakes : t.takesFin header with
  | true =>
    obtain ⟨-, hbuffer, -, hend⟩ := processExistingTcb_takesFin htakes payload now
    refine received_of_isPrefix (hbuffer ▸ hprefix) ?_
    rcases hend with ⟨hwait, -⟩ | hclosing
    · exact .inr (.inl hwait)
    · exact .inl hclosing
  | false =>
    obtain ⟨hnxt, hbuffer, -, hend⟩ := processExistingTcb_buffers hst htakes payload now
    obtain ⟨m, hm⟩ := hn.bufferData hD hc
    have hmoved := hm.congr hbuffer hnxt
    have hstate : (t.processExistingTcb header payload now).1.state = .finWait1 ∨
        (t.processExistingTcb header payload now).1.state = .finWait2 := by
      rcases hend with hsame | ⟨hwait, -⟩
      · rw [hsame]
        exact hst
      · exact .inr hwait
    rcases hstate with hstate | hstate
    · rw [Received, hstate]
      exact ⟨m, hmoved⟩
    · rw [Received, hstate]
      exact ⟨m, hmoved⟩

/-- A segment that is a piece of the stream. -/
theorem Received.segment (h : t.Received irs D returned) (hD : D.length < 2 ^ 32 - 2)
    {header : TcpHeader} {payload : List UInt8} (hc : ConsistentSegment irs D header payload)
    (now : Instant) : (t.processExistingTcb header payload now).1.Received irs D returned := by
  have hprefix := h.isPrefix
  cases hst : t.state with
  | established =>
    simp only [processExistingTcb, hst]
    exact h.processEstablished hst hD hc
  | finWait1 => exact h.finWait (.inl hst) hD hc now
  | finWait2 => exact h.finWait (.inr hst) hD hc now
  | closeWait =>
    obtain ⟨n, hn⟩ := by simpa only [Received, hst] using h
    simp only [processExistingTcb, hst, processCloseWait]
    rw [if_neg]
    · exact h
    · rintro ⟨hlen, hseq⟩
      have hnil := (hn.next_segment hD hc hseq).2.2.2.1 rfl
      rw [hnil] at hlen
      exact absurd hlen (by decide)
  | lastAck =>
    simp only [processExistingTcb, hst, processLastAck]
    split_ifs
    · exact received_of_isPrefix hprefix (.inr (.inr rfl))
    · exact h
  | closing =>
    simp only [processExistingTcb, hst, processClosing]
    split_ifs
    · exact received_of_isPrefix hprefix (.inr (.inl rfl))
    · exact h
  | timeWait =>
    simp only [processExistingTcb, hst]
    exact h
  | closed =>
    simp only [processExistingTcb, hst]
    exact h
  | _ => simp only [Received, hst] at h

end Tcb

/-- A connection that is gone has returned the front of the stream as well. -/
def Conn.Received (irs : UInt32) (D : List UInt8) (c : Conn) : Prop :=
  c.returned <+: D ∧ ∀ t, c.tcb = some t → t.Received irs D c.returned

theorem Conn.received_step {irs : UInt32} {D : List UInt8} {c : Conn} (h : c.Received irs D)
    (hD : D.length < 2 ^ 32 - 2) {e : ConnEvent}
    (he : ∀ header payload now, e = .segment header payload now →
      ConsistentSegment irs D header payload) : (c.step e).Received irs D := by
  obtain ⟨hreturned, htcb⟩ := h
  have hnext : ∀ t, c.tcb = some t → (t.onEvent e).Received irs D (c.record t e).returned := by
    intro t ht
    have hreceived := htcb t ht
    cases e with
    | send data now => exact (hreceived.send data).afterSending _ _
    | recv =>
      refine hreceived.map rfl ?_ rfl
      show (c.returned ++ t.recvBuffer) ++ [] = _
      rw [List.append_nil]
    | close now => exact (hreceived.close now).afterSending _ _
    | segment header payload now =>
      exact (hreceived.segment hD (he header payload now rfl) now).afterSending _ _
    | poll now => exact hreceived.retransmit now
  constructor
  · cases hc : c.tcb with
    | none => simpa only [Conn.step, hc] using hreturned
    | some t =>
      simp only [Conn.step, hc]
      exact (List.prefix_append ..).trans (hnext t hc).isPrefix
  · intro t' ht'
    obtain ⟨t, hc, rfl, hstep⟩ := exists_tcb_of_step ht'
    rw [hstep]
    exact hnext t hc

/-! ## The two sides -/

namespace EndToEnd

open Closing (Wire onWire)

/-- What an application does, and the timer. -/
inductive Call where
  | send (data : List UInt8) (now : Instant)
  | recv
  | close (now : Instant)
  | poll (now : Instant)
  deriving DecidableEq, Repr

/-- The call as the connection sees it. -/
def Call.event : Call → ConnEvent
  | .send data now => .send data now
  | .recv => .recv
  | .close now => .close now
  | .poll now => .poll now

/-- What happens to the two connections. -/
abbrev Event := PairEvent Instant Call

/-- The connections right after the handshake, as far as both have heard of it. -/
structure Handshaken (tcb : Side → Tcb) : Prop where
  established : ∀ side, (tcb side).state = .established
  unsent : ∀ side, (tcb side).sndUna = (tcb side).iss + 1 ∧ (tcb side).sndNxt = (tcb side).iss + 1
  synced : ∀ side, (tcb side).rcvNxt = (tcb side.other).iss + 1
  empty : ∀ side, (tcb side).sendBuffer = [] ∧ (tcb side).recvBuffer = []

/-- Nothing has been sent yet. -/
def start (tcb : Side → Tcb) : Pair Conn Wire where
  state side := ⟨some (tcb side), [], 0, [], false⟩
  inFlight _ := []

section Ports

-- the local port of each side
variable (port : Side → UInt16)

/-- A segment arrives: at the connection, or, when that is gone, at a stack that answers with a
reset. -/
def receive (side : Side) (now : Instant) (c : Conn) (m : Wire) : Conn × List Wire :=
  (c.step (.segment m.1 m.2 now),
    onWire port side (match c.tcb with
      | some _ => c.emits (.segment m.1 m.2 now)
      | none => if m.1.has tcpRst then [] else [TcpManager.strayReset m.1 m.2]))

/-- The application calls, or the timer runs out. -/
def act (side : Side) (c : Conn) (call : Call) : Conn × List Wire :=
  (c.step call.event, onWire port side (c.emits call.event))

/-- The two sides after `es`. -/
def after (tcb : Side → Tcb) (es : List Event) : Pair Conn Wire :=
  run (Pair.step (receive port) (act port)) (start tcb) es

/-- What a timer resends is the front of what is unacknowledged. -/
def ResendsFront (p : Pair Conn Wire) : Event → Prop
  | .deliver .. => True
  | .act side call => (p.state side).ResendsFront call.event

end Ports

/-- Both connections go on. -/
def LeadsTo (p q : Pair Conn Wire) : Prop := ∀ side, (p.state side).LeadsTo (q.state side)

theorem leadsTo_put {p : Pair Conn Wire} {side : Side} {r : Conn × List Wire}
    (h : (p.state side).LeadsTo r.1) : LeadsTo p (p.put side r) := by
  intro side'
  by_cases hside : side' = side
  · subst hside
    simpa [Pair.put] using h
  · simpa [Pair.put, Function.update_of_ne hside] using Conn.LeadsTo.refl _

theorem leadsTo_step (port : Side → UInt16) (p : Pair Conn Wire) (e : Event) :
    LeadsTo p (Pair.step (receive port) (act port) p e) := by
  cases e with
  | deliver side i again now =>
    simp only [Pair.step]
    cases (p.inFlight side)[i]? with
    | none => exact fun _ => Conn.LeadsTo.refl _
    | some m =>
      cases again with
      | true => exact leadsTo_put (Conn.leadsTo_step _ _)
      | false => exact leadsTo_put (p := p.take side i) (Conn.leadsTo_step _ _)
  | act side call => exact leadsTo_put (Conn.leadsTo_step _ _)

section Invariant

variable (iss : Side → UInt32) (D : Side → List UInt8)

/-- Each connection has its history, has received the front of the other's stream `D`, and all
that is on its way to it are pieces of that. -/
def Sound (p : Pair Conn Wire) : Prop :=
  Pair.Holds (fun side c => c.Outgoing (iss side) ∧ c.Received (iss side.other) (D side.other))
    (fun side m => ConsistentSegment (iss side.other) (D side.other) m.1 m.2) p

variable {iss D} {port : Side → UInt16}

theorem consistent_onWire {side : Side} {segs : List OutgoingSegment}
    (h : ∀ seg ∈ segs, ConsistentSegment (iss side) (D side) (seg.header (port side)) seg.payload) :
    ∀ m ∈ onWire port side segs,
      ConsistentSegment (iss side.other.other) (D side.other.other) m.1 m.2 := by
  intro m hm
  obtain ⟨seg, hseg, rfl⟩ := List.mem_map.mp hm
  rw [Side.other_other]
  exact h seg hseg

/-- A reset from a stack without the connection takes up no sequence number. -/
theorem bare_strayReset (header : TcpHeader) (payload : List UInt8) :
    (TcpManager.strayReset header payload).Bare :=
  ⟨rfl, (by decide : (tcpRst ||| tcpAck) &&& tcpSyn = 0),
    (by decide : (tcpRst ||| tcpAck) &&& tcpFin = 0)⟩

/-- **The step**, on the way to two final states. -/
theorem Sound.step {p q : Pair Conn Wire} (hD : ∀ side, D side = (q.state side).sent)
    (hlen : ∀ side, (D side).length < 2 ^ 32 - 2) (h : Sound iss D p) {e : Event}
    (he : ResendsFront p e) (hq : LeadsTo (Pair.step (receive port) (act port) p e) q) :
    Sound iss D (Pair.step (receive port) (act port) p e) := by
  have hlen' : ∀ side, (q.state side).sent.length < 2 ^ 32 := by
    intro side
    have hbound := hlen side
    rw [hD side] at hbound
    omega
  cases e with
  | deliver side i again now =>
    simp only [Pair.step] at hq ⊢
    cases hm : (p.inFlight side)[i]? with
    | none => exact h
    | some m =>
      obtain ⟨⟨hout, hreceived⟩, hwire⟩ := h side
      have hconsistent := hwire m (List.mem_of_getElem? hm)
      have hstate : ((p.state side).step (.segment m.1 m.2 now)).Outgoing (iss side) ∧
          ((p.state side).step (.segment m.1 m.2 now)).Received (iss side.other)
            (D side.other) := by
        refine ⟨Conn.outgoing_step hout _, Conn.received_step hreceived (hlen side.other) ?_⟩
        rintro _ _ _ ⟨⟩
        exact hconsistent
      have hleads : ((p.state side).step (.segment m.1 m.2 now)).LeadsTo (q.state side) := by
        have hside := hq side
        rw [hm] at hside
        cases again <;> simpa [Pair.put, Pair.take, receive] using hside
      have hsent : ∀ m' ∈ (receive port side now (p.state side) m).2,
          ConsistentSegment (iss side.other.other) (D side.other.other) m'.1 m'.2 := by
        refine consistent_onWire fun seg hseg => ?_
        cases htcb : (p.state side).tcb with
        | none =>
          rw [htcb] at hseg
          simp only at hseg
          split_ifs at hseg
          · cases hseg
          · rw [List.mem_singleton.mp hseg]
            exact (bare_strayReset ..).consistent
        | some t =>
          rw [htcb] at hseg
          rw [hD side]
          exact (consistent_iff hout hleads (hlen' side) (port side)).mpr trivial seg hseg
      cases again with
      | true => exact Pair.Holds.put h hstate hsent
      | false => exact Pair.Holds.put (Pair.Holds.take h side i) hstate hsent
  | act side call =>
    obtain ⟨⟨hout, hreceived⟩, -⟩ := h side
    have hleads : ((p.state side).step call.event).LeadsTo (q.state side) := by
      simpa [Pair.step, Pair.put, act] using hq side
    refine Pair.Holds.put h ⟨Conn.outgoing_step hout _, ?_⟩ (consistent_onWire fun seg hseg => ?_)
    · refine Conn.received_step hreceived (hlen side.other) fun header payload now hcall => ?_
      cases call <;> cases hcall
    · rw [hD side]
      exact (consistent_iff hout hleads (hlen' side) (port side)).mpr he seg hseg

theorem sound_start {tcb : Side → Tcb} (h : Handshaken tcb) :
    Sound (fun side => (tcb side).iss) D (start tcb) := by
  intro side
  have hst := h.established side
  obtain ⟨huna, hnxt⟩ := h.unsent side
  obtain ⟨hsend, hrecv⟩ := h.empty side
  refine ⟨⟨?_, List.nil_prefix, ?_⟩, by rintro m ⟨⟩⟩
  · rintro t ⟨⟩
    refine ⟨rfl, ?_, .inl (.inr (.inl hst)), fun hawaits => ?_⟩
    · simp only [Tcb.SendInv, hst, start]
      exact ⟨le_refl _, by simpa using huna, by simpa using hnxt, by simpa using hsend⟩
    · simp [Tcb.AwaitsFinAck, hst] at hawaits
  · rintro t ⟨⟩
    simp only [Tcb.Received, hst, start]
    exact ⟨0, Nat.zero_le _, by simpa using hrecv, by simpa using h.synced side,
      by rintro ⟨⟩⟩

end Invariant

end EndToEnd

open EndToEnd in
/-- **Integrity.**  In every run of two connections of the stack after their handshake, whatever
the network does with the segments, the applications with the connections and the clocks, as long
as what the timers resend is the front of what is unacknowledged: what an application has received
is a prefix of what the other's `send` has taken while `Established`, and once the FIN is taken it
is, with what is still buffered, all of it. -/
theorem end_to_end (port : Side → UInt16) (tcb : Side → Tcb) (h : Handshaken tcb)
    (es : List EndToEnd.Event)
    (hlen : ∀ side, ((after port tcb es).state side).sent.length < 2 ^ 32 - 2)
    (hes : Run.Guarded (Pair.step (receive port) (act port)) ResendsFront (start tcb) es)
    (side : Side) :
    ((after port tcb es).state side).returned <+: ((after port tcb es).state side.other).sent ∧
      ∀ t, ((after port tcb es).state side).tcb = some t →
        t.state = .closeWait ∨ t.state = .lastAck →
        ((after port tcb es).state side).returned ++ t.recvBuffer =
          ((after port tcb es).state side.other).sent := by
  have hleads := Run.guarded_trans (R := EndToEnd.LeadsTo) (fun p side => Conn.LeadsTo.refl _)
    (fun p q r h h' side => (h side).trans (h' side)) (leadsTo_step port) (start tcb) es
  have hsound : Sound (fun side => (tcb side).iss)
      (fun side => ((after port tcb es).state side).sent) (after port tcb es) :=
    Run.invariant_of_guarded (Sound _ _)
      (fun p e hp he => hp.step (fun _ => rfl) hlen he.1 he.2) (sound_start h)
      (Run.guarded_and.mpr ⟨hes, hleads⟩)
  obtain ⟨⟨-, hreturned, hreceived⟩, -⟩ := hsound side
  refine ⟨hreturned, fun t ht hst => ?_⟩
  obtain ⟨n, hn⟩ : ∃ n, ReceiveWindow _ ((after port tcb es).state side.other).sent t
      ((after port tcb es).state side).returned true n := by
    have htcb := hreceived t ht
    rcases hst with hst | hst <;> simpa only [Tcb.Received, hst] using htcb
  rw [hn.bytes_eq, hn.fin_end rfl]
  exact List.take_length ..

/-- The demo connection and its peer's: two bytes are sent, sent again, and followed by the FIN; the
second copy overtakes the first, and the FIN arrives twice. -/
def demoExchange : List EndToEnd.Event :=
  [.act .left (.send [104, 105] 0), .act .left (.poll 1000000000), .act .left (.close 1000000000),
    .deliver .right 1 true 0, .deliver .right 0 false 0, .act .right .recv,
    .deliver .right 1 true 0, .deliver .right 1 false 0]

theorem demo_end_to_end :
    let p := EndToEnd.after demoPorts demoMirrored demoExchange
    (p.state .right).returned = [104, 105] ∧
      (p.state .right).returned <+: (p.state .left).sent ∧
      ∀ t, (p.state .right).tcb = some t → t.state = .closeWait ∨ t.state = .lastAck →
        (p.state .right).returned ++ t.recvBuffer = (p.state .left).sent := by
  intro p
  refine ⟨by decide, end_to_end demoPorts demoMirrored ⟨?_, ?_, ?_, ?_⟩ demoExchange ?_
    ⟨trivial, ?_, trivial, trivial, trivial, trivial, trivial, trivial, trivial⟩ .right⟩
  · intro side
    cases side <;> rfl
  · intro side
    cases side <;> exact ⟨rfl, rfl⟩
  · intro side
    cases side <;> rfl
  · intro side
    cases side <;> exact ⟨rfl, rfl⟩
  · intro side
    cases side <;> decide
  · rintro t ⟨⟩ -
    exact List.prefix_refl _

end PpcaNetwork.TcpStack
