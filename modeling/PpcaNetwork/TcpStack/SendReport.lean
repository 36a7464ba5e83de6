import PpcaNetwork.TcpStack.PacketOrder

/-!
# What `send` reports

`TcpStack::send` returns the length of the data, whatever `socket::send` has made of them.
`socket::send` takes the data of an established connection and drops all other.

* `Stack.sendCall` — `send` with what it returns.
* `Tcb.Takes` — a number of bytes has been taken and has left in segments.
* `send_reports_iff` — when as many bytes have been taken as are reported.
-/

namespace PpcaNetwork.TcpStack

/-- The bytes have been taken: they are at the end of the send buffer, the sequence numbers
are beyond them, and the packets carry them from the old `snd_nxt` on. -/
structure Tcb.Takes (t t' : Tcb) (bytes : List UInt8) (packets : List TcpPacket) : Prop where
  sendBuffer : t'.sendBuffer = t.sendBuffer ++ bytes
  sndNxt : t'.sndNxt = t.sndNxt + segLen bytes
  laidOut : LaidOut t.sndNxt bytes (packets.map fun p => (p.segment.seq, p.segment.payload))

namespace Stack

/-- `send`, with the number that it returns. -/
def sendCall (s : Stack) (key : ConnKey) (data : List UInt8) : Stack × Nat :=
  let len := data.length
  (s.send key data, len)

/-- The call reports what was accepted: a connection has taken as many of the first bytes as
are reported, in packets that were handed to the link, and none are reported when there is
no connection. -/
def Reports (s : Stack) (key : ConnKey) (data : List UInt8) : Prop :=
  let (s', n) := s.sendCall key data
  n ≤ data.length ∧ ∃ packets,
    s'.toLink = run Link.step s.toLink (packetEvents s.ourIp packets) ∧
    match s.tcp.get key with
    | none => n = 0 ∧ s'.tcp.get key = none ∧ packets = []
    | some t => ∃ t', s'.tcp.get key = some t' ∧ t.Takes t' (data.take n) packets

/-- What the call leaves under its key. -/
theorem get_send (s : Stack) (key : ConnKey) (data : List UInt8) :
    (s.send key data).tcp.get key = (s.tcp.get key).map (·.onEvent (.send data s.now)) := by
  have hcore : (s.send key data).core = s.core.step (.send key data) := sendSegmentsWithKey_core ..
  have hget := TcpCore.get_step key s.core (.send key data)
  rw [← hcore, get_core, get_core, TcpCore.observe, if_pos rfl] at hget
  exact hget

/-- A connection that is not there, or not established, sends nothing. -/
theorem sendPackets_of_refused {s : Stack} {key : ConnKey}
    (h : ∀ t, s.tcp.get key = some t → t.state ≠ .established) (data : List UInt8) :
    s.core.sendPackets key data = [] := by
  have hsegs : (s.tcp.update key (·.send data) []).2 = [] := by
    rw [TcpManager.update_snd]
    cases ht : s.tcp.get key with
    | none => rfl
    | some t => rw [Option.elim_some, Tcb.send, if_pos (h t ht)]
  show TcpCore.packets _ _ _ (s.tcp.update key (·.send data) []).2 = []
  rw [hsegs]
  rfl

end Stack

namespace Tcb

variable {t : Tcb}

theorem onEvent_send_refused (h : t.state ≠ .established) (data : List UInt8) (now : Instant) :
    t.onEvent (.send data now) = t := by
  rw [onEvent, send, if_pos h]
  rfl

/-- An established connection takes all of the data. -/
theorem takes_send (h : t.state = .established) (key : ConnKey) (data : List UInt8)
    (now : Instant) :
    t.Takes (t.onEvent (.send data now)) data [TcpCore.dataPacket key t data] := by
  obtain ⟨r, hr⟩ := exists_afterSending (t.send data).2 now (t.send data).1
  have hevent : t.onEvent (.send data now) =
      { (t.send data).1 with retransmitAt := r } := hr
  rw [hevent, send, if_neg (not_not.mpr h)]
  exact ⟨rfl, rfl, laidOut_singleton t.sndNxt data⟩

/-- What a connection that has stayed as it was has taken. -/
theorem eq_nil_of_takes_self {bytes : List UInt8} {packets : List TcpPacket}
    (h : t.Takes t bytes packets) : bytes = [] := by
  simpa using h.sendBuffer

end Tcb

/-- Data are reported as taken only by an established connection. -/
theorem Stack.Reports.established {s : Stack} {key : ConnKey} {data : List UInt8}
    (h : s.Reports key data) (hne : data ≠ []) :
    ∃ t, s.tcp.get key = some t ∧ t.state = .established := by
  obtain ⟨-, packets, -, htaken⟩ := h
  have hget := s.get_send key data
  cases ht : s.tcp.get key with
  | none =>
    rw [ht] at htaken
    exact absurd (List.length_eq_zero_iff.mp htaken.1) hne
  | some t =>
    rw [ht] at htaken hget
    obtain ⟨t', ht', htakes⟩ := htaken
    by_contra hnot
    have hst : t.state ≠ .established := fun hst => hnot ⟨t, rfl, hst⟩
    -- the control block has stayed as it was
    rw [ht', Option.map_some, Tcb.onEvent_send_refused hst] at hget
    rw [Option.some.inj hget, List.take_length] at htakes
    exact hne (Tcb.eq_nil_of_takes_self htakes)

/-- **When `send` reports what was accepted.**  For every stack, whatever has happened to it
before, every socket and all data: exactly if there are no data or the connection is
established. -/
theorem send_reports_iff (s : Stack) (key : ConnKey) (data : List UInt8) :
    s.Reports key data ↔
      data = [] ∨ ∃ t, s.tcp.get key = some t ∧ t.state = .established := by
  constructor
  · intro h
    by_cases hne : data = []
    · exact .inl hne
    · exact .inr (h.established hne)
  · intro h
    refine ⟨le_refl _, s.core.sendPackets key data, s.link_step (.send key data), ?_⟩
    rw [s.get_send, List.take_length]
    by_cases hest : ∃ t, s.tcp.get key = some t ∧ t.state = .established
    · obtain ⟨t, ht, hst⟩ := hest
      rw [ht, TcpCore.sendPackets_established (c := s.core) ht hst]
      exact ⟨_, rfl, Tcb.takes_send hst key data s.now⟩
    · have hrefused : ∀ t, s.tcp.get key = some t → t.state ≠ .established :=
        fun t ht hst => hest ⟨t, ht, hst⟩
      obtain rfl : data = [] := h.resolve_right hest
      rw [Stack.sendPackets_of_refused hrefused]
      cases ht : s.tcp.get key with
      | none => exact ⟨rfl, rfl, rfl⟩
      | some t =>
        refine ⟨t, ?_, (List.append_nil _).symm, (add_zero _).symm, rfl⟩
        rw [Option.map_some, Tcb.onEvent_send_refused (hrefused t ht)]

/-- **Data reported and lost.**  An application that does not wait for the handshake is told
that its two bytes were taken.  The connection is as it was before, and nothing was written. -/
theorem demo_send_dropped :
    let s := run Stack.step demoFullStack [.connect demoKey.remoteIp demoKey.remotePort 1000]
    (s.sendCall demoKey [104, 105]).2 = 2 ∧
      (s.sendCall demoKey [104, 105]).1.tcp.get demoKey = s.tcp.get demoKey ∧
      (s.sendCall demoKey [104, 105]).1.trace = s.trace ∧
      ¬ s.Reports demoKey [104, 105] := by
  intro s
  have hstate : (s.tcp.get demoKey).map (·.state) = some .synSent := rfl
  have hrefused : ∀ t, s.tcp.get demoKey = some t → t.state ≠ .established := by
    intro t ht
    rw [ht, Option.map_some, Option.some.injEq] at hstate
    rw [hstate]
    decide
  refine ⟨rfl, ?_, ?_, ?_⟩
  · show (s.send demoKey [104, 105]).tcp.get demoKey = _
    rw [s.get_send]
    cases ht : s.tcp.get demoKey with
    | none => rfl
    | some t => rw [Option.map_some, Tcb.onEvent_send_refused (hrefused t ht)]
  · have hlink : (s.send demoKey [104, 105]).toLink = _ := s.link_step (.send demoKey [104, 105])
    simp only [Stack.linkEvents, Stack.sendPackets_of_refused hrefused] at hlink
    exact congrArg Link.trace hlink
  · intro hreports
    obtain ⟨t, ht, hst⟩ := hreports.established (by decide)
    exact hrefused t ht hst

end PpcaNetwork.TcpStack
