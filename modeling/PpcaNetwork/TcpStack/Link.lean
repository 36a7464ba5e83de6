import PpcaNetwork.Lib.Run
import PpcaNetwork.TcpStack.Arp

/-!
# The link below IP

The part of `TcpStack` that gets packets onto the TAP device: the ARP cache, and what
`send_frame`, `arp_tick` and `handle_arp` of `TCP-stack/src/stack.rs` do with it.  What is
done is written down in a trace, which nothing reads.

* `Link` — the fields of `TcpStack` it works on.
* `Link.transmit` — `send_frame` after `record_sent`.
* `Link.step` — everything that happens to the link, one event at a time.

What `write_frame` returns is ignored by the source, so a frame that is passed to it counts
as written.
-/

namespace PpcaNetwork.TcpStack

/-- The type of a frame with an ARP packet. -/
def ethTypeArp : UInt16 := 0x0806

/-- The hardware address of everyone. -/
def broadcastMac : MacAddr := ⟨0xFF, 0xFF, 0xFF, 0xFF, 0xFF, 0xFF⟩

/-- Something the stack does. -/
inductive Action where
  /-- `send_frame` is called with a packet for an address. -/
  | handed (ip : Ipv4Addr) (packet : List UInt8)
  /-- `write_frame` is called. -/
  | wrote (frame : List UInt8)
  /-- The packets for an address are taken out of `pending`, because ARP has replied. -/
  | resolved (ip : Ipv4Addr)
  /-- `tick` has dropped the packets for an address. -/
  | timedOut (ip : Ipv4Addr) (packets : List (List UInt8))
  deriving DecidableEq, Repr

/-- The fields of `TcpStack` that are not TCP's own. -/
structure Link where
  arp : ArpCache
  ourIp : Ipv4Addr
  ourMac : MacAddr
  /-- The time of the last `poll`. -/
  now : Instant
  clock : Clock
  /-- What has been done so far, and at which `now`. -/
  trace : List (Instant × Action)

namespace Link

/-- An action is written down. -/
def note (l : Link) (action : Action) : Link := { l with trace := l.trace ++ [(l.now, action)] }

/-- `tap.write_frame`. -/
def writeFrame (l : Link) (frame : List UInt8) : Link := l.note (.wrote frame)

/-- A packet in a frame to `dstMac`. -/
def ipv4Frame (l : Link) (dstMac : MacAddr) (packet : List UInt8) : List UInt8 :=
  buildFrame dstMac l.ourMac ethTypeIpv4 packet

/-- The frame that asks everyone for the address of `ip`. -/
def requestFrame (l : Link) (ip : Ipv4Addr) : List UInt8 :=
  buildFrame broadcastMac l.ourMac ethTypeArp (buildArpRequest l.ourMac l.ourIp ip)

/-- Ask for the address of `ip`, and record that. -/
def request (l : Link) (ip : Ipv4Addr) : Link :=
  let l := l.writeFrame (l.requestFrame ip)
  { l with arp := l.arp.recordRequest ip l.now }

/-- `arp.learn`. -/
def learn (l : Link) (ip : Ipv4Addr) (mac : MacAddr) : Link :=
  let (arp, clock) := l.arp.learn ip mac l.clock
  { l with arp, clock }

/-- `send_frame` when the address is not known: queue the packet, and ask for the address
if it is the first. -/
def enqueue (l : Link) (dstIp : Ipv4Addr) (ipPacket : List UInt8) : Link :=
  let (arp, isNew) := l.arp.queuePacket dstIp ipPacket l.now
  let l := { l with arp }
  if isNew then l.request dstIp else l

/-- `send_frame`, but for `record_sent`. -/
def transmit (l : Link) (dstIp : Ipv4Addr) (ipPacket : List UInt8) : Link :=
  let l := l.note (.handed dstIp ipPacket)
  let (found, clock) := l.arp.lookup dstIp l.clock
  let l := { l with clock }
  match found with
  | some dstMac => l.writeFrame (l.ipv4Frame dstMac ipPacket)
  | none => l.enqueue dstIp ipPacket

/-- The packets that wait for the address of `ip`. -/
def waiting (l : Link) (ip : Ipv4Addr) : List (List UInt8) :=
  ((l.arp.pending.lookup ip).map (·.packets)).getD []

/-- `arp_tick`. -/
def arpTick (l : Link) : Link :=
  let (arp, result) := l.arp.tick l.now
  let dropped := result.timedOutIps.map fun ip => (ip, l.waiting ip)
  let l := result.retryIps.foldl request { l with arp }
  dropped.foldl (fun l d => l.note (.timedOut d.1 d.2)) l

/-- The beginning of `poll`: set the time, then `arp_tick`. -/
def tick (l : Link) : Link :=
  let (now, clock) := l.clock.read
  ({ l with now, clock } : Link).arpTick

/-- Write the packets that waited for `mac`, in their order. -/
def sendQueued (l : Link) (mac : MacAddr) (queued : List (List UInt8)) : Link :=
  queued.foldl (fun l packet => l.writeFrame (l.ipv4Frame mac packet)) l

/-- `arp.insert`, and the packets that it returns. -/
def resolve (l : Link) (ip : Ipv4Addr) (mac : MacAddr) : Link :=
  let (arp, queued, clock) := l.arp.insert ip mac l.clock
  (({ l with arp, clock } : Link).note (.resolved ip)).sendQueued mac queued

/-- `handle_arp`. -/
def handleArp (l : Link) (payload : List UInt8) : Link :=
  match parseArp payload with
  | none => l
  | some pkt =>
    let l := l.learn pkt.spa pkt.sha
    if pkt.oper = arpOpRequest ∧ pkt.tpa = l.ourIp then
      l.writeFrame (buildFrame pkt.sha l.ourMac ethTypeArp
        (buildArpReply l.ourMac l.ourIp pkt.sha pkt.spa))
    else if pkt.oper = arpOpReply then
      l.resolve pkt.spa pkt.sha
    else l

/-- Something that happens to the link. -/
inductive Event where
  | tick
  | transmit (dstIp : Ipv4Addr) (ipPacket : List UInt8)
  | learn (ip : Ipv4Addr) (mac : MacAddr)
  /-- A frame with ARP's type arrives. -/
  | arp (payload : List UInt8)
  deriving DecidableEq, Repr

/-- One event of the link. -/
def step (l : Link) : Event → Link
  | .tick => l.tick
  | .transmit dstIp ipPacket => l.transmit dstIp ipPacket
  | .learn ip mac => l.learn ip mac
  | .arp payload => l.handleArp payload

/-! ## What does not change -/

@[simp] theorem note_arp (l : Link) (action : Action) : (l.note action).arp = l.arp := rfl

@[simp] theorem note_clock (l : Link) (action : Action) : (l.note action).clock = l.clock := rfl

@[simp] theorem note_now (l : Link) (action : Action) : (l.note action).now = l.now := rfl

/-- What only `poll` changes, and of that only the time. -/
def settings (l : Link) : Ipv4Addr × MacAddr × Instant := (l.ourIp, l.ourMac, l.now)

theorem foldl_settings {α : Type} {g : Link → α → Link}
    (hg : ∀ l a, (g l a).settings = l.settings) (xs : List α) (l : Link) :
    (xs.foldl g l).settings = l.settings := by
  induction xs generalizing l with
  | nil => rfl
  | cons x xs ih => exact (ih (g l x)).trans (hg l x)

@[simp] theorem note_settings (l : Link) (action : Action) :
    (l.note action).settings = l.settings := rfl

@[simp] theorem writeFrame_settings (l : Link) (frame : List UInt8) :
    (l.writeFrame frame).settings = l.settings := rfl

@[simp] theorem request_settings (l : Link) (ip : Ipv4Addr) :
    (l.request ip).settings = l.settings := rfl

@[simp] theorem learn_settings (l : Link) (ip : Ipv4Addr) (mac : MacAddr) :
    (l.learn ip mac).settings = l.settings := rfl

/-- The link once `send_frame` has looked for the address. -/
def lookedUp (l : Link) (dstIp : Ipv4Addr) (ipPacket : List UInt8) : Link :=
  { l.note (.handed dstIp ipPacket) with clock := (l.arp.lookup dstIp l.clock).2 }

theorem transmit_of_some {l : Link} {dstIp : Ipv4Addr} {mac : MacAddr}
    (h : (l.arp.lookup dstIp l.clock).1 = some mac) (ipPacket : List UInt8) :
    l.transmit dstIp ipPacket =
      (l.lookedUp dstIp ipPacket).writeFrame (l.ipv4Frame mac ipPacket) := by
  simp only [transmit, note_arp, note_clock, h]
  rfl

theorem transmit_of_none {l : Link} {dstIp : Ipv4Addr}
    (h : (l.arp.lookup dstIp l.clock).1 = none) (ipPacket : List UInt8) :
    l.transmit dstIp ipPacket = (l.lookedUp dstIp ipPacket).enqueue dstIp ipPacket := by
  simp only [transmit, note_arp, note_clock, h]
  rfl

@[simp] theorem enqueue_settings (l : Link) (dstIp : Ipv4Addr) (ipPacket : List UInt8) :
    (l.enqueue dstIp ipPacket).settings = l.settings := by
  simp only [enqueue]
  split <;> rfl

@[simp] theorem transmit_settings (l : Link) (dstIp : Ipv4Addr) (ipPacket : List UInt8) :
    (l.transmit dstIp ipPacket).settings = l.settings := by
  simp only [transmit]
  split
  · rfl
  · exact enqueue_settings ..

@[simp] theorem arpTick_settings (l : Link) : l.arpTick.settings = l.settings := by
  simp only [arpTick]
  rw [foldl_settings fun l d => l.note_settings _, foldl_settings request_settings]
  rfl

@[simp] theorem resolve_settings (l : Link) (ip : Ipv4Addr) (mac : MacAddr) :
    (l.resolve ip mac).settings = l.settings := by
  simp only [resolve, sendQueued]
  rw [foldl_settings fun l packet => l.writeFrame_settings _]
  rfl

@[simp] theorem handleArp_settings (l : Link) (payload : List UInt8) :
    (l.handleArp payload).settings = l.settings := by
  unfold handleArp
  split
  · rfl
  · simp only
    split_ifs
    · rfl
    · rw [resolve_settings, learn_settings]
    · rfl

/-- The addresses stay what they are. -/
theorem step_addresses (l : Link) (e : Event) :
    (l.step e).ourIp = l.ourIp ∧ (l.step e).ourMac = l.ourMac := by
  have hsame {l' : Link} (h : l'.settings = l.settings) :
      l'.ourIp = l.ourIp ∧ l'.ourMac = l.ourMac :=
    ⟨congrArg (·.1) h, congrArg (·.2.1) h⟩
  cases e with
  | tick =>
    have htick := arpTick_settings { l with now := l.clock.read.1, clock := l.clock.read.2 }
    exact ⟨congrArg (·.1) htick, congrArg (·.2.1) htick⟩
  | transmit dstIp ipPacket => exact hsame (l.transmit_settings dstIp ipPacket)
  | learn ip mac => exact hsame (l.learn_settings ip mac)
  | arp payload => exact hsame (l.handleArp_settings payload)

/-- Only `poll` moves the time, to what the clock says. -/
theorem step_now (l : Link) (e : Event) :
    (l.step e).now = match e with
      | .tick => l.clock.read.1
      | _ => l.now := by
  cases e with
  | tick =>
    exact congrArg (·.2.2)
      (arpTick_settings { l with now := l.clock.read.1, clock := l.clock.read.2 })
  | transmit dstIp ipPacket => exact congrArg (·.2.2) (l.transmit_settings dstIp ipPacket)
  | learn ip mac => exact congrArg (·.2.2) (l.learn_settings ip mac)
  | arp payload => exact congrArg (·.2.2) (l.handleArp_settings payload)

/-! ## The clock -/

theorem lookup_clock (cache : ArpCache) (ip : Ipv4Addr) (clock : Clock) :
    clock.time ≤ (cache.lookup ip clock).2.time := by
  unfold ArpCache.lookup
  split
  · exact le_refl _
  · exact le_of_le_of_eq clock.le_read clock.read_time.symm

theorem learn_clock (cache : ArpCache) (ip : Ipv4Addr) (mac : MacAddr) (clock : Clock) :
    clock.time ≤ (cache.learn ip mac clock).2.time := by
  unfold ArpCache.learn
  split
  · exact le_refl _
  · exact le_of_le_of_eq clock.le_read clock.read_time.symm

theorem enqueue_clock (l : Link) (dstIp : Ipv4Addr) (ipPacket : List UInt8) :
    (l.enqueue dstIp ipPacket).clock = l.clock := by
  simp only [enqueue]
  split <;> rfl

theorem transmit_clock (l : Link) (dstIp : Ipv4Addr) (ipPacket : List UInt8) :
    (l.transmit dstIp ipPacket).clock = (l.arp.lookup dstIp l.clock).2 := by
  simp only [transmit]
  split
  · rfl
  · exact enqueue_clock ..

theorem foldl_clock {α : Type} {g : Link → α → Link} (hg : ∀ l a, (g l a).clock = l.clock)
    (xs : List α) (l : Link) : (xs.foldl g l).clock = l.clock := by
  induction xs generalizing l with
  | nil => rfl
  | cons x xs ih => exact (ih (g l x)).trans (hg l x)

theorem request_clock (l : Link) (ip : Ipv4Addr) : (l.request ip).clock = l.clock := rfl

theorem arpTick_clock (l : Link) : l.arpTick.clock = l.clock := by
  simp only [arpTick]
  rw [foldl_clock fun l d => l.note_clock _, foldl_clock request_clock]

theorem resolve_clock (l : Link) (ip : Ipv4Addr) (mac : MacAddr) :
    l.clock.time ≤ (l.resolve ip mac).clock.time := by
  simp only [resolve, sendQueued, writeFrame]
  rw [foldl_clock fun l packet => l.note_clock _]
  exact le_of_le_of_eq (Clock.le_read _) (Clock.read_time _).symm

theorem handleArp_clock (l : Link) (payload : List UInt8) :
    l.clock.time ≤ (l.handleArp payload).clock.time := by
  unfold handleArp
  split
  · exact le_refl _
  · rename_i pkt _
    have hlearn : l.clock.time ≤ (l.learn pkt.spa pkt.sha).clock.time := learn_clock ..
    simp only
    split_ifs
    · exact hlearn
    · exact le_trans hlearn (resolve_clock ..)
    · exact hlearn

/-- The stack's time is never ahead of the clock. -/
theorem step_inTime {l : Link} (h : l.now ≤ l.clock.time) (e : Event) :
    (l.step e).now ≤ (l.step e).clock.time := by
  rw [step_now]
  cases e with
  | tick =>
    have hclock : (l.step .tick).clock = l.clock.read.2 := arpTick_clock _
    rw [hclock, Clock.read_time]
  | transmit dstIp ipPacket =>
    exact le_trans h (by rw [step, transmit_clock]; exact lookup_clock ..)
  | learn ip mac => exact le_trans h (learn_clock ..)
  | arp payload => exact le_trans h (l.handleArp_clock payload)

end Link
end PpcaNetwork.TcpStack
