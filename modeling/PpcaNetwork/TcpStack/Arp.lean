import PpcaNetwork.Lib.Table
import PpcaNetwork.TcpStack.Wire

/-!
# ARP: packets and the address cache

`TCP-stack/src/arp.rs`.  The cache holds the hardware addresses that are known, and for
those that are not the packets that wait for them.

* `parseArp`, `buildArp` — the packet, with the round trip.
* `Clock` — the system clock, which `lookup`, `insert` and `learn` read on their own.
* `ArpCache` — the cache with its operations; `tick` and `record_request` go by the time
  of the last `poll` instead, which they are given.
-/

namespace PpcaNetwork.TcpStack

/-! ## Packets -/

/-- The hardware type of Ethernet. -/
def arpHtypeEther : UInt16 := 1

/-- The protocol type of IPv4. -/
def arpPtypeIpv4 : UInt16 := 0x0800

/-- The length of a hardware address. -/
def arpHlenEther : UInt8 := 6

/-- The length of an IPv4 address. -/
def arpPlenIpv4 : UInt8 := 4

/-- The operation of a request. -/
def arpOpRequest : UInt16 := 1

/-- The operation of a reply. -/
def arpOpReply : UInt16 := 2

/-- The length of a packet. -/
def arpPktLen : Nat := 28

/-- An ARP packet. -/
structure ArpPacket where
  htype : UInt16
  ptype : UInt16
  hlen : UInt8
  plen : UInt8
  oper : UInt16
  /-- Sender hardware address. -/
  sha : MacAddr
  /-- Sender protocol address. -/
  spa : Ipv4Addr
  /-- Target hardware address. -/
  tha : MacAddr
  /-- Target protocol address. -/
  tpa : Ipv4Addr
  deriving DecidableEq, Repr

/-- `parse_arp`. -/
def parseArp (data : List UInt8) : Option ArpPacket :=
  if h : data.length < arpPktLen then none
  else
    have hlen : 28 ≤ data.length := Nat.le_of_not_lt h
    some {
      htype := ofOctets16 data[0] data[1]
      ptype := ofOctets16 data[2] data[3]
      hlen := data[4]
      plen := data[5]
      oper := ofOctets16 data[6] data[7]
      sha := ⟨data[8], data[9], data[10], data[11], data[12], data[13]⟩
      spa := ⟨data[14], data[15], data[16], data[17]⟩
      tha := ⟨data[18], data[19], data[20], data[21], data[22], data[23]⟩
      tpa := ⟨data[24], data[25], data[26], data[27]⟩ }

/-- `build_arp`. -/
def buildArp (htype ptype : UInt16) (hlen plen : UInt8) (oper : UInt16) (sha : MacAddr)
    (spa : Ipv4Addr) (tha : MacAddr) (tpa : Ipv4Addr) : List UInt8 :=
  octets16 htype ++ octets16 ptype ++ [hlen, plen] ++ octets16 oper ++ macOctets sha ++
    ipOctets spa ++ macOctets tha ++ ipOctets tpa

/-- `build_arp_reply`. -/
def buildArpReply (sha : MacAddr) (spa : Ipv4Addr) (tha : MacAddr) (tpa : Ipv4Addr) :
    List UInt8 :=
  buildArp arpHtypeEther arpPtypeIpv4 arpHlenEther arpPlenIpv4 arpOpReply sha spa tha tpa

/-- `build_arp_request`. -/
def buildArpRequest (sha : MacAddr) (spa tpa : Ipv4Addr) : List UInt8 :=
  buildArp arpHtypeEther arpPtypeIpv4 arpHlenEther arpPlenIpv4 arpOpRequest sha spa
    ⟨0, 0, 0, 0, 0, 0⟩ tpa

/-- Every packet that `build_arp` writes is parsed back. -/
theorem parseArp_buildArp (htype ptype : UInt16) (hlen plen : UInt8) (oper : UInt16)
    (sha : MacAddr) (spa : Ipv4Addr) (tha : MacAddr) (tpa : Ipv4Addr) :
    parseArp (buildArp htype ptype hlen plen oper sha spa tha tpa) =
      some { htype, ptype, hlen, plen, oper, sha, spa, tha, tpa } := by
  simp [parseArp, buildArp, arpPktLen, macOctets, ipOctets, octets16, ofOctets16_octets16]

/-! ## The clock -/

/-- The system clock, and how much time passes before each of the next readings. -/
structure Clock where
  time : Instant
  delays : List Duration
  deriving DecidableEq, Repr

/-- `Instant::now()`. -/
def Clock.read (c : Clock) : Instant × Clock :=
  match c.delays with
  | [] => (c.time, c)
  | d :: delays => (c.time + d, ⟨c.time + d, delays⟩)

@[simp] theorem Clock.read_time (c : Clock) : c.read.2.time = c.read.1 := by
  unfold read
  split <;> rfl

/-- The clock does not go backwards. -/
theorem Clock.le_read (c : Clock) : c.time ≤ c.read.1 := by
  unfold read
  split
  · exact le_refl _
  · exact Nat.le_add_right ..

/-! ## The cache -/

/-- How long an address is known. -/
def cacheTtl : Duration := Duration.fromSecs 60

/-- How long to wait before asking again. -/
def pendingRetryInterval : Duration := Duration.fromSecs 3

/-- How often to ask. -/
def maxRetries : Nat := 3

/-- A known address, and when it expires. -/
structure CacheEntry where
  mac : MacAddr
  expires : Instant
  deriving DecidableEq, Repr

/-- The packets that wait for an address, and what has been done to learn it. -/
structure PendingEntry where
  packets : List (List UInt8)
  lastRequest : Instant
  retries : Nat
  deriving DecidableEq, Repr

/-- The addresses that are known, and those that are being asked for. -/
structure ArpCache where
  entries : Table Ipv4Addr CacheEntry
  pending : Table Ipv4Addr PendingEntry

/-- Which addresses to ask for again, and which to give up. -/
structure TickResult where
  retryIps : List Ipv4Addr
  timedOutIps : List Ipv4Addr

namespace ArpCache

/-- `ArpCache::new`. -/
def new : ArpCache := ⟨∅, ∅⟩

/-- `lookup`: the address under `ip`, unless it has expired. -/
def lookup (cache : ArpCache) (ip : Ipv4Addr) (clock : Clock) : Option MacAddr × Clock :=
  match cache.entries.lookup ip with
  | none => (none, clock)
  | some entry =>
    let (time, clock) := clock.read
    (if entry.expires < time then none else some entry.mac, clock)

/-- `insert`: remember the address, and take the packets that waited for it. -/
def insert (cache : ArpCache) (ip : Ipv4Addr) (mac : MacAddr) (clock : Clock) :
    ArpCache × List (List UInt8) × Clock :=
  let (time, clock) := clock.read
  ({ entries := cache.entries.insert ip ⟨mac, time + cacheTtl⟩
     pending := cache.pending.erase ip },
    ((cache.pending.lookup ip).map (·.packets)).getD [], clock)

/-- `learn`: remember the address and leave the packets where they are. -/
def learn (cache : ArpCache) (ip : Ipv4Addr) (mac : MacAddr) (clock : Clock) :
    ArpCache × Clock :=
  if ip = ⟨0, 0, 0, 0⟩ ∨ mac = ⟨0, 0, 0, 0, 0, 0⟩ then (cache, clock)
  else
    let (time, clock) := clock.read
    ({ cache with entries := cache.entries.insert ip ⟨mac, time + cacheTtl⟩ }, clock)

/-- `queue_packet`: add a packet to those waiting; `true` if it is the first. -/
def queuePacket (cache : ArpCache) (ip : Ipv4Addr) (packet : List UInt8) (now : Instant) :
    ArpCache × Bool :=
  let entry := (cache.pending.lookup ip).getD { packets := [], lastRequest := now, retries := 0 }
  ({ cache with
      pending := cache.pending.insert ip { entry with packets := entry.packets ++ [packet] } },
    (cache.pending.lookup ip).isNone)

/-- The address has been asked for often enough, and there has been time to answer. -/
def isTimedOut (now : Instant) (entry : PendingEntry) : Bool :=
  maxRetries ≤ entry.retries ∧ pendingRetryInterval ≤ now - entry.lastRequest

/-- The address is to be asked for again. -/
def isRetried (now : Instant) (entry : PendingEntry) : Bool :=
  entry.retries < maxRetries ∧ entry.lastRequest + pendingRetryInterval ≤ now

/-- `tick`. -/
def tick (cache : ArpCache) (now : Instant) : ArpCache × TickResult :=
  let timedOutIps := cache.pending.collect fun ip entry =>
    if isTimedOut now entry then some ip else none
  let retryIps := cache.pending.collect fun ip entry =>
    if isRetried now entry then some ip else none
  ({ cache with pending := timedOutIps.foldl (fun pending ip => pending.erase ip) cache.pending },
    { retryIps, timedOutIps })

/-- `record_request`. -/
def recordRequest (cache : ArpCache) (ip : Ipv4Addr) (now : Instant) : ArpCache :=
  let entry :=
    match cache.pending.lookup ip with
    | some entry => { entry with lastRequest := now, retries := entry.retries + 1 }
    | none => { packets := [], lastRequest := now, retries := 1 }
  { cache with pending := cache.pending.insert ip entry }

end ArpCache
end PpcaNetwork.TcpStack
