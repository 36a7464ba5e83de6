import PpcaNetwork.Lib.Run
import PpcaNetwork.TcpStack.Tcp

/-!
# The TCP side of the stack

What `TcpStack` of `TCP-stack/src/stack.rs` does to its connections: the calls
`connect`, `send`, `recv` and `close` of the application (through
`socket.rs`), the segments that arrive, and `poll`.  Every segment goes out
through `send_frame`, which calls `record_sent` for the connection it is sent
under; that is `TcpCore.sendSegments` here.  Frames, ARP and the TAP device do
not touch the connections and are not part of this module.

* `Event` — what can happen to the stack, in any order.
* `TcpCore.step` and `TcpCore.emitted` — the state after an event and the
  segments sent because of it.
-/

namespace PpcaNetwork.TcpStack

/-- The fields of `TcpStack` that TCP works on. -/
structure TcpCore where
  tcp : TcpManager
  ourIp : Ipv4Addr
  /-- The time of the last `poll`, which everything until the next one uses. -/
  now : Instant

/-- One thing that happens to the stack. -/
inductive Event where
  /-- The application connects; `iss` is the number `rand_seq` draws. -/
  | connect (remoteIp : Ipv4Addr) (remotePort : UInt16) (iss : UInt32)
  /-- The application sends on a socket. -/
  | send (key : ConnKey) (data : List UInt8)
  /-- The application takes what a socket has received. -/
  | recv (key : ConnKey)
  /-- The application closes a socket. -/
  | close (key : ConnKey)
  /-- A segment arrives whose checksum verifies. -/
  | segment (remoteIp : Ipv4Addr) (header : TcpHeader) (payload : List UInt8)
  /-- `poll`, `elapsed` nanoseconds after the previous one. -/
  | poll (elapsed : Duration)
  deriving DecidableEq, Repr

namespace TcpCore

/-- A stack with no connection yet. -/
def new (ourIp : Ipv4Addr) (now : Instant) : TcpCore := ⟨.new, ourIp, now⟩

/-- `send_frame`, as far as the connections are concerned: `record_sent` for the
connection the packet is sent under, if any. -/
def sendFrame (c : TcpCore) (key : Option ConnKey) : TcpCore :=
  match key with
  | none => c
  | some k => { c with tcp := c.tcp.recordSent k c.now }

/-- `send_segments_with_key`: every segment through `send_frame`. -/
def sendSegments (c : TcpCore) (segs : List OutgoingSegment) (key : Option ConnKey) : TcpCore :=
  segs.foldl (fun c _ => c.sendFrame key) c

/-- `connect`. -/
def connect (c : TcpCore) (remoteIp : Ipv4Addr) (remotePort : UInt16) (iss : UInt32) :
    TcpCore × List (Option ConnKey × OutgoingSegment) :=
  let (tcp, key, segs) := c.tcp.initiateConnect c.ourIp remoteIp remotePort c.now iss
  (({ c with tcp := tcp } : TcpCore).sendSegments segs key, segs.map (key, ·))

/-- `send`. -/
def send (c : TcpCore) (key : ConnKey) (data : List UInt8) :
    TcpCore × List (Option ConnKey × OutgoingSegment) :=
  let (tcp, segs) := c.tcp.update key (·.send data) []
  (({ c with tcp := tcp } : TcpCore).sendSegments segs (some key), segs.map (some key, ·))

/-- `recv`. -/
def recv (c : TcpCore) (key : ConnKey) : TcpCore × List UInt8 :=
  let (tcp, data) := c.tcp.drainData key
  ({ c with tcp := tcp }, data)

/-- `close`. -/
def close (c : TcpCore) (key : ConnKey) : TcpCore × List (Option ConnKey × OutgoingSegment) :=
  let (tcp, segs) := c.tcp.close key c.now
  (({ c with tcp := tcp } : TcpCore).sendSegments segs (some key), segs.map (some key, ·))

/-- The TCP branch of `handle_ipv4`. -/
def handleSegment (c : TcpCore) (remoteIp : Ipv4Addr) (header : TcpHeader)
    (payload : List UInt8) : TcpCore × List (Option ConnKey × OutgoingSegment) :=
  let (tcp, key, segs) := c.tcp.process c.ourIp remoteIp header payload c.now
  (({ c with tcp := tcp } : TcpCore).sendSegments segs key, segs.map (key, ·))

/-- `poll`: set the clock, then `tcp_retransmit`.  The frames that `poll` reads
afterwards are `segment` events of their own. -/
def poll (c : TcpCore) (elapsed : Duration) :
    TcpCore × List (Option ConnKey × OutgoingSegment) :=
  let now := c.now + elapsed
  let (tcp, segs) := c.tcp.pollRetransmit now
  (segs.foldl (fun c s => c.sendFrame (some s.1)) { c with tcp := tcp, now := now },
    segs.map fun s => (some s.1, s.2))

/-- The state after one event. -/
def step (c : TcpCore) : Event → TcpCore
  | .connect remoteIp remotePort iss => (c.connect remoteIp remotePort iss).1
  | .send key data => (c.send key data).1
  | .recv key => (c.recv key).1
  | .close key => (c.close key).1
  | .segment remoteIp header payload => (c.handleSegment remoteIp header payload).1
  | .poll elapsed => (c.poll elapsed).1

/-- The segments sent because of one event, each with the connection it is sent under. -/
def emitted (c : TcpCore) : Event → List (Option ConnKey × OutgoingSegment)
  | .connect remoteIp remotePort iss => (c.connect remoteIp remotePort iss).2
  | .send key data => (c.send key data).2
  | .recv _ => []
  | .close key => (c.close key).2
  | .segment remoteIp header payload => (c.handleSegment remoteIp header payload).2
  | .poll elapsed => (c.poll elapsed).2

/-- The control block under a key. -/
def get (c : TcpCore) (key : ConnKey) : Option Tcb := c.tcp.get key

end TcpCore
end PpcaNetwork.TcpStack
