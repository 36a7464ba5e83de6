import PpcaNetwork.Lib.Net
import PpcaNetwork.Lib.Table

/-!
# TCP: segments, control blocks and the connection table

The state machine of `TCP-stack/src/tcp.rs`.  Each state of
`process_existing_tcb` has a definition of its own, and `TcpManager` is the
table of control blocks with the operations `process`, `poll_retransmit`,
`record_sent`, `drain_data`, `close` and `initiate_connect`.

Sequence numbers are `UInt32`, whose arithmetic wraps as `wrapping_add` and
`wrapping_sub` do.  The sequence number that `rand_seq` draws from the system
clock is an argument of `initiateConnect`, and the log lines printed along the
way are left out.
-/

namespace PpcaNetwork.TcpStack

/-! ## Constants -/

/-- The flag of the last segment. -/
def tcpFin : UInt8 := 0x01

/-- The flag of the first segment. -/
def tcpSyn : UInt8 := 0x02

/-- The flag of a reset. -/
def tcpRst : UInt8 := 0x04

/-- The flag of data that are to be handed on. -/
def tcpPsh : UInt8 := 0x08

/-- The flag of a segment that acknowledges. -/
def tcpAck : UInt8 := 0x10

/-- The window of every segment that is sent. -/
def defaultWindow : UInt16 := 65535

/-- The first retransmission timeout. -/
def initialRto : Duration := Duration.fromSecs 1

/-- How often a segment is sent again. -/
def maxRetransmits : Nat := 5

/-- The longest timeout. -/
def maxRto : Duration := Duration.fromSecs 60

/-- How long a connection stays in `TimeWait`. -/
def timeWaitPeriod : Duration := Duration.fromSecs 60

/-! ## Segments -/

/-- A header without its options. -/
structure TcpHeader where
  srcPort : UInt16
  dstPort : UInt16
  seq : UInt32
  ack : UInt32
  dataOffset : UInt8
  flags : UInt8
  window : UInt16
  checksum : UInt16
  urgent : UInt16
  deriving DecidableEq, Repr, Inhabited

/-- `header.flags & flag != 0`. -/
def TcpHeader.has (h : TcpHeader) (flag : UInt8) : Bool := h.flags &&& flag != 0

/-- The sequence number a flag occupies: `if header.flags & flag != 0 { 1 } else { 0 }`. -/
def TcpHeader.flagLen (h : TcpHeader) (flag : UInt8) : UInt32 := if h.has flag then 1 else 0

/-- A segment to be sent: what `build_tcp_segment` does not know otherwise. -/
structure OutgoingSegment where
  flags : UInt8
  seq : UInt32
  ack : UInt32
  payload : List UInt8
  dstPort : UInt16
  deriving DecidableEq, Repr

/-- `payload.len() as u32`. -/
def segLen (payload : List UInt8) : UInt32 := UInt32.ofNat payload.length

/-! ## The control block -/

/-- The states of a connection. -/
inductive TcpState where
  | closed
  | listen
  | synSent
  | synReceived
  | established
  | finWait1
  | finWait2
  | closeWait
  | closing
  | lastAck
  | timeWait
  deriving DecidableEq, Repr, Inhabited

/-- The transmission control block of one connection. -/
structure Tcb where
  localIp : Ipv4Addr
  remoteIp : Ipv4Addr
  localPort : UInt16
  remotePort : UInt16
  state : TcpState
  /-- Initial send sequence number. -/
  iss : UInt32
  /-- Oldest unacknowledged sequence number. -/
  sndUna : UInt32
  /-- Next sequence number to send. -/
  sndNxt : UInt32
  /-- The peer's advertised window. -/
  sndWnd : UInt16
  /-- Initial receive sequence number. -/
  irs : UInt32
  /-- Next expected sequence number. -/
  rcvNxt : UInt32
  rcvWnd : UInt16
  rto : Duration
  retransmitAt : Option Instant
  retransmitCount : Nat
  sendBuffer : List UInt8
  recvBuffer : List UInt8
  deriving DecidableEq, Repr

namespace Tcb

/-- `new_server`: a control block that waits for a SYN. -/
def newServer (localIp remoteIp : Ipv4Addr) (localPort remotePort : UInt16) : Tcb where
  localIp := localIp
  remoteIp := remoteIp
  localPort := localPort
  remotePort := remotePort
  state := .listen
  iss := 0
  sndUna := 0
  sndNxt := 0
  sndWnd := 0
  irs := 0
  rcvNxt := 0
  rcvWnd := defaultWindow
  rto := initialRto
  retransmitAt := none
  retransmitCount := 0
  sendBuffer := []
  recvBuffer := []

/-- The control block `initiate_connect` puts in the table: a SYN has been sent. -/
def opened (localIp remoteIp : Ipv4Addr) (localPort remotePort : UInt16) (iss : UInt32)
    (now : Instant) : Tcb :=
  { newServer localIp remoteIp localPort remotePort with
    state := .synSent
    iss := iss
    sndUna := iss
    sndNxt := iss + 1
    retransmitAt := some (now + initialRto)
    rto := initialRto }

/-- The bare acknowledgement of everything received so far. -/
def ackSegment (t : Tcb) : OutgoingSegment where
  flags := tcpAck
  seq := t.sndNxt
  ack := t.rcvNxt
  payload := []
  dstPort := t.remotePort

/-! ## Incoming segments -/

/-- `SynReceived`: expecting the acknowledgement of our SYN+ACK. -/
def processSynReceived (t : Tcb) (header : TcpHeader) (now : Instant) :
    Tcb × List OutgoingSegment :=
  if header.has tcpAck ∧ header.ack = t.sndNxt then
    ({ t with
        state := .established
        rcvNxt := header.seq + 1
        sndUna := header.ack
        retransmitAt := none
        retransmitCount := 0 }, [])
  else if t.retransmitAt.any (· ≤ now) then
    (t, [{ flags := tcpSyn ||| tcpAck, seq := t.iss, ack := t.rcvNxt, payload := [],
           dstPort := t.remotePort }])
  else (t, [])

/-- ACK processing in `Established`: advance `snd_una` and trim `send_buffer`. -/
def processAck (t : Tcb) (header : TcpHeader) : Tcb :=
  if header.has tcpAck then
    if 0 < header.ack - t.sndUna ∧ header.ack - t.sndNxt ≤ 0 then
      let acked := (header.ack - t.sndUna).toNat
      let t := { t with
        sendBuffer := t.sendBuffer.drop (min acked t.sendBuffer.length)
        sndUna := header.ack }
      if t.sndUna = t.sndNxt then { t with retransmitAt := none, retransmitCount := 0 } else t
    else t
  else t

/-- Data processing in `Established`: accept the segment if it is the next one. -/
def processData (t : Tcb) (header : TcpHeader) (payload : List UInt8) :
    Tcb × List OutgoingSegment :=
  let synFlag := header.flagLen tcpSyn
  let finFlag := header.flagLen tcpFin
  if 0 < segLen payload ∨ synFlag ≠ 0 ∨ finFlag ≠ 0 then
    if header.seq = t.rcvNxt then
      let t := { t with
        recvBuffer := if 0 < segLen payload then t.recvBuffer ++ payload else t.recvBuffer
        rcvNxt := header.seq + (segLen payload + synFlag + finFlag) }
      (if finFlag ≠ 0 then { t with state := .closeWait } else t, [t.ackSegment])
    else (t, [])
  else (t, [])

/-- `Established`: the acknowledgement first, then the data. -/
def processEstablished (t : Tcb) (header : TcpHeader) (payload : List UInt8) :
    Tcb × List OutgoingSegment :=
  (t.processAck header).processData header payload

/-- Append the payload of the next expected segment to `recv_buffer`. -/
def bufferData (t : Tcb) (header : TcpHeader) (payload : List UInt8) : Tcb :=
  if 0 < segLen payload ∧ header.seq = t.rcvNxt then
    { t with recvBuffer := t.recvBuffer ++ payload, rcvNxt := t.rcvNxt + segLen payload }
  else t

/-- `CloseWait`: waiting for the application to close, acknowledging any data. -/
def processCloseWait (t : Tcb) (header : TcpHeader) (payload : List UInt8) :
    Tcb × List OutgoingSegment :=
  if 0 < segLen payload ∧ header.seq = t.rcvNxt then
    let t := t.bufferData header payload
    (t, [t.ackSegment])
  else (t, [])

/-- `LastAck`: waiting for the acknowledgement of our FIN. -/
def processLastAck (t : Tcb) (header : TcpHeader) : Tcb × List OutgoingSegment :=
  if header.has tcpAck then ({ t with state := .closed, retransmitAt := none }, []) else (t, [])

/-- `FinWait1`: our FIN is sent, waiting for its acknowledgement. -/
def processFinWait1 (t : Tcb) (header : TcpHeader) (payload : List UInt8) (now : Instant) :
    Tcb × List OutgoingSegment :=
  if header.has tcpAck then
    if header.ack = t.sndNxt then
      let t := { t with sndUna := header.ack, retransmitAt := none, retransmitCount := 0 }
      if header.has tcpFin then
        let t := { t with
          rcvNxt := header.seq + (segLen payload + 1)
          state := .timeWait
          retransmitAt := some (now + timeWaitPeriod) }
        (t, [t.ackSegment])
      else (({ t with state := .finWait2 } : Tcb).bufferData header payload, [])
    else (t.bufferData header payload, [])
  else if header.has tcpFin then
    let t := { t with rcvNxt := header.seq + (segLen payload + 1), state := .closing }
    (t, [t.ackSegment])
  else (t.bufferData header payload, [])

/-- `FinWait2`: our FIN is acknowledged, waiting for the peer's. -/
def processFinWait2 (t : Tcb) (header : TcpHeader) (payload : List UInt8) (now : Instant) :
    Tcb × List OutgoingSegment :=
  if header.has tcpFin ∧ header.seq = t.rcvNxt then
    let t := { t with
      rcvNxt := header.seq + (segLen payload + 1)
      state := .timeWait
      retransmitAt := some (now + timeWaitPeriod) }
    (t, [t.ackSegment])
  else (t.bufferData header payload, [])

/-- `SynSent`: expecting SYN+ACK from the server. -/
def processSynSent (t : Tcb) (header : TcpHeader) : Tcb × List OutgoingSegment :=
  if header.flags &&& (tcpSyn ||| tcpAck) = tcpSyn ||| tcpAck then
    if header.ack = t.sndNxt then
      let t := { t with
        irs := header.seq
        rcvNxt := header.seq + 1
        sndUna := header.ack
        sndWnd := header.window
        state := .established
        retransmitAt := none
        retransmitCount := 0 }
      (t, [t.ackSegment])
    else (t, [])
  else if header.has tcpRst then ({ t with state := .closed }, [])
  else (t, [])

/-- `Closing`: both FINs are sent, waiting for the acknowledgement of ours. -/
def processClosing (t : Tcb) (header : TcpHeader) (now : Instant) : Tcb × List OutgoingSegment :=
  if header.has tcpAck ∧ header.ack = t.sndNxt then
    ({ t with
        state := .timeWait
        retransmitAt := some (now + timeWaitPeriod)
        retransmitCount := 0 }, [])
  else (t, [])

/-- `process_existing_tcb`: one incoming segment on an existing connection. -/
def processExistingTcb (t : Tcb) (header : TcpHeader) (payload : List UInt8) (now : Instant) :
    Tcb × List OutgoingSegment :=
  match t.state with
  | .synReceived => t.processSynReceived header now
  | .established => t.processEstablished header payload
  | .closeWait => t.processCloseWait header payload
  | .lastAck => t.processLastAck header
  | .finWait1 => t.processFinWait1 header payload now
  | .finWait2 => t.processFinWait2 header payload now
  | .synSent => t.processSynSent header
  | .closing => t.processClosing header now
  | .closed | .listen | .timeWait => (t, [])

/-! ## Retransmission -/

/-- The segment a retransmission puts on the wire. -/
def buildRetransmit (t : Tcb) : OutgoingSegment :=
  match t.state with
  | .synSent =>
    { flags := tcpSyn, seq := t.iss, ack := 0, payload := [], dstPort := t.remotePort }
  | .synReceived =>
    { flags := tcpSyn ||| tcpAck, seq := t.iss, ack := t.rcvNxt, payload := [],
      dstPort := t.remotePort }
  | .established | .closeWait =>
    let offset := (t.sndUna - (t.iss + 1)).toNat
    let payload := if offset < t.sendBuffer.length then t.sendBuffer.drop offset else []
    { flags := if payload.isEmpty then tcpAck else tcpPsh ||| tcpAck
      seq := t.sndUna
      ack := t.rcvNxt
      payload := payload
      dstPort := t.remotePort }
  | .finWait1 | .lastAck | .closing =>
    { flags := tcpFin ||| tcpAck, seq := t.sndNxt - 1, ack := t.rcvNxt, payload := [],
      dstPort := t.remotePort }
  | _ =>
    { flags := tcpAck, seq := t.sndUna, ack := t.rcvNxt, payload := [], dstPort := t.remotePort }

/-- The retransmission timer has run out at `now`. -/
def timerFired (t : Tcb) (now : Instant) : Bool := t.retransmitAt.any (· ≤ now)

/-- The body of the first loop of `poll_retransmit`, on one connection: give the
connection up, or restart the timer and retransmit. -/
def retransmit (t : Tcb) (now : Instant) : Tcb × Option OutgoingSegment :=
  if t.timerFired now then
    if maxRetransmits ≤ t.retransmitCount then ({ t with state := .closed }, none)
    else
      let t := { t with
        retransmitAt := some (now + t.rto)
        rto := min (t.rto * 2) maxRto
        retransmitCount := t.retransmitCount + 1 }
      (t, some t.buildRetransmit)
  else (t, none)

/-- The test of the `retain` at the end of `poll_retransmit`. -/
def isRetained (t : Tcb) (now : Instant) : Bool :=
  if t.state = .closed then false
  else if t.state = .timeWait ∧ t.timerFired now then false
  else true

/-- `record_sent` on one connection: start the timer if it is not running. -/
def recordSent (t : Tcb) (now : Instant) : Tcb :=
  if t.retransmitAt.isNone then { t with retransmitAt := some (now + t.rto) } else t

/-! ## The application's side -/

/-- `socket::send` on one connection. -/
def send (t : Tcb) (data : List UInt8) : Tcb × List OutgoingSegment :=
  if t.state ≠ .established then (t, [])
  else
    ({ t with sndNxt := t.sndNxt + segLen data, sendBuffer := t.sendBuffer ++ data },
      [{ flags := tcpPsh ||| tcpAck, seq := t.sndNxt, ack := t.rcvNxt, payload := data,
         dstPort := t.remotePort }])

/-- Send our FIN from `Established` or `CloseWait`, moving on to `next`. -/
def sendFin (t : Tcb) (next : TcpState) (now : Instant) : Tcb × List OutgoingSegment :=
  ({ t with state := next, sndNxt := t.sndNxt + 1, retransmitAt := some (now + t.rto) },
    [{ flags := tcpFin ||| tcpAck, seq := t.sndNxt, ack := t.rcvNxt, payload := [],
       dstPort := t.remotePort }])

/-- `close` on one connection. -/
def close (t : Tcb) (now : Instant) : Tcb × List OutgoingSegment :=
  match t.state with
  | .established => t.sendFin .finWait1 now
  | .closeWait => t.sendFin .lastAck now
  | .closed | .timeWait | .listen => (t, [])
  | _ =>
    ({ t with state := .closed },
      [{ flags := tcpRst, seq := t.sndNxt, ack := 0, payload := [], dstPort := t.remotePort }])

/-- `drain_data` on one connection: `std::mem::take` of the receive buffer. -/
def drainData (t : Tcb) : Tcb × List UInt8 := ({ t with recvBuffer := [] }, t.recvBuffer)

end Tcb

/-! ## The connection table -/

/-- The 4-tuple a connection is looked up by. -/
structure ConnKey where
  localIp : Ipv4Addr
  localPort : UInt16
  remoteIp : Ipv4Addr
  remotePort : UInt16
  deriving DecidableEq, Repr

/-- `TcpManager`: the connections. -/
structure TcpManager where
  connections : Table ConnKey Tcb

namespace TcpManager

/-- `TcpManager::new`. -/
def new : TcpManager := ⟨∅⟩

/-- `get`: the control block under a key. -/
def get (m : TcpManager) (key : ConnKey) : Option Tcb := m.connections.lookup key

/-- Change one control block and keep what the change returns; `default` when
there is no such connection. -/
def update {α : Type} (m : TcpManager) (key : ConnKey) (f : Tcb → Tcb × α) (default : α) :
    TcpManager × α :=
  match m.get key with
  | none => (m, default)
  | some t => (⟨m.connections.insert key (f t).1⟩, (f t).2)

/-- The reset answering a segment that matches no connection. -/
def strayReset (header : TcpHeader) (payload : List UInt8) : OutgoingSegment where
  flags := tcpRst ||| tcpAck
  seq := if header.has tcpAck then header.ack else 0
  ack := header.seq + (segLen payload + header.flagLen tcpSyn)
  payload := []
  dstPort := header.srcPort

/-- The key an incoming segment is looked up under. -/
def segmentKey (localIp remoteIp : Ipv4Addr) (header : TcpHeader) : ConnKey where
  localIp := localIp
  localPort := header.dstPort
  remoteIp := remoteIp
  remotePort := header.srcPort

/-- `process`: one incoming segment; the key is `none` when no connection matches. -/
def process (m : TcpManager) (localIp remoteIp : Ipv4Addr) (header : TcpHeader)
    (payload : List UInt8) (now : Instant) :
    TcpManager × Option ConnKey × List OutgoingSegment :=
  let key := segmentKey localIp remoteIp header
  if (m.get key).isSome then
    let (m, outgoing) := m.update key (·.processExistingTcb header payload now) []
    (m, some key, outgoing)
  else if header.has tcpRst then (m, none, [])
  else (m, none, [strayReset header payload])

/-- `poll_retransmit`: run every timer, then drop what is closed or has expired. -/
def pollRetransmit (m : TcpManager) (now : Instant) :
    TcpManager × List (ConnKey × OutgoingSegment) :=
  (⟨(m.connections.mapValues fun t => (t.retransmit now).1).retain (·.isRetained now)⟩,
    m.connections.collect fun key t => (t.retransmit now).2.map (key, ·))

/-- `record_sent`: start the retransmission timer if it is not already running. -/
def recordSent (m : TcpManager) (key : ConnKey) (now : Instant) : TcpManager :=
  ⟨m.connections.modify key (·.recordSent now)⟩

/-- `drain_data`: take what the connection has received. -/
def drainData (m : TcpManager) (key : ConnKey) : TcpManager × List UInt8 :=
  m.update key (·.drainData) []

/-- `close`, also under the name `close_conn`. -/
def close (m : TcpManager) (key : ConnKey) (now : Instant) : TcpManager × List OutgoingSegment :=
  m.update key (·.close now) []

/-- `find_src_port`: the local port of some connection to that peer. -/
def findSrcPort (m : TcpManager) (remoteIp : Ipv4Addr) (remotePort : UInt16) : Option UInt16 :=
  (m.connections.keys.find? fun k => k.remoteIp = remoteIp ∧ k.remotePort = remotePort).map
    (·.localPort)

/-- The first port from `port` on, among the next `count`, that no connection uses. -/
def firstFreePort (used : List UInt16) : Nat → Nat → Option UInt16
  | _, 0 => none
  | port, count + 1 =>
    if UInt16.ofNat port ∈ used then firstFreePort used (port + 1) count
    else some (UInt16.ofNat port)

/-- `next_ephemeral`: the first unused port of 40000..60000, or 40000 if all are used. -/
def nextEphemeral (m : TcpManager) : UInt16 :=
  (firstFreePort (m.connections.keys.map (·.localPort)) 40000 20000).getD 40000

/-- The key `initiate_connect` opens a connection under. -/
def connectKey (m : TcpManager) (localIp remoteIp : Ipv4Addr) (remotePort : UInt16) : ConnKey where
  localIp := localIp
  localPort := m.nextEphemeral
  remoteIp := remoteIp
  remotePort := remotePort

/-- A connection in one of these states is handed back by `initiate_connect` as it is. -/
def isReused (t : Tcb) : Bool := t.state = .established ∨ t.state = .synSent

/-- `initiate_connect`: send a SYN, with `iss` the number `rand_seq` drew. -/
def initiateConnect (m : TcpManager) (localIp remoteIp : Ipv4Addr) (remotePort : UInt16)
    (now : Instant) (iss : UInt32) : TcpManager × Option ConnKey × List OutgoingSegment :=
  let key := m.connectKey localIp remoteIp remotePort
  if (m.get key).any isReused then (m, some key, [])
  else
    (⟨m.connections.insert key (Tcb.opened localIp remoteIp key.localPort remotePort iss now)⟩,
      some key,
      [{ flags := tcpSyn, seq := iss, ack := 0, payload := [], dstPort := remotePort }])

end TcpManager
end PpcaNetwork.TcpStack
