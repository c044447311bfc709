import Gmker.Foundation.Ring
import Gmker.Net.Wire

/-!
# The TCP client

The single connection of `tcpstore.c`: segments, the receive ring, input
processing, retransmission and the blocking calls built on `gm_pump`.  Packets
that arrive, transmit outcomes and ARP lookups come from outcome streams, so a
theorem over all hosts covers every behaviour of the network.  The log records
what happened; the code never reads it.
-/

namespace Gmker.Net

/-- The states `GM_TCP_CLOSED` to `GM_TCP_RESET`. -/
inductive GmTcpState where
  | closed
  | syn
  | established
  | fin
  | reset
  deriving DecidableEq, Repr

/-- The static variables of the connection.  `unacked` is the part of
`gm_tcp_unacked` below `gm_tcp_unacked_len`. -/
structure GmTcp where
  dst : List UInt8 := [0, 0, 0, 0]
  srcPort : UInt16 := 0
  dstPort : UInt16 := 0
  seq : UInt32 := 0
  ack : UInt32 := 0
  state : GmTcpState := .closed
  rx : Nat → UInt8 := fun _ => 0
  rxHead : Nat := 0
  rxLen : Nat := 0
  unacked : List UInt8 := []
  unackedSeq : UInt32 := 0
  unackedTick : Nat := 0
  unackedRetry : Nat := 0
  txCount : Nat := 0
  rxCount : Nat := 0
  dropCount : Nat := 0
  nextPort : UInt16 := 40000
  nextSeq : UInt32 := 0x474d0001

/-- The bytes waiting in the receive ring, oldest first. -/
def GmTcp.buffered (tcp : GmTcp) : List UInt8 :=
  Foundation.ringContents gmTcpRxSize tcp.rx tcp.rxHead tcp.rxLen

/-- An IPv4 packet with a TCP payload, as `gm_ipv4_input` passes it on.  Its
length is a `uint16_t`. -/
structure GmPacket where
  src : List UInt8
  data : List UInt8
  bounded : data.length < 2 ^ 16

/-- The packet with which a peer sends a segment. -/
def GmPacket.ofSegment (src dst : List UInt8) (srcPort dstPort : UInt16)
    (segment : GmSegment) (short : segment.payload.length ≤ gmNetMtu) :
    GmPacket :=
  { src := src
    data := gmTcpPacket src dst srcPort dstPort segment
    bounded := by
      have bound : segment.payload.length ≤ 1500 := short
      simp only [gmTcpPacket, gmTcpBytes, store16, store32, List.length_append,
        List.length_cons, List.length_nil]
      omega }

/-- What one `gm_pump` meets: the packets `gm_net_poll` finds, and how long
`hlt` sleeps beyond the timer interrupt that ends it. -/
structure GmPumpInput where
  packets : List GmPacket := []
  idleTicks : Nat := 0

/-- The outcomes of everything below TCP, in the order they are asked for. -/
structure GmNetEnv where
  pumps : Nat → GmPumpInput := fun _ => {}
  sendOk : Nat → Bool := fun _ => true
  arpKnown : Nat → Bool := fun _ => true
  online : Nat → Bool := fun _ => true

/-- What an observer of the connection sees. -/
inductive GmNetEvent where
  | opened (iss : UInt32)
  | state (state : GmTcpState)
  | sent (segment : GmSegment) (ok : Bool)
  | arrived (segment : GmSegment)
  | acked (ack unackedSeq : UInt32) (len : Nat)
  | accepted (bytes : List UInt8)
  | read (bytes : List UInt8)
  | dropped (bytes : List UInt8)
  | connecting
  | connected (ok : Bool)
  deriving DecidableEq, Repr

/-- `gm_config`, as far as the connection uses it. -/
structure GmNetConfig where
  ip : List UInt8 := [10, 0, 2, 15]
  storeIp : List UInt8 := [10, 0, 2, 2]
  storePort : UInt16 := 7070

/-- The connection, the clock, and the position in each outcome stream. -/
structure GmHost where
  config : GmNetConfig := {}
  env : GmNetEnv := {}
  tcp : GmTcp := {}
  ticks : Nat := 0
  pumped : Nat := 0
  sends : Nat := 0
  lookups : Nat := 0
  prepared : Nat := 0
  log : List GmNetEvent := []

namespace GmHost

def record (host : GmHost) (event : GmNetEvent) : GmHost :=
  { host with log := host.log ++ [event] }

/-- Assign `gm_tcp_state`. -/
def setState (host : GmHost) (state : GmTcpState) : GmHost :=
  { host with
    tcp := { host.tcp with state := state }
    log := host.log ++ [.state state] }

end GmHost

/-- `gm_ipv4_send`, up to the outcome of the link below. -/
def gmIpv4Send (packet : List UInt8) (host : GmHost) : Bool × GmHost :=
  if gmNetMtu < packet.length + gmIpv4HeaderSize then (false, host)
  else (host.env.sendOk host.sends, { host with sends := host.sends + 1 })

/-- `gm_tcp_segment`. -/
def gmTcpSegment (segment : GmSegment) (host : GmHost) : Bool × GmHost :=
  if gmNetMtu < gmTcpHeaderSize + segment.payload.length then
    (false, host.record (.sent segment false))
  else
    match gmIpv4Send (gmTcpPacket host.config.ip host.tcp.dst host.tcp.srcPort
        host.tcp.dstPort segment) host with
    | (false, host) => (false, host.record (.sent segment false))
    | (true, host) =>
      (true, GmHost.record
        { host with tcp := { host.tcp with txCount := host.tcp.txCount + 1 } }
        (.sent segment true))

/-- `gm_tcp_append`. -/
def gmTcpAppend (data : List UInt8) (tcp : GmTcp) : Bool × GmTcp :=
  if gmTcpRxSize - tcp.rxLen < data.length then
    (false, { tcp with dropCount := tcp.dropCount + data.length })
  else
    let tail := (tcp.rxHead + tcp.rxLen) % gmTcpRxSize
    let first := min data.length (gmTcpRxSize - tail)
    (true,
      { tcp with
        rx := Foundation.writeBlock
          (Foundation.writeBlock tcp.rx tail (data.take first)) 0
          (data.drop first)
        rxLen := tcp.rxLen + data.length })

/-- The ACK processing of `gm_tcp_input`. -/
def gmTcpAcknowledge (segment : GmSegment) (host : GmHost) : GmHost :=
  let tcp := host.tcp
  if segment.has gmTcpFlagAck ∧ tcp.unacked ≠ [] ∧
      tcp.unackedSeq + UInt32.ofNat tcp.unacked.length ≤ segment.ack then
    GmHost.record
      { host with tcp := { tcp with unacked := [], unackedRetry := 0 } }
      (.acked segment.ack tcp.unackedSeq tcp.unacked.length)
  else host

/-- The segment with which the client acknowledges what it has. -/
def GmTcp.ackSegment (tcp : GmTcp) : GmSegment :=
  { seq := tcp.seq, ack := tcp.ack, flags := gmTcpFlagAck, payload := [] }

/-- The payload part of `gm_tcp_input` up to the acknowledgement it sends. -/
def gmTcpAccept (segment : GmSegment) (host : GmHost) : GmHost :=
  if segment.seq = host.tcp.ack then
    match gmTcpAppend segment.payload host.tcp with
    | (false, tcp) => { host with tcp := tcp }
    | (true, tcp) =>
      GmHost.record
        { host with
          tcp := { tcp with
            ack := tcp.ack + UInt32.ofNat segment.payload.length } }
        (.accepted segment.payload)
  else host

/-- The payload part of `gm_tcp_input`. -/
def gmTcpReceive (segment : GmSegment) (host : GmHost) : GmHost :=
  if segment.payload = [] then host
  else
    let host := gmTcpAccept segment host
    (gmTcpSegment host.tcp.ackSegment host).2

/-- The FIN part of `gm_tcp_input`. -/
def gmTcpFinish (segment : GmSegment) (host : GmHost) : GmHost :=
  if segment.has gmTcpFlagFin then
    let host :=
      if segment.seq + UInt32.ofNat segment.payload.length = host.tcp.ack then
        { host with tcp := { host.tcp with ack := host.tcp.ack + 1 } }
      else host
    let host := (gmTcpSegment host.tcp.ackSegment host).2
    let host := host.setState .closed
    { host with tcp := { host.tcp with unacked := [] } }
  else host

/-- The handshake part of `gm_tcp_input`. -/
def gmTcpHandshake (segment : GmSegment) (host : GmHost) : GmHost :=
  if segment.ack ≠ host.tcp.seq + 1 then host
  else
    let host := { host with
      tcp := { host.tcp with
        seq := host.tcp.seq + 1
        ack := segment.seq + 1 } }
    match gmTcpSegment host.tcp.ackSegment host with
    | (false, host) => host
    | (true, host) => host.setState .established

/-- `gm_tcp_input` after validation. -/
def gmTcpHandle (segment : GmSegment) (host : GmHost) : GmHost :=
  let host := GmHost.record
    { host with tcp := { host.tcp with rxCount := host.tcp.rxCount + 1 } }
    (.arrived segment)
  if segment.has gmTcpFlagRst then
    let host := host.setState .reset
    { host with tcp := { host.tcp with unacked := [] } }
  else if host.tcp.state = .syn ∧
      segment.flags &&& (gmTcpFlagSyn ||| gmTcpFlagAck) =
        gmTcpFlagSyn ||| gmTcpFlagAck then
    gmTcpHandshake segment host
  else if host.tcp.state ≠ .established ∧ host.tcp.state ≠ .fin then host
  else
    gmTcpFinish segment (gmTcpReceive segment (gmTcpAcknowledge segment host))

/-- `gm_tcp_input`. -/
def gmTcpInput (packet : GmPacket) (host : GmHost) : GmHost :=
  match gmTcpDecode host.tcp.dst host.config.ip host.tcp.dstPort
      host.tcp.srcPort packet.src packet.data with
  | none => host
  | some segment => gmTcpHandle segment host

/-- The segment that carries the outstanding payload. -/
def GmTcp.unackedSegment (tcp : GmTcp) : GmSegment :=
  { seq := tcp.unackedSeq
    ack := tcp.ack
    flags := gmTcpFlagAck ||| gmTcpFlagPsh
    payload := tcp.unacked }

/-- `gm_tcp_poll`. -/
def gmTcpPoll (host : GmHost) : GmHost :=
  let tcp := host.tcp
  if tcp.state ≠ .established ∨ tcp.unacked = [] then host
  else if host.ticks - tcp.unackedTick < 50 then host
  else if 5 ≤ tcp.unackedRetry then
    let host := host.setState .reset
    { host with tcp := { host.tcp with unacked := [] } }
  else
    let host := { host with
      tcp := { tcp with
        unackedRetry := tcp.unackedRetry + 1
        unackedTick := host.ticks } }
    (gmTcpSegment host.tcp.unackedSegment host).2

/-- `gm_net_poll`, as far as TCP is concerned. -/
def gmNetPoll (packets : List GmPacket) (host : GmHost) : GmHost :=
  packets.foldl (fun host packet => gmTcpInput packet host) host

/-- `gm_pump`.  Only the timer is unmasked, so `hlt` ends with a tick. -/
def gmPump (host : GmHost) : GmHost :=
  let input := host.env.pumps host.pumped
  let host := gmTcpPoll
    (gmNetPoll input.packets { host with pumped := host.pumped + 1 })
  { host with ticks := host.ticks + 1 + input.idleTicks }

/-- `gm_arp_lookup` of the next hop in `gm_net_prepare`. -/
def gmArpLookup (host : GmHost) : Bool × GmHost :=
  (host.env.arpKnown host.lookups, { host with lookups := host.lookups + 1 })

/-- The loop of `gm_net_prepare`.  Every turn takes a tick, so `timeout` turns
of fuel never run out. -/
def gmNetPrepareLoop (start timeout : Nat) : Nat → GmHost → Bool × GmHost
  | 0, host => (false, host)
  | fuel + 1, host =>
    if host.ticks - start < timeout then
      match gmArpLookup (gmPump host) with
      | (true, host) => (true, host)
      | (false, host) => gmNetPrepareLoop start timeout fuel host
    else (false, host)

/-- `gm_net_prepare`. -/
def gmNetPrepare (timeout : Nat) (host : GmHost) : Bool × GmHost :=
  let online := host.env.online host.prepared
  let host := { host with prepared := host.prepared + 1 }
  if online = false then (false, host)
  else
    match gmArpLookup host with
    | (true, host) => (true, host)
    | (false, host) => gmNetPrepareLoop host.ticks timeout timeout host

/-- The waiting loop of `gm_tcp_connect`.  `last` lies in the past of the clock
at first, so it is an integer. -/
def gmTcpConnectLoop (start timeout : Nat) :
    Nat → Int → Nat → GmHost → Bool × GmHost
  | 0, _, _, host => (false, host.setState .closed)
  | fuel + 1, last, retry, host =>
    if host.ticks - start < timeout then
      let resend := 50 ≤ (host.ticks : Int) - last
      if resend ∧ 5 ≤ retry then (false, host.setState .closed)
      else
        let attempt : Bool × GmHost :=
          if resend then
            gmTcpSegment
              { seq := host.tcp.seq
                ack := 0
                flags := gmTcpFlagSyn
                payload := [] } host
          else (true, host)
        match attempt with
        | (false, host) => (false, host)
        | (true, sent) =>
          let last := if resend then (sent.ticks : Int) else last
          let retry := if resend then retry + 1 else retry
          let host := gmPump sent
          if host.tcp.state = .established then (true, host)
          else if host.tcp.state = .reset then
            (false, host.setState .closed)
          else gmTcpConnectLoop start timeout fuel last retry host
    else (false, host.setState .closed)

/-- The assignments of `gm_tcp_connect` that start a new connection. -/
def gmTcpOpen (dst : List UInt8) (port : UInt16) (host : GmHost) : GmHost :=
  let tcp := host.tcp
  GmHost.record
    { host with
      tcp := { tcp with
        dst := dst
        srcPort := tcp.nextPort
        nextPort := tcp.nextPort + 1
        dstPort := port
        seq := tcp.nextSeq
        nextSeq := tcp.nextSeq + 0x1000
        ack := 0
        rxHead := 0
        rxLen := 0
        unacked := []
        state := .syn } }
    (.opened tcp.nextSeq)

/-- `gm_tcp_connect`. -/
def gmTcpConnect (dst : List UInt8) (port : UInt16) (timeout : Nat)
    (host : GmHost) : Bool × GmHost :=
  match gmNetPrepare timeout host with
  | (false, host) => (false, host)
  | (true, host) =>
    let host := gmTcpOpen dst port host
    gmTcpConnectLoop host.ticks timeout timeout
      ((host.ticks : Int) - timeout) 0 host

/-- The waits of `gm_tcp_send` and `gm_tcp_close` for the outstanding
payload. -/
def gmTcpSettle (start timeout : Nat) : Nat → GmHost → GmHost
  | 0, host => host
  | fuel + 1, host =>
    if host.tcp.unacked ≠ [] ∧ host.ticks - start < timeout then
      gmTcpSettle start timeout fuel (gmPump host)
    else host

/-- Give up a connection whose payload stays unacknowledged. -/
def gmTcpAbandon (host : GmHost) : GmHost :=
  let host := host.setState .reset
  { host with tcp := { host.tcp with unacked := [] } }

/-- The first transmission of a payload in `gm_tcp_send`. -/
def gmTcpHand (data : List UInt8) (host : GmHost) : Bool × GmHost :=
  let host := { host with
    tcp := { host.tcp with
      unacked := data
      unackedSeq := host.tcp.seq
      unackedTick := host.ticks
      unackedRetry := 0 } }
  match gmTcpSegment host.tcp.unackedSegment host with
  | (false, host) =>
    (false, { host with tcp := { host.tcp with unacked := [] } })
  | (true, host) =>
    (true, { host with
      tcp := { host.tcp with
        seq := host.tcp.seq + UInt32.ofNat data.length } })

/-- The end of `gm_tcp_send`: wait for the acknowledgement. -/
def gmTcpConfirm (timeout : Nat) (host : GmHost) : Bool × GmHost :=
  let host := gmTcpSettle host.ticks timeout timeout host
  if host.tcp.unacked ≠ [] then (false, gmTcpAbandon host)
  else (host.tcp.state = .established, host)

/-- `gm_tcp_send`. -/
def gmTcpSend (data : List UInt8) (timeout : Nat) (host : GmHost) :
    Bool × GmHost :=
  if host.tcp.state ≠ .established ∨ data = [] ∨ gmTcpTxMax < data.length then
    (false, host)
  else
    let host := gmTcpSettle host.ticks timeout timeout host
    if host.tcp.unacked ≠ [] then (false, gmTcpAbandon host)
    else
      match gmTcpHand data host with
      | (false, host) => (false, host)
      | (true, host) => gmTcpConfirm timeout host

/-- `gm_tcp_read`. -/
def gmTcpRead (max : Nat) (host : GmHost) : List UInt8 × GmHost :=
  if max = 0 then ([], host)
  else
    let tcp := host.tcp
    let take := min tcp.rxLen max
    let first := min take (gmTcpRxSize - tcp.rxHead)
    let bytes :=
      (List.range first).map (fun offset => tcp.rx (tcp.rxHead + offset)) ++
        (List.range (take - first)).map tcp.rx
    let rxLen := tcp.rxLen - take
    let rxHead := (tcp.rxHead + take) % gmTcpRxSize
    (bytes, GmHost.record
      { host with
        tcp := { tcp with
          rxHead := if rxLen = 0 then 0 else rxHead
          rxLen := rxLen } }
      (.read bytes))

/-- `gm_tcp_drop`. -/
def gmTcpDrop (host : GmHost) : GmHost :=
  GmHost.record
    { host with tcp := { host.tcp with rxHead := 0, rxLen := 0 } }
    (.dropped host.tcp.buffered)

/-- `gm_tcp_connected`. -/
def gmTcpConnected (host : GmHost) : Bool := host.tcp.state = .established

/-- `gm_tcp_close`. -/
def gmTcpClose (host : GmHost) : GmHost :=
  if host.tcp.state ≠ .established then host
  else
    let host := gmTcpSettle host.ticks 100 100 host
    if host.tcp.unacked ≠ [] then host
    else
      match gmTcpSegment
          { seq := host.tcp.seq
            ack := host.tcp.ack
            flags := gmTcpFlagFin ||| gmTcpFlagAck
            payload := [] } host with
      | (false, host) => host
      | (true, host) =>
        GmHost.setState
          { host with tcp := { host.tcp with seq := host.tcp.seq + 1 } } .fin

/-- A packet from the default server to the first connection of a client with
the default configuration.  A payload that fits no packet is left out. -/
def serverPacket (seq ack : UInt32) (flags : UInt8) (payload : List UInt8) :
    GmPacket :=
  .ofSegment [10, 0, 2, 2] [10, 0, 2, 15] 7070 40000
    { seq := seq
      ack := ack
      flags := flags
      payload := payload.take gmNetMtu } (List.length_take_le _ _)

end Gmker.Net
