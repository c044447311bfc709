import Gmker.Link.Ethernet

/-!
# A station

The frame layer together with the TCP connection above it: what arriving frames
do, and the calls of `net.c` that send and wait.  Each segment that the TCP
connection sends, also while it takes a packet in, goes down to the device.
-/

namespace Gmker.Link

open Net

/-- What one `gm_net_poll` meets, and how long `hlt` sleeps afterwards beyond
the tick that ends it. -/
structure GmPolled where
  frames : List (List UInt8) := []
  /-- `gm_virtio_net_poll` gives up after these frames. -/
  failed : Bool := false
  idleTicks : Nat := 0

/-- The kernel's network code with the frames that will arrive. -/
structure GmStation where
  net : GmNet
  host : GmHost
  arrivals : Nat → GmPolled := fun _ => {}

namespace GmStation

def withNet (station : GmStation) (net : GmNet) : GmStation :=
  { station with net := net }

def withHost (station : GmStation) (host : GmHost) : GmStation :=
  { station with host := host }

/-- What `gm_ipv4_send` will answer the TCP connection: the next hop is known,
and the device takes the frames one after the other. -/
def sendOk (station : GmStation) (sends : Nat) : Bool :=
  let net := station.net
  (gmArpLookup (gmNextHop (loadIp station.host.tcp.dst 0) net.config)
      net).isSome &&
    net.linkOk (net.frames.length + (sends - station.host.sends))

/-- The TCP connection on top of the frame layer. -/
def linked (station : GmStation) : GmHost :=
  { station.host with
    env := { station.host.env with sendOk := station.sendOk } }

/-- The call of `gm_ipv4_send` for a segment that is sent. -/
def tcpOutput (station : GmStation) (net : GmNet) : GmNetEvent → GmNet
  | .sent segment _ =>
    let tcp := station.host.tcp
    (gmIpv4Send (loadIp tcp.dst 0) gmProtoTcp
      (gmTcpPacket station.host.config.ip tcp.dst tcp.srcPort tcp.dstPort
        segment) net).2
  | _ => net

/-- The TCP connection has gone on; what it has sent passes the frame layer. -/
def transmit (station : GmStation) (host : GmHost) : GmStation :=
  { station with
    net := (host.log.drop station.host.log.length).foldl station.tcpOutput
      station.net
    host := { host with env := station.host.env } }

end GmStation

/-! ## Arriving frames -/

/-- `gm_ipv4_input`. -/
def gmIpv4Input (datagram : GmDatagram) (station : GmStation) : GmStation :=
  if datagram.protocol = gmProtoIcmp then
    station.withNet (gmIcmpInput datagram.src datagram.data station.net)
  else if datagram.protocol = gmProtoTcp then
    station.transmit (gmTcpInput
      ⟨datagram.src.val, datagram.data, datagram.bounded⟩ station.linked)
  else if datagram.protocol = gmProtoUdp then
    station.withNet (gmUdpInput datagram.src datagram.data station.net)
  else station

/-- `gm_eth_input`, with `gm_ipv4_packet`. -/
def gmEthInput (frame : List UInt8) (station : GmStation) : GmStation :=
  if frame.length < 14 then station
  else
    let type := ((frame.getD 12 0).toUInt16 <<< 8) |||
      (frame.getD 13 0).toUInt16
    if type = gmEthArp then
      station.withNet (gmArpInput (frame.drop 14) station.net)
    else if type = gmEthIpv4 then
      match gmIpv4Decode station.net.config (frame.drop 14) with
      | none => station
      | some datagram => gmIpv4Input datagram station
    else station

/-- `gm_net_poll` with the frames it finds. -/
def gmNetPoll (polled : GmPolled) (station : GmStation) : GmStation :=
  if station.net.online = false then station
  else
    let station := polled.frames.foldl
      (fun station frame => gmEthInput frame (station.withNet
        { station.net with rxPackets := station.net.rxPackets + 1 })) station
    if polled.failed then station.withNet { station.net with online := false }
    else station

/-- `gm_pump`. -/
def gmPump (station : GmStation) : GmStation :=
  let polled := station.arrivals station.host.pumped
  let station := gmNetPoll polled (station.withHost
    { station.host with pumped := station.host.pumped + 1 })
  let station := station.transmit (gmTcpPoll station.linked)
  station.withHost { station.host with
    ticks := station.host.ticks + 1 + polled.idleTicks }

/-! ## Calls -/

/-- `gm_tcp_segment` down to the device. -/
def gmTcpSegment (segment : GmSegment) (station : GmStation) :
    Bool × GmStation :=
  match Net.gmTcpSegment segment station.linked with
  | (ok, host) => (ok, station.transmit host)

/-- The loop of `gm_net_prepare`.  Every turn takes a tick, so `timeout` turns
of fuel never run out.  `last` lies in the past of the clock at first, so it is
an integer. -/
def gmNetPrepareLoop (hop : GmIp) (start timeout : Nat) :
    Nat → Int → GmStation → Bool × GmStation
  | 0, _, station => (false, station)
  | fuel + 1, last, station =>
    if station.host.ticks - start < timeout then
      let asks : Bool := 10 ≤ (station.host.ticks : Int) - last
      let last := if asks then (station.host.ticks : Int) else last
      let station := gmPump (if asks then
        station.withNet (gmArpRequest hop station.net) else station)
      if (gmArpLookup hop station.net).isSome then (true, station)
      else gmNetPrepareLoop hop start timeout fuel last station
    else (false, station)

/-- `gm_net_prepare`. -/
def gmNetPrepare (dst : GmIp) (timeout : Nat) (station : GmStation) :
    Bool × GmStation :=
  let hop := gmNextHop dst station.net.config
  if station.net.online = false then (false, station)
  else if (gmArpLookup hop station.net).isSome then (true, station)
  else
    gmNetPrepareLoop hop station.host.ticks timeout timeout
      (station.host.ticks - timeout) station

/-- The UDP header and payload, with a given checksum field. -/
def gmUdpBytes (srcPort dstPort : UInt16) (payload : List UInt8)
    (checksum : UInt16) : List UInt8 :=
  store16 (gmSwap16 srcPort) ++ store16 (gmSwap16 dstPort) ++
    store16 (gmSwap16 (UInt16.ofNat (gmUdpHeaderSize + payload.length))) ++
    store16 (gmSwap16 checksum) ++ payload

/-- The packet that `gm_udp_exchange` hands to the IPv4 layer. -/
def gmUdpPacket (src dst : GmIp) (srcPort dstPort : UInt16)
    (payload : List UInt8) : List UInt8 :=
  let checksum := gmUdpChecksum src dst (gmUdpBytes srcPort dstPort payload 0)
  gmUdpBytes srcPort dstPort payload (if checksum ≠ 0 then checksum else 0xffff)

/-- The variables of an exchange that starts. -/
def GmUdp.opened (udp : GmUdp) (dst : GmIp) (port : UInt16) : GmUdp :=
  { peer := dst
    reply := []
    localPort := udp.nextPort
    remotePort := port
    nextPort :=
      if gmUdpPortLast ≤ udp.nextPort then gmUdpPortFirst else udp.nextPort + 1
    active := true }

/-- The waiting loop of `gm_udp_exchange`; every turn takes a tick. -/
def gmUdpWait (start timeout : Nat) : Nat → GmStation → GmStation
  | 0, station => station
  | fuel + 1, station =>
    if station.host.ticks - start < timeout ∧ station.net.udp.reply = [] then
      gmUdpWait start timeout fuel (gmPump station)
    else station

/-- `gm_udp_exchange` from `gm_net_prepare` up to the transmission. -/
def gmUdpRequest (dst : GmIp) (port : UInt16) (tx : List UInt8)
    (net : GmNet) : Bool × GmNet :=
  let udp := net.udp.opened dst port
  gmIpv4Send dst gmProtoUdp
    (gmUdpPacket net.config.ip dst udp.localPort port tx)
    { net with udp := udp }

/-- The assignment that ends an exchange without a reply. -/
def GmUdp.stopped (udp : GmUdp) : GmUdp := { udp with active := false }

/-- The end of `gm_udp_exchange`, behind the waiting loop. -/
def gmUdpCollect (rxMax : Nat) (station : GmStation) :
    List UInt8 × GmStation :=
  let reply := station.net.udp.reply
  (if rxMax < reply.length then [] else reply,
    station.withNet
      { station.net with
        udp := { station.net.udp with active := false, reply := [] } })

/-- `gm_udp_exchange`: the reply, which is empty for a result of zero. -/
def gmUdpExchange (dst : GmIp) (port : UInt16) (tx : List UInt8)
    (rxMax timeout : Nat) (station : GmStation) : List UInt8 × GmStation :=
  if port = 0 ∨ gmUdpMax < tx.length ∨ gmUdpMax < rxMax ∨ timeout = 0 then
    ([], station)
  else if station.net.udp.active then ([], station)
  else
    match gmNetPrepare dst timeout station with
    | (false, station) => ([], station)
    | (true, station) =>
      match gmUdpRequest dst port tx station.net with
      | (false, net) =>
        ([], station.withNet { net with udp := net.udp.stopped })
      | (true, net) =>
        gmUdpCollect rxMax (gmUdpWait station.host.ticks timeout timeout
          (station.withNet net))

/-- The echo request of `gm_ping`, with a given checksum field. -/
def gmPingPacket (seq checksum : UInt16) : List UInt8 :=
  [(8 : UInt8), 0, (checksum >>> 8).toUInt8, checksum.toUInt8, 0x47, 0x4d,
    (seq >>> 8).toUInt8, seq.toUInt8] ++ ascii "gmker 3.2 ping" ++ [0, 0]

/-- The waiting loop of `gm_ping`; every turn takes a tick. -/
def gmPingWait (start timeout : Nat) : Nat → GmStation → Bool × GmStation
  | 0, station => (false, station)
  | fuel + 1, station =>
    if station.host.ticks - start < timeout then
      let station := gmPump station
      if station.net.pingReply = station.net.pingSeq then (true, station)
      else gmPingWait start timeout fuel station
    else (false, station)

/-- `gm_ping` from `gm_net_prepare` up to the transmission. -/
def gmPingRequest (dst : GmIp) (net : GmNet) : Bool × GmNet :=
  let seq := net.pingSeq + 1
  gmIpv4Send dst gmProtoIcmp
    (gmPingPacket seq (gmChecksum (gmPingPacket seq 0)))
    { net with pingSeq := seq, pingReply := 0 }

/-- `gm_ping`. -/
def gmPing (dst : GmIp) (timeout : Nat) (station : GmStation) :
    Bool × GmStation :=
  if dst = station.net.config.ip then (true, station)
  else
    match gmNetPrepare dst timeout station with
    | (false, station) => (false, station)
    | (true, station) =>
      match gmPingRequest dst station.net with
      | (false, net) => (false, station.withNet net)
      | (true, net) =>
        gmPingWait station.host.ticks timeout timeout
          (station.withNet net)

end Gmker.Link
