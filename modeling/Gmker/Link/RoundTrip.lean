import Gmker.Link.Arrivals
import Gmker.Link.Decoding

/-!
# From one station to another

A frame that one station hands to its device is taken apart by another one: the
TCP segment, the UDP payload or the ICMP message arrives as it was sent, from
the address and the ports it was sent from, and without the padding of short
frames.
-/

namespace Gmker.Link

open Net

variable {station sender receiver : GmStation}

/-! ## A frame on its way -/

theorem GmMac.exists_bytes (mac : GmMac) :
    ∃ first second third fourth fifth sixth,
      mac.val = [first, second, third, fourth, fifth, sixth] := by
  obtain ⟨bytes, length⟩ := mac
  match bytes, length with
  | [first, second, third, fourth, fifth, sixth], _ =>
    exact ⟨first, second, third, fourth, fifth, sixth, rfl⟩

/-- An IPv4 frame has the packet behind its header, and zeros behind a short
packet. -/
theorem gmEthFrame_packet (dst mac : GmMac) (packet : List UInt8) :
    ∃ padding,
      padding = List.replicate (60 - (14 + packet.length)) 0 ∧
      (gmEthFrame dst mac gmEthIpv4 packet).length =
        14 + packet.length + padding.length ∧
      frameType (gmEthFrame dst mac gmEthIpv4 packet) = gmEthIpv4 ∧
      (gmEthFrame dst mac gmEthIpv4 packet).drop 14 = packet ++ padding := by
  obtain ⟨d1, d2, d3, d4, d5, d6, dstBytes⟩ := dst.exists_bytes
  obtain ⟨m1, m2, m3, m4, m5, m6, macBytes⟩ := mac.exists_bytes
  have header : (dst.val ++ mac.val ++
      [(gmEthIpv4 >>> 8).toUInt8, gmEthIpv4.toUInt8] ++ packet).length =
        14 + packet.length := by
    rw [dstBytes, macBytes]
    simp only [List.length_append, List.length_cons, List.length_nil]
  have frame : gmEthFrame dst mac gmEthIpv4 packet =
      d1 :: d2 :: d3 :: d4 :: d5 :: d6 :: m1 :: m2 :: m3 :: m4 :: m5 :: m6 ::
        (gmEthIpv4 >>> 8).toUInt8 :: gmEthIpv4.toUInt8 ::
          (packet ++ List.replicate (60 - (14 + packet.length)) 0) := by
    rw [gmEthFrame, header, dstBytes, macBytes]
    rfl
  refine ⟨_, rfl, ?_, ?_, ?_⟩
  · rw [frame]
    simp only [List.length_cons, List.length_append]
    omega
  · rw [frame]
    change ((gmEthIpv4 >>> 8).toUInt8.toUInt16 <<< 8) |||
      gmEthIpv4.toUInt8.toUInt16 = gmEthIpv4
    decide
  · rw [frame]
    rfl

/-- The frame was built by a sender for a datagram, and every receiver with the
destination's address finds exactly that datagram in it. -/
structure Carries (frame : List UInt8) (src dst : GmIp) (protocol : UInt8)
    (data : List UInt8) : Prop where
  atLeast : 60 ≤ frame.length
  atMost : frame.length ≤ gmFrameSize
  found : ∀ config : GmIpConfig, config.ip = dst →
    ∃ bounded, frameDatagram config frame = some ⟨src, protocol, data, bounded⟩

section Send

variable {net : GmNet} {dst : GmIp}
  (known : gmArpLookup (gmNextHop dst net.config) net ≠ none)
  (protocol : UInt8) {data : List UInt8}
  (short : data.length + gmIpv4HeaderSize ≤ gmNetMtu)
include known short

/-- What `gm_ipv4_send` hands to the device. -/
theorem gmIpv4Send_carries :
    ∃ frame, (gmIpv4Send dst protocol data net).2.frames =
        net.frames ++ [frame] ∧
      Carries frame net.config.ip dst protocol data := by
  obtain ⟨mac, resolved⟩ := Option.ne_none_iff_exists'.mp known
  generalize packetEq :
    gmIpv4Packet net.config.ip dst protocol (net.ipId + 1) data = packet
  have size : packet.length = 20 + data.length := by
    rw [← packetEq, gmIpv4Packet, List.length_append, gmIpv4Header_length]
  obtain ⟨padding, zeros, length, type, content⟩ :=
    gmEthFrame_packet mac net.mac packet
  simp only [gmIpv4HeaderSize, gmNetMtu] at short
  have missing : padding.length = 60 - (14 + packet.length) := by
    rw [zeros, List.length_replicate]
  refine ⟨gmEthFrame mac net.mac gmEthIpv4 packet, ?_, ?_⟩
  · have fits : ¬gmFrameSize < packet.length + 14 := by
      simp only [gmFrameSize]
      omega
    unfold gmIpv4Send
    rw [if_neg (by simp only [gmIpv4HeaderSize, gmNetMtu]; omega), resolved]
    simp only [packetEq]
    unfold gmEthSend
    rw [if_neg fits]
    simp only
    split
    · rfl
    · rfl
  · refine ⟨by omega, by simp only [gmFrameSize]; omega, ?_⟩
    rintro config rfl
    have bounded : data.length < 2 ^ 16 := by omega
    refine ⟨bounded, ?_⟩
    rw [frameDatagram, if_neg (by rw [type]; simp; omega), content, ← packetEq]
    exact gmIpv4Decode_packet config _ _ _ _ _ bounded (by omega)

end Send

/-! ## TCP -/

/-- The receiver's connection is the other end of the sender's. -/
structure TcpMirror (sender receiver : GmStation) : Prop where
  senderIp : sender.host.config.ip = sender.net.config.ip.val
  receiverIp : receiver.host.config.ip = receiver.net.config.ip.val
  sends : sender.host.tcp.dst = receiver.net.config.ip.val
  hears : receiver.host.tcp.dst = sender.net.config.ip.val
  sendsPort : sender.host.tcp.dstPort = receiver.host.tcp.srcPort
  hearsPort : receiver.host.tcp.dstPort = sender.host.tcp.srcPort

/-- The frame of a segment reaches `gm_tcp_input` on the other side, which
handles the segment. -/
def TcpCrosses (sender receiver : GmStation) (segment : GmSegment) : Prop :=
  ∃ frame datagram,
    (gmTcpSegment segment sender).2.net.frames =
      sender.net.frames ++ [frame] ∧
    60 ≤ frame.length ∧
    frameDatagram receiver.net.config frame = some datagram ∧
    datagram.src = sender.net.config.ip ∧
    gmSwap16 (load16 datagram.data 0) = sender.host.tcp.srcPort ∧
    gmSwap16 (load16 datagram.data 2) = sender.host.tcp.dstPort ∧
    gmEthInput frame receiver =
      receiver.transmit (gmTcpHandle segment receiver.linked)

theorem loadIp_self (ip : GmIp) : loadIp ip.val 0 = ip :=
  loadIp_eq [] [] (by simp) rfl

/-- The answer to a packet that fits depends on the table and the device. -/
theorem gmIpv4Send_taken {data : List UInt8} (dst : GmIp) (protocol : UInt8)
    (net : GmNet) (fits : data.length + gmIpv4HeaderSize ≤ gmNetMtu) :
    (gmIpv4Send dst protocol data net).1 =
      ((gmArpLookup (gmNextHop dst net.config) net).isSome &&
        net.linkOk net.frames.length) := by
  unfold gmIpv4Send
  rw [if_neg (Nat.not_lt.mpr fits)]
  cases gmArpLookup (gmNextHop dst net.config) net with
  | none => rfl
  | some mac =>
    have size : ¬gmFrameSize < (gmIpv4Packet net.config.ip dst protocol
        (net.ipId + 1) data).length + 14 := by
      rw [gmIpv4Packet, List.length_append, gmIpv4Header_length]
      simp only [gmIpv4HeaderSize, gmNetMtu, gmFrameSize] at fits ⊢
      omega
    simp only [gmEthSend, if_neg size]
    cases net.linkOk net.frames.length with
    | false => rfl
    | true => rfl

/-- `gm_tcp_segment` hands a segment that fits to the frame layer, and answers
what the frame layer answers. -/
theorem gmTcpSegment_sends {segment : GmSegment} {packet : List UInt8}
    (packetEq : gmTcpPacket station.host.config.ip station.host.tcp.dst
      station.host.tcp.srcPort station.host.tcp.dstPort segment = packet)
    (short : ¬gmNetMtu < gmTcpHeaderSize + segment.payload.length)
    (fits : packet.length + gmIpv4HeaderSize ≤ gmNetMtu) :
    let sent := gmIpv4Send (loadIp station.host.tcp.dst 0) gmProtoTcp packet
      station.net
    (gmTcpSegment segment station).1 = sent.1 ∧
      (gmTcpSegment segment station).2.net = sent.2 := by
  have taken := gmIpv4Send_taken (loadIp station.host.tcp.dst 0) gmProtoTcp
    station.net fits
  have answer : station.sendOk station.host.sends =
      (gmIpv4Send (loadIp station.host.tcp.dst 0) gmProtoTcp packet
        station.net).1 := by
    rw [taken, GmStation.sendOk, Nat.sub_self, Nat.add_zero]
  simp only [gmTcpSegment, Net.gmTcpSegment, if_neg short, Net.gmIpv4Send,
    GmStation.linked, packetEq, if_neg (Nat.not_lt.mpr fits), answer]
  cases (gmIpv4Send (loadIp station.host.tcp.dst 0) gmProtoTcp packet
    station.net).1 with
  | false =>
    simp [GmStation.transmit, GmHost.record, GmStation.tcpOutput, packetEq]
  | true =>
    simp [GmStation.transmit, GmHost.record, GmStation.tcpOutput, packetEq]

theorem gmTcpSegment_crosses (mirror : TcpMirror sender receiver)
    (known : gmArpLookup (gmNextHop receiver.net.config.ip sender.net.config)
      sender.net ≠ none) {segment : GmSegment}
    (short : segment.payload.length ≤ gmTcpTxMax) :
    TcpCrosses sender receiver segment := by
  simp only [gmTcpTxMax] at short
  have mtu : segment.payload.length ≤ gmNetMtu := by
    simp only [gmNetMtu]
    omega
  generalize packetEq : gmTcpPacket sender.net.config.ip.val
    receiver.net.config.ip.val sender.host.tcp.srcPort
      sender.host.tcp.dstPort segment = packet
  have size : packet.length = 20 + segment.payload.length := by
    rw [← packetEq]
    exact gmTcpBytes_length _ _ _ _
  have fits : packet.length + gmIpv4HeaderSize ≤ gmNetMtu := by
    simp only [gmIpv4HeaderSize, gmNetMtu]
    omega
  obtain ⟨frame, sent, carries⟩ := gmIpv4Send_carries known gmProtoTcp fits
  obtain ⟨bounded, found⟩ := carries.found receiver.net.config rfl
  have decoded : gmTcpDecode sender.net.config.ip.val
      receiver.net.config.ip.val sender.host.tcp.srcPort
        sender.host.tcp.dstPort sender.net.config.ip.val packet =
          some segment := by
    rw [← packetEq]
    exact gmTcpDecode_packet _ _ segment sender.net.config.ip
      receiver.net.config.ip mtu
  have source : gmSwap16 (load16 packet 0) = sender.host.tcp.srcPort := by
    rw [← packetEq]
    exact gmSwap16_load16 rfl
  have destination : gmSwap16 (load16 packet 2) =
      sender.host.tcp.dstPort := by
    rw [← packetEq]
    exact gmSwap16_load16 rfl
  refine ⟨frame, _, ?_, carries.atLeast, found, rfl, source, destination, ?_⟩
  · have room : ¬gmNetMtu < gmTcpHeaderSize + segment.payload.length := by
      simp only [gmNetMtu, gmTcpHeaderSize]
      omega
    have down := gmTcpSegment_sends
      (by rw [mirror.senderIp, mirror.sends]; exact packetEq) room fits
    rw [down.2, mirror.sends, loadIp_self]
    exact sent
  · have other : ¬gmProtoTcp = gmProtoIcmp := by decide
    have linked : gmTcpInput ⟨sender.net.config.ip.val, packet, bounded⟩
        receiver.linked = gmTcpHandle segment receiver.linked := by
      simp only [gmTcpInput, GmStation.linked, mirror.hears,
        mirror.receiverIp, mirror.hearsPort, ← mirror.sendsPort, decoded]
    rw [gmEthInput_datagram found, gmIpv4Input, if_neg other, if_pos rfl,
      linked]

/-! ## UDP -/

/-- The receiver's exchange is the other end of the one that the sender starts
with its next port. -/
structure UdpMirror (sender receiver : GmStation) (port : UInt16) :
    Prop where
  active : receiver.net.udp.active = true
  peer : receiver.net.udp.peer = sender.net.config.ip
  remote : receiver.net.udp.remotePort = sender.net.udp.nextPort
  own : receiver.net.udp.localPort = port

/-- `gm_udp_exchange` accepts the call. -/
structure UdpStarts (station : GmStation) (port : UInt16)
    (payload : List UInt8) (rxMax timeout : Nat) : Prop where
  port : port ≠ 0
  payload : payload.length ≤ gmUdpMax
  room : rxMax ≤ gmUdpMax
  timeout : timeout ≠ 0
  idle : station.net.udp.active = false
  online : station.net.online = true

/-- The frame of a payload reaches `gm_udp_input` on the other side, which keeps
the payload. -/
def UdpCrosses (sender receiver : GmStation) (port : UInt16)
    (payload : List UInt8) (rxMax timeout : Nat) : Prop :=
  ∃ frame datagram,
    sender.net.frames ++ [frame] <+: (gmUdpExchange receiver.net.config.ip
      port payload rxMax timeout sender).2.net.frames ∧
    60 ≤ frame.length ∧
    frameDatagram receiver.net.config frame = some datagram ∧
    datagram.src = sender.net.config.ip ∧
    gmSwap16 (load16 datagram.data 0) = sender.net.udp.nextPort ∧
    gmSwap16 (load16 datagram.data 2) = port ∧
    gmEthInput frame receiver = receiver.withNet
      { receiver.net with
        udp := { receiver.net.udp with reply := payload } }

theorem gmNetPrepare_known {dst : GmIp} (online : station.net.online = true)
    (known : gmArpLookup (gmNextHop dst station.net.config) station.net ≠ none)
    (timeout : Nat) : gmNetPrepare dst timeout station = (true, station) := by
  unfold gmNetPrepare
  rw [if_neg (by rw [online]; decide),
    if_pos (Option.isSome_iff_ne_none.mpr known)]

/-- The frame of the request is on record when the exchange is over. -/
theorem gmUdpExchange_sends {dst : GmIp} {port : UInt16} {payload : List UInt8}
    {rxMax timeout : Nat}
    (starts : UdpStarts station port payload rxMax timeout)
    (known : gmArpLookup (gmNextHop dst station.net.config) station.net ≠ none) :
    (gmUdpRequest dst port payload station.net).2.frames <+:
      (gmUdpExchange dst port payload rxMax timeout
        station).2.net.frames := by
  unfold gmUdpExchange
  rw [if_neg (by
      rw [not_or, not_or, not_or]
      exact ⟨starts.port, Nat.not_lt.mpr starts.payload,
        Nat.not_lt.mpr starts.room, starts.timeout⟩),
    if_neg (by rw [starts.idle]; decide),
    gmNetPrepare_known starts.online known timeout]
  simp only
  split
  · rename_i sent
    rw [sent]
    exact List.prefix_refl _
  · rename_i net sent
    obtain ⟨count, waited⟩ := gmUdpWait_pumps station.host.ticks timeout
      timeout (station.withNet net)
    rw [sent, waited]
    exact (gmPumps_kept count (station.withNet net)).sent

theorem gmUdpExchange_crosses {port : UInt16} {payload : List UInt8}
    {rxMax timeout : Nat} (mirror : UdpMirror sender receiver port)
    (starts : UdpStarts sender port payload rxMax timeout)
    (known : gmArpLookup (gmNextHop receiver.net.config.ip sender.net.config)
      sender.net ≠ none) (some' : payload ≠ []) :
    UdpCrosses sender receiver port payload rxMax timeout := by
  generalize packetEq : gmUdpPacket sender.net.config.ip
    receiver.net.config.ip sender.net.udp.nextPort port payload = packet
  have short := starts.payload
  simp only [gmUdpMax] at short
  have size : packet.length = 8 + payload.length := by
    rw [← packetEq]
    exact gmUdpBytes_length _ _ _ _
  have begun := gmUdpExchange_sends starts known
  obtain ⟨frame, sent, carries⟩ :=
    gmIpv4Send_carries
      (show gmArpLookup (gmNextHop receiver.net.config.ip sender.net.config)
        { sender.net with
          udp := sender.net.udp.opened receiver.net.config.ip port } ≠ none
        from known) gmProtoUdp
      (show packet.length + gmIpv4HeaderSize ≤ gmNetMtu by
        simp only [gmIpv4HeaderSize, gmNetMtu]
        omega)
  obtain ⟨bounded, found⟩ := carries.found receiver.net.config rfl
  have decoded : gmUdpDecode sender.net.config.ip packet receiver.net =
      some payload := by
    rw [← packetEq]
    exact gmUdpDecode_packet _ _ payload sender.net.config.ip receiver.net
      mirror.active mirror.peer mirror.remote mirror.own some' starts.payload
  have request : (gmUdpRequest receiver.net.config.ip port payload
      sender.net).2.frames = sender.net.frames ++ [frame] := by
    rw [← sent, ← packetEq]
    rfl
  rw [request] at begun
  have source : gmSwap16 (load16 packet 0) = sender.net.udp.nextPort := by
    rw [← packetEq]
    exact gmSwap16_load16 rfl
  have destination : gmSwap16 (load16 packet 2) = port := by
    rw [← packetEq]
    exact gmSwap16_load16 rfl
  refine ⟨frame, _, begun, carries.atLeast, found, rfl, source, destination,
    ?_⟩
  have notIcmp : ¬gmProtoUdp = gmProtoIcmp := by decide
  have notTcp : ¬gmProtoUdp = gmProtoTcp := by decide
  rw [gmEthInput_datagram found, gmIpv4Input, if_neg notIcmp, if_neg notTcp,
    if_pos rfl]
  simp only [gmUdpInput, decoded]

/-! ## ICMP -/

/-- An echo request that `gm_icmp_input` answers. -/
structure IsEchoRequest (message : List UInt8) : Prop where
  atLeast : 8 ≤ message.length
  atMost : message.length + gmIpv4HeaderSize ≤ gmNetMtu
  kind : message.getD 0 0 = 8
  code : message.getD 1 0 = 0
  checksum : gmChecksum message = 0

/-- The frame of the echo reply reaches `gm_icmp_input` on the other side, which
handles the message: the request but for its kind and its checksum. -/
def EchoCrosses (sender receiver : GmStation) (message : List UInt8) :
    Prop :=
  ∃ frame datagram high low,
    (gmIcmpInput receiver.net.config.ip message sender.net).frames =
      sender.net.frames ++ [frame] ∧
    60 ≤ frame.length ∧
    frameDatagram receiver.net.config frame = some datagram ∧
    datagram.src = sender.net.config.ip ∧
    datagram.data = [0, 0, high, low] ++ message.drop 4 ∧
    gmEthInput frame receiver = receiver.withNet
      (gmIcmpHandle sender.net.config.ip datagram.data receiver.net)

theorem gmIcmpInput_crosses
    (known : gmArpLookup (gmNextHop receiver.net.config.ip sender.net.config)
      sender.net ≠ none) {message : List UInt8}
    (request : IsEchoRequest message) :
    EchoCrosses sender receiver message := by
  have atLeast := request.atLeast
  have atMost := request.atMost
  simp only [gmIpv4HeaderSize, gmNetMtu] at atMost
  generalize checksumEq : gmChecksum (gmIcmpReply message 0) = checksum
  generalize replyEq : gmIcmpReply message checksum = reply
  have rest : (message.drop 4).length ≤ gmNetMtu := by
    simp only [List.length_drop, gmNetMtu]
    omega
  have bytes : reply = [(0 : UInt8), 0, (checksum >>> 8).toUInt8,
      checksum.toUInt8] ++ message.drop 4 := by
    rw [← replyEq, gmIcmpReply, request.code]
  have size : reply.length = message.length := by
    rw [bytes, List.length_append, List.length_drop]
    simp only [List.length_cons, List.length_nil]
    omega
  have valid : gmChecksum reply = 0 := by
    rw [bytes]
    apply gmChecksum_message 0 0 (message.drop 4) rest
    rw [← checksumEq, gmIcmpReply, request.code]
    rfl
  obtain ⟨frame, sent, carries⟩ :=
    gmIpv4Send_carries known gmProtoIcmp
      (show reply.length + gmIpv4HeaderSize ≤ gmNetMtu by
        simp only [gmIpv4HeaderSize, gmNetMtu]
        omega)
  obtain ⟨bounded, found⟩ := carries.found receiver.net.config rfl
  refine ⟨frame, _, _, _, ?_, carries.atLeast, found, rfl, bytes, ?_⟩
  · rw [gmIcmpInput, if_neg (by rw [request.checksum]; simp; omega),
      gmIcmpHandle, if_neg (by rw [request.kind]; simp),
      if_neg (by
        rw [request.kind, request.code]
        simp only [gmNetMtu]
        simp
        omega), checksumEq, replyEq]
    exact sent
  · rw [gmEthInput_datagram found, gmIpv4Input, if_pos rfl]
    rw [gmIcmpInput, if_neg (by rw [valid]; simp; omega)]

/-! ## All three -/

/-- The wire round trip: what a station with a known next hop sends reaches the
transport code of the station it is addressed to unchanged. -/
theorem wire_round_trip (sender receiver : GmStation)
    (known : gmArpLookup (gmNextHop receiver.net.config.ip sender.net.config)
      sender.net ≠ none) :
    (TcpMirror sender receiver →
      ∀ segment : GmSegment, segment.payload.length ≤ gmTcpTxMax →
        TcpCrosses sender receiver segment) ∧
    (∀ port payload rxMax timeout,
      UdpMirror sender receiver port →
      UdpStarts sender port payload rxMax timeout → payload ≠ [] →
        UdpCrosses sender receiver port payload rxMax timeout) ∧
    (∀ message, IsEchoRequest message →
      EchoCrosses sender receiver message) := by
  refine ⟨?_, ?_, ?_⟩
  · intro mirror segment short
    exact gmTcpSegment_crosses mirror known short
  · intro port payload rxMax timeout mirror starts some'
    exact gmUdpExchange_crosses mirror starts known some'
  · intro message request
    exact gmIcmpInput_crosses known request

/-- Two stations of one network that know each other. -/
private def leftStation : GmStation :=
  { net := gmArpPut (loadIp [10, 0, 2, 2] 0) (loadMac [2, 0, 0, 0, 0, 2] 0)
      (gmNetInit ⟨loadIp [10, 0, 2, 15] 0, loadIp [255, 255, 255, 0] 0,
        loadIp [10, 0, 2, 2] 0⟩ (some (loadMac [2, 0, 0, 0, 0, 1] 0))
        fun _ => true)
    host :=
      { tcp := { dst := [10, 0, 2, 2], srcPort := 40000, dstPort := 7070 } } }

private def rightNet : GmNet :=
  gmNetInit ⟨loadIp [10, 0, 2, 2] 0, loadIp [255, 255, 255, 0] 0,
    loadIp [10, 0, 2, 15] 0⟩ (some (loadMac [2, 0, 0, 0, 0, 2] 0))
    fun _ => true

private def rightStation : GmStation :=
  { net := { rightNet with
      udp := { rightNet.udp with
        peer := loadIp [10, 0, 2, 15] 0
        localPort := 53
        remotePort := 49152
        active := true } }
    host :=
      { config := { ip := [10, 0, 2, 2] }
        tcp := { dst := [10, 0, 2, 15], srcPort := 7070, dstPort := 40000 } } }

theorem wire_round_trip_pair :
    TcpCrosses leftStation rightStation ⟨7, 9, gmTcpFlagAck, ascii "hello"⟩ ∧
      UdpCrosses leftStation rightStation 53 (ascii "hello") 1024 300 ∧
      EchoCrosses leftStation rightStation [8, 0, 0xf7, 0xff, 0, 0, 0, 0] := by
  have crosses := wire_round_trip leftStation rightStation (by decide +kernel)
  refine ⟨crosses.1 ⟨rfl, rfl, rfl, rfl, rfl, rfl⟩ _ (by decide), ?_, ?_⟩
  · exact crosses.2.1 53 (ascii "hello") 1024 300 ⟨rfl, rfl, rfl, rfl⟩
      ⟨by decide, by decide, by decide, by decide, rfl, rfl⟩ (by decide)
  · exact crosses.2.2 _ ⟨by decide, by decide, rfl, rfl, by decide +kernel⟩

end Gmker.Link
