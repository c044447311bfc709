import Mathlib.Data.List.FinRange
import Mathlib.Logic.Function.Basic
import Gmker.Net.Tcp

/-!
# Frames

The lower half of `net.c`: Ethernet frames, the ARP table and IPv4 packets, from
the calls that build them to the calls that take them apart.  Every frame that
is handed to the device is put on record; whether the device takes it comes from
an outcome stream.
-/

namespace Gmker.Link

open Net

abbrev gmEthArp : UInt16 := 0x0806
abbrev gmEthIpv4 : UInt16 := 0x0800
abbrev gmArpMax : Nat := 8
abbrev gmProtoIcmp : UInt8 := 1
abbrev gmProtoUdp : UInt8 := 17
abbrev gmUdpPortFirst : UInt16 := 49152
abbrev gmUdpPortLast : UInt16 := 65535
abbrev gmUdpMax : Nat := 1024
/-- `sizeof(struct gm_udp_header)`. -/
abbrev gmUdpHeaderSize : Nat := 8
/-- `sizeof(struct gm_arp_packet)`. -/
abbrev gmArpPacketSize : Nat := 28
/-- The size of the buffer `frame`. -/
abbrev gmFrameSize : Nat := 1518

/-- An IPv4 address. -/
abbrev GmIp : Type := { bytes : List UInt8 // bytes.length = 4 }

/-- A hardware address. -/
abbrev GmMac : Type := { bytes : List UInt8 // bytes.length = 6 }

/-- The four bytes at an offset. -/
def loadIp (data : List UInt8) (offset : Nat) : GmIp :=
  ⟨[data.getD offset 0, data.getD (offset + 1) 0, data.getD (offset + 2) 0,
    data.getD (offset + 3) 0], rfl⟩

/-- The six bytes at an offset. -/
def loadMac (data : List UInt8) (offset : Nat) : GmMac :=
  ⟨[data.getD offset 0, data.getD (offset + 1) 0, data.getD (offset + 2) 0,
    data.getD (offset + 3) 0, data.getD (offset + 4) 0,
    data.getD (offset + 5) 0], rfl⟩

def gmIpNone : GmIp := ⟨[0, 0, 0, 0], rfl⟩
def gmIpBroadcast : GmIp := ⟨[255, 255, 255, 255], rfl⟩
def gmMacBroadcast : GmMac := ⟨[255, 255, 255, 255, 255, 255], rfl⟩
def gmMacNone : GmMac := ⟨[0, 0, 0, 0, 0, 0], rfl⟩

/-- An entry of the ARP table that is in use. -/
structure GmArpEntry where
  ip : GmIp
  mac : GmMac

/-- `gm_config`, as far as frames need it. -/
structure GmIpConfig where
  ip : GmIp
  mask : GmIp
  gateway : GmIp

/-- The UDP exchange.  `reply` is the part of `gm_udp_reply` below
`gm_udp_reply_len`. -/
structure GmUdp where
  peer : GmIp
  reply : List UInt8
  localPort : UInt16
  remotePort : UInt16
  nextPort : UInt16
  active : Bool

/-- The static variables of `net.c`, and the device below. -/
structure GmNet where
  config : GmIpConfig
  mac : GmMac
  arp : Fin gmArpMax → Option GmArpEntry
  ipId : UInt16
  pingSeq : UInt16
  pingReply : UInt16
  udp : GmUdp
  rxPackets : Nat
  txPackets : Nat
  online : Bool
  /-- Whether `gm_virtio_net_send` takes a frame. -/
  linkOk : Nat → Bool
  /-- The frames handed to `gm_virtio_net_send`. -/
  frames : List (List UInt8)

/-- `gm_net_init`, with the hardware address of the device it finds. -/
def gmNetInit (config : GmIpConfig) (device : Option GmMac)
    (linkOk : Nat → Bool) : GmNet :=
  { config := config
    mac := device.getD gmMacNone
    arp := fun _ => none
    ipId := 0
    pingSeq := 0
    pingReply := 0
    udp :=
      { peer := gmIpNone
        reply := []
        localPort := 0
        remotePort := 0
        nextPort := gmUdpPortFirst
        active := false }
    rxPackets := 0
    txPackets := 0
    online := device.isSome
    linkOk := linkOk
    frames := [] }

/-- The frame that `gm_eth_send` builds, with zeros up to 60 bytes. -/
def gmEthFrame (dst mac : GmMac) (type : UInt16) (data : List UInt8) :
    List UInt8 :=
  let frame := dst.val ++ mac.val ++ [(type >>> 8).toUInt8, type.toUInt8] ++
    data
  frame ++ List.replicate (60 - frame.length) 0

/-- `gm_eth_send`. -/
def gmEthSend (dst : GmMac) (type : UInt16) (data : List UInt8)
    (net : GmNet) : Bool × GmNet :=
  if gmFrameSize < data.length + 14 then (false, net)
  else
    let taken := net.linkOk net.frames.length
    let net :=
      { net with frames := net.frames ++ [gmEthFrame dst net.mac type data] }
    if taken then (true, { net with txPackets := net.txPackets + 1 })
    else (false, net)

/-! ## ARP -/

theorem gmArpFirst_lt : 0 < gmArpMax := by decide

/-- The entry that is overwritten when none is free. -/
def gmArpFirst : Fin gmArpMax := ⟨0, gmArpFirst_lt⟩

/-- The entry is in use for an address. -/
def GmNet.resolves (net : GmNet) (ip : GmIp) (slot : Fin gmArpMax) : Bool :=
  match net.arp slot with
  | none => false
  | some entry => entry.ip = ip

/-- `gm_arp_put`. -/
def gmArpPut (ip : GmIp) (mac : GmMac) (net : GmNet) : GmNet :=
  let slot :=
    match (List.finRange gmArpMax).find? (net.resolves ip) with
    | some slot => slot
    | none =>
      ((List.finRange gmArpMax).find? fun slot =>
        (net.arp slot).isNone).getD gmArpFirst
  { net with
    arp := Function.update net.arp slot (some { ip := ip, mac := mac }) }

/-- `gm_arp_lookup`. -/
def gmArpLookup (ip : GmIp) (net : GmNet) : Option GmMac :=
  ((List.finRange gmArpMax).find? (net.resolves ip)).bind fun slot =>
    (net.arp slot).map GmArpEntry.mac

/-- `gm_same_subnet`. -/
def gmSameSubnet (left right : GmIp) (config : GmIpConfig) : Bool :=
  List.zipWith (· &&& ·) left.val config.mask.val =
    List.zipWith (· &&& ·) right.val config.mask.val

/-- `gm_next_hop`. -/
def gmNextHop (dst : GmIp) (config : GmIpConfig) : GmIp :=
  if gmSameSubnet config.ip dst config then dst else config.gateway

/-- An ARP packet. -/
def gmArpPacket (op : UInt16) (sha : GmMac) (spa : GmIp) (tha : GmMac)
    (tpa : GmIp) : List UInt8 :=
  store16 (gmSwap16 1) ++ store16 (gmSwap16 gmEthIpv4) ++ [6, 4] ++
    store16 (gmSwap16 op) ++ sha.val ++ spa.val ++ tha.val ++ tpa.val

/-- `gm_arp_request`. -/
def gmArpRequest (ip : GmIp) (net : GmNet) : GmNet :=
  (gmEthSend gmMacBroadcast gmEthArp
    (gmArpPacket 1 net.mac net.config.ip gmMacNone ip) net).2

/-- `gm_arp_reply`, with the sender of the request. -/
def gmArpReply (sha : GmMac) (spa : GmIp) (net : GmNet) : GmNet :=
  (gmEthSend sha gmEthArp
    (gmArpPacket 2 net.mac net.config.ip sha spa) net).2

/-- `gm_arp_input`. -/
def gmArpInput (data : List UInt8) (net : GmNet) : GmNet :=
  if data.length < gmArpPacketSize then net
  else if gmSwap16 (load16 data 0) ≠ 1 ∨
      gmSwap16 (load16 data 2) ≠ gmEthIpv4 ∨ data.getD 4 0 ≠ 6 ∨
      data.getD 5 0 ≠ 4 then net
  else
    let net := gmArpPut (loadIp data 14) (loadMac data 8) net
    if gmSwap16 (load16 data 6) = 1 ∧ loadIp data 24 = net.config.ip then
      gmArpReply (loadMac data 8) (loadIp data 14) net
    else net

/-! ## IPv4 -/

/-- `gm_checksum`. -/
def gmChecksum (data : List UInt8) : UInt16 := gmSumFinish (gmSumAdd 0 data)

/-- `gm_udp_checksum`. -/
def gmUdpChecksum (src dst : GmIp) (data : List UInt8) : UInt16 :=
  let sum := gmSumAdd (gmSumAdd 0 src.val) dst.val
  let sum := sum + gmProtoUdp.toUInt32 + UInt32.ofNat data.length
  gmSumFinish (gmSumAdd sum data)

/-- The IPv4 header of `gm_ipv4_send`, with a given checksum field. -/
def gmIpv4Header (src dst : GmIp) (protocol : UInt8) (id : UInt16)
    (len : Nat) (checksum : UInt16) : List UInt8 :=
  [0x45, 0] ++ store16 (gmSwap16 (UInt16.ofNat (gmIpv4HeaderSize + len))) ++
    store16 (gmSwap16 id) ++ store16 (gmSwap16 0x4000) ++ [64, protocol] ++
    store16 (gmSwap16 checksum) ++ src.val ++ dst.val

/-- The packet that `gm_ipv4_send` hands to the Ethernet layer. -/
def gmIpv4Packet (src dst : GmIp) (protocol : UInt8) (id : UInt16)
    (data : List UInt8) : List UInt8 :=
  gmIpv4Header src dst protocol id data.length
      (gmChecksum (gmIpv4Header src dst protocol id data.length 0)) ++ data

/-- `gm_ipv4_send`. -/
def gmIpv4Send (dst : GmIp) (protocol : UInt8) (data : List UInt8)
    (net : GmNet) : Bool × GmNet :=
  if gmNetMtu < data.length + gmIpv4HeaderSize then (false, net)
  else
    match gmArpLookup (gmNextHop dst net.config) net with
    | none => (false, net)
    | some mac =>
      let id := net.ipId + 1
      gmEthSend mac gmEthIpv4
        (gmIpv4Packet net.config.ip dst protocol id data)
        { net with ipId := id }

/-- What `gm_ipv4_input` is called with. -/
structure GmDatagram where
  src : GmIp
  protocol : UInt8
  data : List UInt8
  bounded : data.length < 2 ^ 16

/-- A length that a header field states fits the field. -/
theorem datagram_bounded (data : List UInt8) (headerLen : Nat)
    (total : UInt16) :
    ((data.drop headerLen).take (total.toNat - headerLen)).length < 2 ^ 16 := by
  have bound := total.toNat_lt
  rw [List.length_take]
  omega

/-- The validation of `gm_ipv4_packet`. -/
def gmIpv4Decode (config : GmIpConfig) (data : List UInt8) :
    Option GmDatagram :=
  let len := data.length
  if len < gmIpv4HeaderSize then none
  else
    let versionIhl := data.getD 0 0
    if versionIhl >>> 4 ≠ 4 ∨ versionIhl &&& 0x0f < 5 then none
    else
      let headerLen := (versionIhl &&& 0x0f).toNat * 4
      let total := gmSwap16 (load16 data 2)
      let fragment := gmSwap16 (load16 data 6)
      if len < headerLen ∨ total.toNat < headerLen ∨ len < total.toNat then none
      else if fragment &&& 0xbfff ≠ 0 then none
      else if gmChecksum (data.take headerLen) ≠ 0 then none
      else if loadIp data 16 ≠ config.ip ∧ loadIp data 16 ≠ gmIpBroadcast then
        none
      else some
        { src := loadIp data 12
          protocol := data.getD 9 0
          data := (data.drop headerLen).take (total.toNat - headerLen)
          bounded := datagram_bounded data headerLen total }

/-! ## UDP and ICMP -/

/-- The validation of `gm_udp_input`: the payload of a datagram for the
exchange. -/
def gmUdpDecode (src : GmIp) (data : List UInt8) (net : GmNet) :
    Option (List UInt8) :=
  let len := data.length
  if net.udp.active = false ∨ len < gmUdpHeaderSize then none
  else
    let udpLen := (gmSwap16 (load16 data 4)).toNat
    if udpLen < gmUdpHeaderSize ∨ len < udpLen then none
    else if src ≠ net.udp.peer ∨
        gmSwap16 (load16 data 0) ≠ net.udp.remotePort ∨
        gmSwap16 (load16 data 2) ≠ net.udp.localPort then none
    else if load16 data 6 ≠ 0 ∧
        gmUdpChecksum src net.config.ip (data.take udpLen) ≠ 0 then none
    else
      let payloadLen := udpLen - gmUdpHeaderSize
      if payloadLen = 0 ∨ gmUdpMax < payloadLen then none
      else some ((data.drop gmUdpHeaderSize).take payloadLen)

/-- `gm_udp_input`. -/
def gmUdpInput (src : GmIp) (data : List UInt8) (net : GmNet) : GmNet :=
  match gmUdpDecode src data net with
  | none => net
  | some payload => { net with udp := { net.udp with reply := payload } }

/-- The reply of `gm_icmp_input` to an echo request, with a given checksum
field. -/
def gmIcmpReply (data : List UInt8) (checksum : UInt16) : List UInt8 :=
  [0, data.getD 1 0, (checksum >>> 8).toUInt8, checksum.toUInt8] ++
    data.drop 4

/-- `gm_icmp_input` behind its validation. -/
def gmIcmpHandle (src : GmIp) (data : List UInt8) (net : GmNet) : GmNet :=
  if data.getD 0 0 = 0 ∧ data.getD 1 0 = 0 ∧
      gmSwap16 (load16 data 6) = net.pingSeq then
    { net with pingReply := net.pingSeq }
  else if data.getD 0 0 ≠ 8 ∨ data.getD 1 0 ≠ 0 ∨ gmNetMtu < data.length then
    net
  else
    (gmIpv4Send src gmProtoIcmp
      (gmIcmpReply data (gmChecksum (gmIcmpReply data 0))) net).2

/-- `gm_icmp_input`. -/
def gmIcmpInput (src : GmIp) (data : List UInt8) (net : GmNet) : GmNet :=
  if data.length < 8 ∨ gmChecksum data ≠ 0 then net
  else gmIcmpHandle src data net

end Gmker.Link
