import Gmker.Foundation.Windows
import Gmker.Link.Arrivals
import Gmker.Net.Refinement

/-!
# Accesses to arriving frames

The handlers of arriving frames once more, with every access to the frame, every
copy and every subtraction of lengths checked, on the 16-bit lengths of the
source.  The transport handlers read through a window that ends where the IPv4
packet says it ends.  No access is ever at fault, and the result is that of the
plain handlers.
-/

namespace Gmker.Link

open Foundation Net

variable {window : Window} {start : Nat} {len : UInt16} {host : GmHost}
  {station : GmStation}

/-! ## Fields -/

def read16 (window : Window) (index : Nat) : Except Fault UInt16 := do
  let low ← window.read index
  let high ← window.read (index + 1)
  pure (low.toUInt16 ||| (high.toUInt16 <<< 8))

def read32 (window : Window) (index : Nat) : Except Fault UInt32 := do
  let low ← read16 window index
  let high ← read16 window (index + 2)
  pure (low.toUInt32 ||| (high.toUInt32 <<< 16))

def readIp (window : Window) (index : Nat) : Except Fault GmIp := do
  let first ← window.read index
  let second ← window.read (index + 1)
  let third ← window.read (index + 2)
  let fourth ← window.read (index + 3)
  pure ⟨[first, second, third, fourth], rfl⟩

def readMac (window : Window) (index : Nat) : Except Fault GmMac := do
  let first ← window.read index
  let second ← window.read (index + 1)
  let third ← window.read (index + 2)
  let fourth ← window.read (index + 3)
  let fifth ← window.read (index + 4)
  let sixth ← window.read (index + 5)
  pure ⟨[first, second, third, fourth, fifth, sixth], rfl⟩

section Fields

variable {window : Window} {start len index : Nat}
  (fits : start + len ≤ window.limit)
include fits

theorem read16_area (below : index + 2 ≤ len) :
    read16 window (start + index) =
      .ok (load16 (window.area start len) index) := by
  have low := Window.read_area fits (show index < len by omega)
  have high := Window.read_area fits (show index + 1 < len by omega)
  rw [← Nat.add_assoc] at high
  simp only [read16, low, high]
  rfl

theorem read32_area (below : index + 4 ≤ len) :
    read32 window (start + index) =
      .ok (load32 (window.area start len) index) := by
  have low := read16_area fits (show index + 2 ≤ len by omega)
  have high := read16_area fits (show index + 2 + 2 ≤ len by omega)
  rw [← Nat.add_assoc] at high
  simp only [read32, low, high]
  rfl

theorem readIp_area (below : index + 4 ≤ len) :
    readIp window (start + index) =
      .ok (loadIp (window.area start len) index) := by
  have first := Window.read_area fits (show index < len by omega)
  have second := Window.read_area fits (show index + 1 < len by omega)
  have third := Window.read_area fits (show index + 2 < len by omega)
  have fourth := Window.read_area fits (show index + 3 < len by omega)
  rw [← Nat.add_assoc] at second third fourth
  simp only [readIp, first, second, third, fourth]
  rfl

theorem readMac_area (below : index + 6 ≤ len) :
    readMac window (start + index) =
      .ok (loadMac (window.area start len) index) := by
  have first := Window.read_area fits (show index < len by omega)
  have second := Window.read_area fits (show index + 1 < len by omega)
  have third := Window.read_area fits (show index + 2 < len by omega)
  have fourth := Window.read_area fits (show index + 3 < len by omega)
  have fifth := Window.read_area fits (show index + 4 < len by omega)
  have sixth := Window.read_area fits (show index + 5 < len by omega)
  rw [← Nat.add_assoc] at second third fourth fifth sixth
  simp only [readMac, first, second, third, fourth, fifth, sixth]
  rfl

end Fields

/-! ## The handlers -/

/-- `gm_arp_input`. -/
def gmArpInputChecked (window : Window) (start : Nat) (len : UInt16)
    (net : GmNet) : Except Fault GmNet :=
  if len.toNat < gmArpPacketSize then pure net
  else do
    let htype ← read16 window start
    if gmSwap16 htype ≠ 1 then pure net
    else
      let ptype ← read16 window (start + 2)
      if gmSwap16 ptype ≠ gmEthIpv4 then pure net
      else
        let hlen ← window.read (start + 4)
        if hlen ≠ 6 then pure net
        else
          let plen ← window.read (start + 5)
          if plen ≠ 4 then pure net
          else
            let spa ← readIp window (start + 14)
            let sha ← readMac window (start + 8)
            let net := gmArpPut spa sha net
            let op ← read16 window (start + 6)
            if gmSwap16 op ≠ 1 then pure net
            else
              let tpa ← readIp window (start + 24)
              if tpa = net.config.ip then pure (gmArpReply sha spa net)
              else pure net

/-- `gm_icmp_input`. -/
def gmIcmpInputChecked (window : Window) (src : GmIp) (start : Nat)
    (len : UInt16) (net : GmNet) : Except Fault GmNet :=
  if len.toNat < 8 then pure net
  else do
    let data ← window.readBlock start len.toNat
    if gmChecksum data ≠ 0 then pure net
    else
      let kind ← window.read start
      let code ← window.read (start + 1)
      let seq ← read16 window (start + 6)
      if kind = 0 ∧ code = 0 ∧ gmSwap16 seq = net.pingSeq then
        pure { net with pingReply := net.pingSeq }
      else if kind ≠ 8 ∨ code ≠ 0 ∨ gmNetMtu < len.toNat then pure net
      else
        let reply ← window.readBlock start len.toNat
        copyInto gmNetMtu 0 len.toNat
        pure (gmIpv4Send src gmProtoIcmp (gmIcmpReply reply
          (gmChecksum (gmIcmpReply reply 0))) net).2

/-- `gm_udp_input`. -/
def gmUdpInputChecked (window : Window) (src : GmIp) (start : Nat)
    (len : UInt16) (net : GmNet) : Except Fault GmNet :=
  if net.udp.active = false ∨ len.toNat < gmUdpHeaderSize then pure net
  else do
    let udpLen := gmSwap16 (← read16 window (start + 4))
    if udpLen.toNat < gmUdpHeaderSize ∨ len.toNat < udpLen.toNat then pure net
    else
      let srcPort ← read16 window start
      let dstPort ← read16 window (start + 2)
      if src ≠ net.udp.peer ∨ gmSwap16 srcPort ≠ net.udp.remotePort ∨
          gmSwap16 dstPort ≠ net.udp.localPort then pure net
      else
        let checksum ← read16 window (start + 6)
        let data ← window.readBlock start udpLen.toNat
        if checksum ≠ 0 ∧ gmUdpChecksum src net.config.ip data ≠ 0 then
          pure net
        else
          let payloadLen ← subtract udpLen 8
          if payloadLen.toNat = 0 ∨ gmUdpMax < payloadLen.toNat then pure net
          else
            copyInto gmUdpMax 0 payloadLen.toNat
            let payload ← window.readBlock (start + 8) payloadLen.toNat
            pure { net with udp := { net.udp with reply := payload } }

/-- `gm_tcp_append`. -/
def gmTcpAppendChecked (window : Window) (start : Nat) (len : UInt16)
    (tcp : GmTcp) : Except Fault (Bool × GmTcp) := do
  let room ← subtract 4096 (UInt16.ofNat tcp.rxLen)
  if room.toNat < len.toNat then
    pure (false, { tcp with dropCount := tcp.dropCount + len.toNat })
  else
    let tail := UInt16.ofNat ((tcp.rxHead + tcp.rxLen) % gmTcpRxSize)
    let end' ← subtract 4096 tail
    let first := if end'.toNat < len.toNat then end' else len
    copyInto gmTcpRxSize tail.toNat first.toNat
    let front ← window.readBlock start first.toNat
    let rest ← subtract len first
    copyInto gmTcpRxSize 0 rest.toNat
    let back ← window.readBlock (start + first.toNat) rest.toNat
    pure (true,
      { tcp with
        rx := Foundation.writeBlock
          (Foundation.writeBlock tcp.rx tail.toNat front) 0 back
        rxLen := tcp.rxLen + len.toNat })

/-- The payload part of `gm_tcp_input` up to the acknowledgement it sends. -/
def gmTcpAcceptChecked (window : Window) (start : Nat) (len : UInt16)
    (segment : GmSegment) (host : GmHost) : Except Fault GmHost :=
  if segment.seq = host.tcp.ack then do
    let (fits, tcp) ← gmTcpAppendChecked window start len host.tcp
    if fits then
      pure (GmHost.record
        { host with
          tcp := { tcp with ack := tcp.ack + UInt32.ofNat len.toNat } }
        (.accepted segment.payload))
    else pure { host with tcp := tcp }
  else pure host

/-- `gm_tcp_input` after validation, with the payload at a pointer.  The bytes
in the segment itself are for the record. -/
def gmTcpHandleChecked (window : Window) (start : Nat) (len : UInt16)
    (segment : GmSegment) (host : GmHost) : Except Fault GmHost :=
  let host := GmHost.record
    { host with tcp := { host.tcp with rxCount := host.tcp.rxCount + 1 } }
    (.arrived segment)
  if segment.has gmTcpFlagRst then
    let host := host.setState .reset
    pure { host with tcp := { host.tcp with unacked := [] } }
  else if host.tcp.state = .syn ∧
      segment.flags &&& (gmTcpFlagSyn ||| gmTcpFlagAck) =
        gmTcpFlagSyn ||| gmTcpFlagAck then
    pure (gmTcpHandshake segment host)
  else if host.tcp.state ≠ .established ∧ host.tcp.state ≠ .fin then pure host
  else do
    let host := gmTcpAcknowledge segment host
    if len.toNat = 0 then pure (gmTcpFinish segment host)
    else
      let host ← gmTcpAcceptChecked window start len segment host
      pure (gmTcpFinish segment
        (Net.gmTcpSegment host.tcp.ackSegment host).2)

/-- `gm_tcp_input`. -/
def gmTcpInputChecked (window : Window) (src : GmIp) (start : Nat)
    (len : UInt16) (host : GmHost) : Except Fault GmHost :=
  if len.toNat < gmTcpHeaderSize then pure host
  else if src.val ≠ host.tcp.dst then pure host
  else do
    let offset ← window.read (start + 12)
    let headerLen : UInt16 := (offset >>> 4).toUInt16 * 4
    if headerLen.toNat < gmTcpHeaderSize ∨ len.toNat < headerLen.toNat then
      pure host
    else
      let srcPort ← read16 window start
      let dstPort ← read16 window (start + 2)
      if gmSwap16 srcPort ≠ host.tcp.dstPort ∨
          gmSwap16 dstPort ≠ host.tcp.srcPort then pure host
      else
        let data ← window.readBlock start len.toNat
        if gmTcpChecksum src.val host.config.ip data ≠ 0 then pure host
        else
          let seq ← read32 window (start + 4)
          let ack ← read32 window (start + 8)
          let flags ← window.read (start + 13)
          let payloadLen ← subtract len headerLen
          gmTcpHandleChecked window (start + headerLen.toNat) payloadLen
            { seq := gmSwap32 seq
              ack := gmSwap32 ack
              flags := flags
              payload := window.area (start + headerLen.toNat)
                payloadLen.toNat } host

/-- `gm_ipv4_input`. -/
def gmIpv4InputChecked (window : Window) (src : GmIp) (protocol : UInt8)
    (start : Nat) (len : UInt16) (station : GmStation) :
    Except Fault GmStation :=
  if protocol = gmProtoIcmp then do
    let net ← gmIcmpInputChecked window src start len station.net
    pure (station.withNet net)
  else if protocol = gmProtoTcp then do
    let host ← gmTcpInputChecked window src start len station.linked
    pure (station.transmit host)
  else if protocol = gmProtoUdp then do
    let net ← gmUdpInputChecked window src start len station.net
    pure (station.withNet net)
  else pure station

/-- `gm_ipv4_packet`. -/
def gmIpv4PacketChecked (window : Window) (start : Nat) (len : UInt16)
    (station : GmStation) : Except Fault GmStation :=
  if len.toNat < gmIpv4HeaderSize then pure station
  else do
    let versionIhl ← window.read start
    if versionIhl >>> 4 ≠ 4 ∨ versionIhl &&& 0x0f < 5 then pure station
    else
      let headerLen : UInt16 := (versionIhl &&& 0x0f).toUInt16 * 4
      let total := gmSwap16 (← read16 window (start + 2))
      let fragment := gmSwap16 (← read16 window (start + 6))
      if len.toNat < headerLen.toNat ∨ total.toNat < headerLen.toNat ∨
          len.toNat < total.toNat then pure station
      else if fragment &&& 0xbfff ≠ 0 then pure station
      else
        let header ← window.readBlock start headerLen.toNat
        if gmChecksum header ≠ 0 then pure station
        else
          let dst ← readIp window (start + 16)
          if dst ≠ station.net.config.ip ∧ dst ≠ gmIpBroadcast then
            pure station
          else
            let src ← readIp window (start + 12)
            let protocol ← window.read (start + 9)
            let dataLen ← subtract total headerLen
            let packet ← window.narrow (start + total.toNat)
            gmIpv4InputChecked packet src protocol (start + headerLen.toNat)
              dataLen station

/-- `gm_eth_input`. -/
def gmEthInputChecked (frame : List UInt8) (station : GmStation) :
    Except Fault GmStation :=
  let window := Window.whole frame
  let len := UInt16.ofNat frame.length
  if len.toNat < 14 then pure station
  else do
    let high ← window.read 12
    let low ← window.read 13
    let rest ← subtract len 14
    let type := (high.toUInt16 <<< 8) ||| low.toUInt16
    if type = gmEthArp then do
      let net ← gmArpInputChecked window 14 rest station.net
      pure (station.withNet net)
    else if type = gmEthIpv4 then gmIpv4PacketChecked window 14 rest station
    else pure station

/-! ## No fault -/

section

variable (fits : start + len.toNat ≤ window.limit)

include fits

theorem gmArpInputChecked_ok (net : GmNet) :
    gmArpInputChecked window start len net =
      .ok (gmArpInput (window.area start len.toNat) net) := by
  have length := Window.area_length fits
  unfold gmArpInputChecked gmArpInput
  rw [length]
  by_cases short : len.toNat < gmArpPacketSize
  · rw [if_pos short, if_pos short]
    rfl
  rw [if_neg short, if_neg short]
  simp only [gmArpPacketSize] at short
  have htype := read16_area fits (show 0 + 2 ≤ len.toNat by omega)
  have ptype := read16_area fits (show 2 + 2 ≤ len.toNat by omega)
  have hlen := Window.read_area fits (show 4 < len.toNat by omega)
  have plen := Window.read_area fits (show 5 < len.toNat by omega)
  have op := read16_area fits (show 6 + 2 ≤ len.toNat by omega)
  have sha := readMac_area fits (show 8 + 6 ≤ len.toNat by omega)
  have spa := readIp_area fits (show 14 + 4 ≤ len.toNat by omega)
  have tpa := readIp_area fits (show 24 + 4 ≤ len.toNat by omega)
  rw [Nat.add_zero] at htype
  simp only [htype, ptype, hlen, plen, op, sha, spa, tpa, bind, Except.bind,
    pure, Except.pure]
  generalize window.area start len.toNat = data
  generalize gmSwap16 (load16 data 0) = hardware
  generalize gmSwap16 (load16 data 2) = protocol
  generalize data.getD 4 0 = hardwareLen
  generalize data.getD 5 0 = protocolLen
  by_cases first : hardware = 1
  · by_cases second : protocol = gmEthIpv4
    · by_cases third : hardwareLen = 6
      · by_cases fourth : protocolLen = 4
        · by_cases asks : gmSwap16 (load16 data 6) = 1
          · by_cases own : loadIp data 24 = (gmArpPut (loadIp data 14)
                (loadMac data 8) net).config.ip
            · simp [first, second, third, fourth, asks, own]
            · simp [first, second, third, fourth, asks, own]
          · simp [first, second, third, fourth, asks]
        · simp [first, second, third, fourth]
      · simp [first, second, third]
    · simp [first, second]
  · simp [first]

theorem gmIcmpInputChecked_ok (src : GmIp) (net : GmNet) :
    gmIcmpInputChecked window src start len net =
      .ok (gmIcmpInput src (window.area start len.toNat) net) := by
  have length := Window.area_length fits
  have block := Window.readBlock_ok fits
  unfold gmIcmpInputChecked gmIcmpInput gmIcmpHandle
  rw [length]
  by_cases short : len.toNat < 8
  · rw [if_pos short, if_pos (.inl short)]
    rfl
  rw [if_neg short]
  have kind := Window.read_area fits (show 0 < len.toNat by omega)
  have code := Window.read_area fits (show 1 < len.toNat by omega)
  have seq := read16_area fits (show 6 + 2 ≤ len.toNat by omega)
  rw [Nat.add_zero] at kind
  simp only [block, kind, code, seq, bind, Except.bind, pure, Except.pure]
  generalize window.area start len.toNat = data
  by_cases valid : gmChecksum data = 0
  · rw [if_neg (not_not.mpr valid),
      if_neg (not_or.mpr ⟨short, not_not.mpr valid⟩)]
    split
    · rfl
    · split
      · rfl
      · rename_i answers
        have room : 0 + len.toNat ≤ gmNetMtu := by
          rw [not_or, not_or, Nat.not_lt] at answers
          omega
        rw [copyInto_ok room]
  · rw [if_pos valid, if_pos (.inr valid)]

theorem gmUdpInputChecked_ok (src : GmIp) (net : GmNet) :
    gmUdpInputChecked window src start len net =
      .ok (gmUdpInput src (window.area start len.toNat) net) := by
  have length := Window.area_length fits
  unfold gmUdpInputChecked gmUdpInput gmUdpDecode
  simp only [length]
  by_cases skips : net.udp.active = false ∨ len.toNat < gmUdpHeaderSize
  · rw [if_pos skips, if_pos skips]
    rfl
  rw [if_neg skips, if_neg skips]
  rw [not_or, Nat.not_lt] at skips
  have long := skips.2
  simp only [gmUdpHeaderSize] at long
  have source := read16_area fits (show 0 + 2 ≤ len.toNat by omega)
  have destination := read16_area fits (show 2 + 2 ≤ len.toNat by omega)
  have size := read16_area fits (show 4 + 2 ≤ len.toNat by omega)
  have checksum := read16_area fits (show 6 + 2 ≤ len.toNat by omega)
  rw [Nat.add_zero] at source
  simp only [source, destination, size, checksum, bind, Except.bind, pure,
    Except.pure]
  generalize gmSwap16 (load16 (window.area start len.toNat) 4) = udpLen
  by_cases bad : udpLen.toNat < gmUdpHeaderSize ∨ len.toNat < udpLen.toNat
  · rw [if_pos bad, if_pos bad]
  rw [if_neg bad, if_neg bad]
  rw [not_or, Nat.not_lt, Nat.not_lt] at bad
  have block := Window.readBlock_area fits
    (show 0 + udpLen.toNat ≤ len.toNat by omega)
  rw [Nat.add_zero, List.drop_zero] at block
  obtain ⟨payloadLen, difference, value⟩ :=
    subtract_ok (show (8 : UInt16).toNat ≤ udpLen.toNat from bad.1)
  simp only [block, difference]
  have payload := Window.readBlock_area fits (show 8 +
    (udpLen.toNat - gmUdpHeaderSize) ≤ len.toNat by
      simp only [gmUdpHeaderSize] at bad ⊢
      omega)
  have amount : payloadLen.toNat = udpLen.toNat - gmUdpHeaderSize := value
  split
  · rfl
  split
  · rfl
  rw [amount]
  split
  · rfl
  · rename_i room
    rw [not_or, Nat.not_lt] at room
    rw [copyInto_ok (by omega), payload]

/-! ## The ring -/

theorem gmTcpAppendChecked_ok {tcp : GmTcp} (valid : RxValid tcp) :
    gmTcpAppendChecked window start len tcp =
      .ok (gmTcpAppend (window.area start len.toNat) tcp) := by
  have length := Window.area_length fits
  have bound := len.toNat_lt
  obtain ⟨head, filled⟩ := valid
  simp only [gmTcpRxSize] at head filled
  have used : (UInt16.ofNat tcp.rxLen).toNat = tcp.rxLen := by
    rw [UInt16.toNat_ofNat']
    omega
  have all : (4096 : UInt16).toNat = 4096 := rfl
  obtain ⟨room, roomEq, roomValue⟩ := subtract_ok
    (show (UInt16.ofNat tcp.rxLen).toNat ≤ (4096 : UInt16).toNat by
      rw [used, all]; exact filled)
  rw [used, all] at roomValue
  unfold gmTcpAppendChecked gmTcpAppend
  simp only [roomEq, bind, Except.bind, pure, Except.pure, length]
  rw [roomValue]
  by_cases full : 4096 - tcp.rxLen < len.toNat
  · rw [if_pos full, if_pos full]
  rw [if_neg full, if_neg full]
  generalize positionEq : (tcp.rxHead + tcp.rxLen) % gmTcpRxSize = position
  have inside : position < 4096 := by
    rw [← positionEq]
    exact Nat.mod_lt _ (by decide)
  have tail : (UInt16.ofNat position).toNat = position := by
    rw [UInt16.toNat_ofNat']
    omega
  obtain ⟨end', endEq, endValue⟩ := subtract_ok
    (show (UInt16.ofNat position).toNat ≤ (4096 : UInt16).toNat by
      rw [tail, all]; omega)
  rw [tail, all] at endValue
  generalize firstEq : (if end'.toNat < len.toNat then end' else len) = first
  have firstValue : first.toNat = min len.toNat (4096 - position) := by
    rw [← firstEq]
    split
    · omega
    · omega
  obtain ⟨rest, restEq, restValue⟩ := subtract_ok
    (show first.toNat ≤ len.toNat by rw [firstValue]; omega)
  have front := Window.readBlock_area fits
    (show 0 + first.toNat ≤ len.toNat by omega)
  have back := Window.readBlock_area fits
    (show first.toNat + rest.toNat ≤ len.toNat by omega)
  rw [Nat.add_zero, List.drop_zero] at front
  have whole : ((window.area start len.toNat).drop first.toNat).take
      rest.toNat = (window.area start len.toNat).drop first.toNat := by
    apply List.take_of_length_le
    rw [List.length_drop, length]
    omega
  rw [whole] at back
  simp only [endEq, tail, firstEq, restEq, front, back]
  rw [copyInto_ok (by simp only [gmTcpRxSize]; omega),
    copyInto_ok (by simp only [gmTcpRxSize]; omega)]
  simp only [firstValue, gmTcpRxSize]

theorem gmTcpAcceptChecked_ok {segment : GmSegment}
    (payload : segment.payload = window.area start len.toNat)
    (valid : RxValid host.tcp) :
    gmTcpAcceptChecked window start len segment host =
      .ok (gmTcpAccept segment host) := by
  have length := Window.area_length fits
  unfold gmTcpAcceptChecked gmTcpAccept
  split
  · rw [gmTcpAppendChecked_ok fits valid, payload]
    generalize gmTcpAppend (window.area start len.toNat) host.tcp = appended
    obtain ⟨_ | _, tcp⟩ := appended
    · rfl
    · simp only [bind, Except.bind, pure, Except.pure, length]
      rfl
  · rfl

theorem gmTcpHandleChecked_ok {segment : GmSegment}
    (payload : segment.payload = window.area start len.toNat)
    (valid : RxValid host.tcp) :
    gmTcpHandleChecked window start len segment host =
      .ok (gmTcpHandle segment host) := by
  have length := Window.area_length fits
  have acknowledged : ∀ host : GmHost, RxValid host.tcp →
      RxValid (gmTcpAcknowledge segment host).tcp := by
    intro host valid
    unfold gmTcpAcknowledge
    dsimp only
    split
    · exact ⟨valid.head, valid.len⟩
    · exact valid
  have empty : segment.payload = [] ↔ len.toNat = 0 := by
    rw [← List.length_eq_zero_iff, payload, length]
  unfold gmTcpHandleChecked gmTcpHandle
  dsimp only
  split
  · rfl
  split
  · rfl
  split
  · rfl
  unfold gmTcpReceive
  by_cases none : len.toNat = 0
  · rw [if_pos none, if_pos (empty.mpr none)]
    rfl
  · have accepted : ∀ host : GmHost, RxValid host.tcp →
        gmTcpAcceptChecked window start len segment
          (gmTcpAcknowledge segment host) =
            .ok (gmTcpAccept segment (gmTcpAcknowledge segment host)) :=
      fun host valid =>
        gmTcpAcceptChecked_ok fits payload (acknowledged host valid)
    rw [if_neg none, if_neg (mt empty.mp none), accepted]
    · rfl
    · exact ⟨valid.head, valid.len⟩

end

/-- Four bits of a byte, times four, as a 16-bit length. -/
theorem nibble_length {nibble : UInt8} (small : nibble.toNat < 16) :
    (nibble.toUInt16 * 4).toNat = nibble.toNat * 4 := by
  rw [UInt16.toNat_mul, UInt8.toNat_toUInt16]
  change nibble.toNat * 4 % 65536 = _
  omega

theorem shift_small (byte : UInt8) : (byte >>> 4).toNat < 16 := by
  have bound := byte.toNat_lt
  rw [UInt8.toNat_shiftRight, Nat.shiftRight_eq_div_pow]
  change byte.toNat / 16 < 16
  omega

theorem mask_small (byte : UInt8) : (byte &&& 0x0f).toNat < 16 := by
  rw [UInt8.toNat_and]
  exact Nat.lt_of_le_of_lt Nat.and_le_right (by decide)

section

variable (fits : start + len.toNat ≤ window.limit)

include fits

theorem gmTcpInputChecked_ok (src : GmIp) (valid : RxValid host.tcp)
    (bounded : (window.area start len.toNat).length < 2 ^ 16) :
    gmTcpInputChecked window src start len host =
      .ok (gmTcpInput ⟨src.val, window.area start len.toNat, bounded⟩ host) := by
  have length := Window.area_length fits
  unfold gmTcpInputChecked gmTcpInput gmTcpDecode
  simp only [length]
  by_cases short : len.toNat < gmTcpHeaderSize
  · rw [if_pos short, if_pos short]
    rfl
  rw [if_neg short, if_neg short]
  simp only [gmTcpHeaderSize] at short
  by_cases other : src.val ≠ host.tcp.dst
  · rw [if_pos other, if_pos other]
    rfl
  rw [if_neg other, if_neg other]
  have source := read16_area fits (show 0 + 2 ≤ len.toNat by omega)
  have destination := read16_area fits (show 2 + 2 ≤ len.toNat by omega)
  have seq := read32_area fits (show 4 + 4 ≤ len.toNat by omega)
  have ack := read32_area fits (show 8 + 4 ≤ len.toNat by omega)
  have offset := Window.read_area fits (show 12 < len.toNat by omega)
  have flags := Window.read_area fits (show 13 < len.toNat by omega)
  have block := Window.readBlock_ok fits
  rw [Nat.add_zero] at source
  simp only [source, destination, seq, ack, offset, flags, block, bind,
    Except.bind, pure, Except.pure, nibble_length (shift_small _)]
  generalize headerEq : ((window.area start len.toNat).getD 12 0 >>> 4) =
    nibble
  have header := nibble_length (headerEq ▸ shift_small _ : nibble.toNat < 16)
  by_cases bad : nibble.toNat * 4 < gmTcpHeaderSize ∨
      len.toNat < nibble.toNat * 4
  · rw [if_pos bad, if_pos bad]
  rw [if_neg bad, if_neg bad]
  rw [not_or, Nat.not_lt, Nat.not_lt] at bad
  split
  · rfl
  split
  · rfl
  obtain ⟨payloadLen, difference, value⟩ := subtract_ok
    (show (nibble.toUInt16 * 4).toNat ≤ len.toNat by
      rw [header]; exact bad.2)
  rw [header] at value
  simp only [difference]
  have rest : start + nibble.toNat * 4 + payloadLen.toNat ≤ window.limit := by
    omega
  have payload : (window.area start len.toNat).drop (nibble.toNat * 4) =
      window.area (start + nibble.toNat * 4) payloadLen.toNat := by
    rw [← Window.area_area (show nibble.toNat * 4 + payloadLen.toNat ≤
      len.toNat by omega)]
    symm
    apply List.take_of_length_le
    rw [List.length_drop, length]
    omega
  rw [payload]
  exact gmTcpHandleChecked_ok rest rfl valid

/-! ## The frame -/

theorem gmIpv4InputChecked_ok (src : GmIp) (protocol : UInt8)
    (valid : RxValid station.host.tcp)
    (bounded : (window.area start len.toNat).length < 2 ^ 16) :
    gmIpv4InputChecked window src protocol start len station =
      .ok (gmIpv4Input
        ⟨src, protocol, window.area start len.toNat, bounded⟩ station) := by
  unfold gmIpv4InputChecked gmIpv4Input
  dsimp only
  split
  · rw [gmIcmpInputChecked_ok fits]
    rfl
  split
  · have linked : RxValid station.linked.tcp := valid
    rw [gmTcpInputChecked_ok fits src linked bounded]
    rfl
  split
  · rw [gmUdpInputChecked_ok fits]
    rfl
  · rfl

theorem gmIpv4PacketChecked_ok (valid : RxValid station.host.tcp) :
    gmIpv4PacketChecked window start len station =
      .ok (match gmIpv4Decode station.net.config
          (window.area start len.toNat) with
        | none => station
        | some datagram => gmIpv4Input datagram station) := by
  have length := Window.area_length fits
  unfold gmIpv4PacketChecked gmIpv4Decode
  simp only [length]
  by_cases short : len.toNat < gmIpv4HeaderSize
  · rw [if_pos short, if_pos short]
    rfl
  rw [if_neg short, if_neg short]
  simp only [gmIpv4HeaderSize] at short
  have version := Window.read_area fits (show 0 < len.toNat by omega)
  have size := read16_area fits (show 2 + 2 ≤ len.toNat by omega)
  have part := read16_area fits (show 6 + 2 ≤ len.toNat by omega)
  have kind := Window.read_area fits (show 9 < len.toNat by omega)
  have source := readIp_area fits (show 12 + 4 ≤ len.toNat by omega)
  have destination := readIp_area fits (show 16 + 4 ≤ len.toNat by omega)
  rw [Nat.add_zero] at version
  simp only [version, size, part, kind, source, destination, bind,
    Except.bind, pure, Except.pure, nibble_length (mask_small _)]
  by_cases other : (window.area start len.toNat).getD 0 0 >>> 4 ≠ 4 ∨
      (window.area start len.toNat).getD 0 0 &&& 0x0f < 5
  · rw [if_pos other, if_pos other]
  rw [if_neg other, if_neg other]
  generalize headerEq : (window.area start len.toNat).getD 0 0 &&& 0x0f =
    nibble
  have header := nibble_length (headerEq ▸ mask_small _ : nibble.toNat < 16)
  generalize gmSwap16 (load16 (window.area start len.toNat) 2) = total
  by_cases bad : len.toNat < nibble.toNat * 4 ∨
      total.toNat < nibble.toNat * 4 ∨ len.toNat < total.toNat
  · rw [if_pos bad, if_pos bad]
  rw [if_neg bad, if_neg bad]
  rw [not_or, not_or, Nat.not_lt, Nat.not_lt, Nat.not_lt] at bad
  have block := Window.readBlock_area fits
    (show 0 + nibble.toNat * 4 ≤ len.toNat by omega)
  rw [Nat.add_zero, List.drop_zero] at block
  obtain ⟨dataLen, difference, value⟩ := subtract_ok
    (show (nibble.toUInt16 * 4).toNat ≤ total.toNat by
      rw [header]; exact bad.2.1)
  rw [header] at value
  have less : start + total.toNat ≤ window.limit := by omega
  simp only [block, difference, Window.narrow_ok less]
  split
  · rfl
  split
  · rfl
  split
  · rfl
  have data : ((window.area start len.toNat).drop (nibble.toNat * 4)).take
      (total.toNat - nibble.toNat * 4) =
        window.area (start + nibble.toNat * 4) dataLen.toNat := by
    rw [value]
    exact Window.area_area (by omega)
  simp only [data]
  exact gmIpv4InputChecked_ok (by dsimp only; omega) _ _ valid _

end

theorem gmEthInput_valid (frame : List UInt8) (valid : RxValid station.host.tcp) :
    RxValid (gmEthInput frame station).host.tcp := by
  cases found : frameDatagram station.net.config frame with
  | none =>
    cases arp : frameArp frame with
    | none =>
      rw [gmEthInput_other found arp]
      exact valid
    | some packet =>
      rw [gmEthInput_arp station arp]
      exact valid
  | some datagram =>
    rw [gmEthInput_datagram found]
    unfold gmIpv4Input
    split
    · exact valid
    split
    · have linked : RxValid station.linked.tcp := valid
      exact (gmTcpInput_calm linked _).valid
    split
    · exact valid
    · exact valid

/-- No arriving frame is read or copied out of bounds: every access checked, the
handlers do what they do without checks. -/
theorem gmEthInput_in_bounds (frame : List UInt8) (station : GmStation)
    (short : frame.length ≤ gmFrameSize)
    (valid : RxValid station.host.tcp) :
    gmEthInputChecked frame station = .ok (gmEthInput frame station) ∧
      RxValid (gmEthInput frame station).host.tcp := by
  refine ⟨?_, gmEthInput_valid frame valid⟩
  simp only [gmFrameSize] at short
  have size : (UInt16.ofNat frame.length).toNat = frame.length := by
    rw [UInt16.toNat_ofNat']
    omega
  rw [gmEthInput_eq, gmEthInputChecked]
  simp only [size]
  by_cases tiny : frame.length < 14
  · rw [if_pos tiny, if_pos tiny]
    rfl
  rw [if_neg tiny, if_neg tiny]
  have high : (Window.whole frame).read 12 = .ok (frame.getD 12 0) := by
    rw [Window.read, if_pos (by change 12 < frame.length; omega)]
    rfl
  have low : (Window.whole frame).read 13 = .ok (frame.getD 13 0) := by
    rw [Window.read, if_pos (by change 13 < frame.length; omega)]
    rfl
  obtain ⟨rest, difference, value⟩ := subtract_ok
    (show (14 : UInt16).toNat ≤ (UInt16.ofNat frame.length).toNat by
      rw [size]; change 14 ≤ frame.length; omega)
  have amount : rest.toNat = frame.length - 14 := by
    rw [value, size]
    rfl
  have fits : 14 + rest.toNat ≤ (Window.whole frame).limit := by
    change 14 + rest.toNat ≤ frame.length
    omega
  have content : (Window.whole frame).area 14 rest.toNat = frame.drop 14 := by
    apply List.take_of_length_le
    rw [List.length_drop, amount]
    exact Nat.le_refl _
  simp only [high, low, difference, bind, Except.bind,
    gmArpInputChecked_ok fits, gmIpv4PacketChecked_ok fits valid, content]
  change (if frameType frame = _ then _ else if frameType frame = _ then _
    else _) = _
  split
  · rfl
  split
  · rfl
  · rfl

theorem gmEthInput_in_bounds_asked :
    gmEthInputChecked
        (gmEthFrame gmMacBroadcast ⟨[2, 0, 0, 0, 0, 2], rfl⟩ gmEthArp
          (gmArpPacket 1 ⟨[2, 0, 0, 0, 0, 2], rfl⟩ ⟨[10, 0, 2, 2], rfl⟩
            gmMacNone ⟨[10, 0, 2, 15], rfl⟩))
        ⟨gmNetInit ⟨⟨[10, 0, 2, 15], rfl⟩, ⟨[255, 255, 255, 0], rfl⟩,
          ⟨[10, 0, 2, 2], rfl⟩⟩ none fun _ => true, {}, fun _ => {}⟩ =
      .ok (gmEthInput
        (gmEthFrame gmMacBroadcast ⟨[2, 0, 0, 0, 0, 2], rfl⟩ gmEthArp
          (gmArpPacket 1 ⟨[2, 0, 0, 0, 0, 2], rfl⟩ ⟨[10, 0, 2, 2], rfl⟩
            gmMacNone ⟨[10, 0, 2, 15], rfl⟩))
        ⟨gmNetInit ⟨⟨[10, 0, 2, 15], rfl⟩, ⟨[255, 255, 255, 0], rfl⟩,
          ⟨[10, 0, 2, 2], rfl⟩⟩ none fun _ => true, {}, fun _ => {}⟩) :=
  (gmEthInput_in_bounds _ _ (by decide +kernel)
    ⟨by decide, by decide⟩).1

end Gmker.Link
