import Gmker.Link.Station
import Gmker.Net.Checksum

/-!
# Packets are read back

For every packet the station builds, the validation on the other side accepts
it and finds what was put in: the IPv4 packet even with padding behind it, the
TCP segment, the UDP datagram and the ICMP message.
-/

namespace Gmker.Link

open Foundation Net

variable {data : List UInt8} {offset : Nat}

/-! ## Bytes -/

theorem GmIp.exists_bytes (ip : GmIp) :
    ∃ first second third fourth, ip.val = [first, second, third, fourth] := by
  obtain ⟨bytes, length⟩ := ip
  match bytes, length with
  | [first, second, third, fourth], _ =>
    exact ⟨first, second, third, fourth, rfl⟩

theorem loadIp_eq {ip : GmIp} (front back : List UInt8)
    (bytes : data = front ++ (ip.val ++ back)) (here : front.length = offset) :
    loadIp data offset = ip := by
  obtain ⟨first, second, third, fourth, value⟩ := ip.exists_bytes
  apply Subtype.ext
  rw [loadIp, bytes, value, ← here]
  simp

theorem wordSum_ip (ip : GmIp) : wordSum ip.val ≤ 131070 := by
  have bound := wordSum_le ip.val
  rw [ip.property] at bound
  exact bound

/-- A stored field is read back from wherever its bytes are. -/
theorem gmSwap16_load16 {value : UInt16}
    (here : load16 data offset = load16 (store16 (gmSwap16 value) ++ []) 0) :
    gmSwap16 (load16 data offset) = value := by
  rw [here, load16_store16, gmSwap16_gmSwap16]

theorem gmSwap32_load32 {value : UInt32}
    (here : load32 data offset = load32 (store32 (gmSwap32 value) ++ []) 0) :
    gmSwap32 (load32 data offset) = value := by
  rw [here, load32_store32, gmSwap32_gmSwap32]

/-! ## IPv4 -/

section Ipv4

variable (src dst : GmIp) (protocol : UInt8) (id : UInt16) (len : Nat)

/-- The header in front of its checksum. -/
def ipv4Front : List UInt8 :=
  [0x45, 0] ++ store16 (gmSwap16 (UInt16.ofNat (gmIpv4HeaderSize + len))) ++
    store16 (gmSwap16 id) ++ store16 (gmSwap16 0x4000) ++ [64, protocol]

theorem gmIpv4Header_eq (checksum : UInt16) :
    gmIpv4Header src dst protocol id len checksum =
      ipv4Front protocol id len ++
        (store16 (gmSwap16 checksum) ++ (src.val ++ dst.val)) :=
  rfl

theorem gmIpv4Header_length (checksum : UInt16) :
    (gmIpv4Header src dst protocol id len checksum).length =
      gmIpv4HeaderSize := by
  rw [gmIpv4Header_eq, List.length_append, List.length_append,
    List.length_append, src.property, dst.property]
  rfl

/-- The receiver's checksum of the header. -/
theorem gmChecksum_header :
    gmChecksum (gmIpv4Header src dst protocol id len
      (gmChecksum (gmIpv4Header src dst protocol id len 0))) = 0 := by
  have front := wordSum_le (ipv4Front protocol id len)
  have back : wordSum (src.val ++ dst.val) ≤ 262140 := by
    have both := wordSum_le (src.val ++ dst.val)
    rw [List.length_append, src.property, dst.property] at both
    exact both
  have length : (ipv4Front protocol id len).length = 10 := rfl
  rw [length] at front
  have fits : (0 : UInt32).toNat + wordSum (ipv4Front protocol id len) +
      65535 + wordSum (src.val ++ dst.val) < 4294967296 := by
    change 0 + _ + _ + _ < _
    omega
  rw [gmChecksum, gmChecksum, gmIpv4Header_eq, gmIpv4Header_eq]
  exact gmSumFinish_closes 0 (by rw [length]) fits

end Ipv4

/-- `gm_ipv4_packet` accepts what `gm_ipv4_send` built for it, and strips the
padding. -/
theorem gmIpv4Decode_packet (config : GmIpConfig) (src : GmIp)
    (protocol : UInt8) (id : UInt16) (data padding : List UInt8)
    (bounded : data.length < 2 ^ 16) (fits : data.length + 20 < 65536) :
    gmIpv4Decode config
        (gmIpv4Packet src config.ip protocol id data ++ padding) =
      some ⟨src, protocol, data, bounded⟩ := by
  generalize checksumEq :
    gmChecksum (gmIpv4Header src config.ip protocol id data.length 0) = checksum
  generalize headerEq : gmIpv4Header src config.ip protocol id data.length
    checksum = header
  have closes : gmChecksum header = 0 := by
    rw [← headerEq, ← checksumEq]
    exact gmChecksum_header _ _ _ _ _
  have size : header.length = 20 := by
    rw [← headerEq]
    exact gmIpv4Header_length _ _ _ _ _ _
  have packet : gmIpv4Packet src config.ip protocol id data ++ padding =
      header ++ (data ++ padding) := by
    rw [gmIpv4Packet, checksumEq, headerEq, List.append_assoc]
  have total : gmSwap16 (load16 (header ++ (data ++ padding)) 2) =
      UInt16.ofNat (20 + data.length) := by
    rw [← headerEq]
    exact gmSwap16_load16 rfl
  have fragment : gmSwap16 (load16 (header ++ (data ++ padding)) 6) =
      0x4000 := by
    rw [← headerEq]
    exact gmSwap16_load16 rfl
  have version : (header ++ (data ++ padding)).getD 0 0 = 0x45 := by
    rw [← headerEq]
    rfl
  have kind : (header ++ (data ++ padding)).getD 9 0 = protocol := by
    rw [← headerEq]
    rfl
  have from' : loadIp (header ++ (data ++ padding)) 12 = src := by
    apply loadIp_eq (ipv4Front protocol id data.length ++
      store16 (gmSwap16 checksum)) (config.ip.val ++ (data ++ padding))
    · rw [← headerEq, gmIpv4Header_eq]
      simp only [List.append_assoc]
    · rfl
  have to' : loadIp (header ++ (data ++ padding)) 16 = config.ip := by
    apply loadIp_eq (ipv4Front protocol id data.length ++
      (store16 (gmSwap16 checksum) ++ src.val)) (data ++ padding)
    · rw [← headerEq, gmIpv4Header_eq]
      simp only [List.append_assoc]
    · rw [List.length_append, List.length_append, src.property]
      rfl
  have value : (UInt16.ofNat (20 + data.length)).toNat = 20 + data.length := by
    rw [UInt16.toNat_ofNat']
    omega
  have front : (header ++ (data ++ padding)).take 20 = header :=
    List.take_left' size
  have rest : ((header ++ (data ++ padding)).drop 20).take data.length =
      data := by
    rw [List.drop_left' size, List.take_left]
  have length : (header ++ (data ++ padding)).length =
      20 + data.length + padding.length := by
    rw [List.length_append, List.length_append, size]
    omega
  rw [packet]
  unfold gmIpv4Decode
  generalize header ++ (data ++ padding) = bytes at *
  have nibbles : ((0x45 : UInt8) &&& 0x0f).toNat * 4 = 20 := by decide
  simp only [version, total, fragment, kind, from', to', value, nibbles, front,
    closes, Nat.add_sub_cancel_left, rest]
  rw [if_neg (by rw [length]; simp only [gmIpv4HeaderSize]; omega),
    if_neg (by decide), if_neg (by omega), if_neg (by decide),
    if_neg (by simp), if_neg (by simp)]

/-! ## TCP -/

theorem gmSumAdd_addresses (src dst : GmIp) :
    (gmSumAdd (gmSumAdd 0 src.val) dst.val).toNat ≤ 262140 := by
  have first := wordSum_ip src
  have second := wordSum_ip dst
  have source : (gmSumAdd 0 src.val).toNat = 0 + wordSum src.val :=
    gmSumAdd_toNat 0 src.val (by change 0 + _ < _; omega)
  rw [gmSumAdd_toNat _ _ (by rw [source]; omega), source]
  omega

section Tcp

variable (srcPort dstPort : UInt16) (segment : GmSegment)

/-- The TCP header in front of its checksum. -/
def tcpFront : List UInt8 :=
  store16 (gmSwap16 srcPort) ++ store16 (gmSwap16 dstPort) ++
    store32 (gmSwap32 segment.seq) ++ store32 (gmSwap32 segment.ack) ++
    [(5 : UInt8) <<< 4, segment.flags] ++
    store16 (gmSwap16 (UInt16.ofNat gmTcpRxSize))

theorem gmTcpBytes_eq (checksum : UInt16) :
    gmTcpBytes srcPort dstPort segment checksum =
      tcpFront srcPort dstPort segment ++
        (store16 (gmSwap16 checksum) ++ (store16 0 ++ segment.payload)) :=
  rfl

theorem gmTcpBytes_length (checksum : UInt16) :
    (gmTcpBytes srcPort dstPort segment checksum).length =
      20 + segment.payload.length := by
  rw [gmTcpBytes_eq, List.length_append, List.length_append,
    List.length_append]
  change 16 + (2 + (2 + segment.payload.length)) = _
  omega

/-- The receiver's checksum of a segment. -/
theorem gmTcpChecksum_packet (src dst : GmIp)
    (short : segment.payload.length ≤ gmNetMtu) :
    gmTcpChecksum src.val dst.val
      (gmTcpPacket src.val dst.val srcPort dstPort segment) = 0 := by
  have addresses := gmSumAdd_addresses src dst
  have front := wordSum_le (tcpFront srcPort dstPort segment)
  have back := wordSum_le (store16 0 ++ segment.payload)
  have frontLength : (tcpFront srcPort dstPort segment).length = 16 := rfl
  have backLength : (store16 0 ++ segment.payload).length =
      2 + segment.payload.length := by
    rw [List.length_append]
    rfl
  simp only [gmNetMtu] at short
  rw [frontLength] at front
  rw [backLength] at back
  rw [gmTcpPacket, gmTcpChecksum, gmTcpChecksum]
  simp only [gmTcpBytes_length]
  generalize UInt16.ofNat (20 + segment.payload.length) = len
  generalize pseudoEq : [0, gmProtoTcp, (len >>> 8).toUInt8, len.toUInt8] =
    pseudo
  have pseudoSum : wordSum pseudo ≤ 131070 := by
    have bound := wordSum_le pseudo
    have length : pseudo.length = 4 := by rw [← pseudoEq]; rfl
    rw [length] at bound
    exact bound
  have start : (gmSumAdd (gmSumAdd (gmSumAdd 0 src.val) dst.val)
      pseudo).toNat ≤ 393210 := by
    rw [gmSumAdd_toNat _ _ (by omega)]
    omega
  simp only [gmTcpBytes_eq]
  exact gmSumFinish_closes _ (by rw [frontLength]) (by omega)

/-- `gm_tcp_input` accepts what `gm_tcp_segment` built for the other end of the
connection. -/
theorem gmTcpDecode_packet (src dst : GmIp)
    (short : segment.payload.length ≤ gmNetMtu) :
    gmTcpDecode src.val dst.val srcPort dstPort src.val
      (gmTcpPacket src.val dst.val srcPort dstPort segment) =
        some segment := by
  have closes := gmTcpChecksum_packet srcPort dstPort segment src dst short
  have shape : gmTcpPacket src.val dst.val srcPort dstPort segment =
      gmTcpBytes srcPort dstPort segment (gmTcpChecksum src.val dst.val
        (gmTcpBytes srcPort dstPort segment 0)) := rfl
  generalize gmTcpChecksum src.val dst.val
    (gmTcpBytes srcPort dstPort segment 0) = checksum at shape
  have length := gmTcpBytes_length srcPort dstPort segment checksum
  have source : gmSwap16 (load16
      (gmTcpBytes srcPort dstPort segment checksum) 0) = srcPort :=
    gmSwap16_load16 rfl
  have destination : gmSwap16 (load16
      (gmTcpBytes srcPort dstPort segment checksum) 2) = dstPort :=
    gmSwap16_load16 rfl
  have seq : gmSwap32 (load32
      (gmTcpBytes srcPort dstPort segment checksum) 4) = segment.seq :=
    gmSwap32_load32 rfl
  have ack : gmSwap32 (load32
      (gmTcpBytes srcPort dstPort segment checksum) 8) = segment.ack :=
    gmSwap32_load32 rfl
  have offset : ((gmTcpBytes srcPort dstPort segment checksum).getD 12 0 >>>
      4).toNat * 4 = 20 := by
    change (((5 : UInt8) <<< 4) >>> 4).toNat * 4 = 20
    decide
  have flags : (gmTcpBytes srcPort dstPort segment checksum).getD 13 0 =
      segment.flags := rfl
  have payload : (gmTcpBytes srcPort dstPort segment checksum).drop 20 =
      segment.payload := rfl
  rw [shape] at closes ⊢
  unfold gmTcpDecode
  simp only [source, destination, seq, ack, offset, flags, payload, closes,
    length]
  rw [if_neg (by simp only [gmTcpHeaderSize]; omega), if_neg (by simp),
    if_neg (by simp only [gmTcpHeaderSize]; omega), if_neg (by simp),
    if_neg (by simp)]

end Tcp

/-! ## UDP -/

section Udp

variable (srcPort dstPort : UInt16) (payload : List UInt8)

/-- The UDP header in front of its checksum. -/
def udpFront : List UInt8 :=
  store16 (gmSwap16 srcPort) ++ store16 (gmSwap16 dstPort) ++
    store16 (gmSwap16 (UInt16.ofNat (gmUdpHeaderSize + payload.length)))

theorem gmUdpBytes_eq (checksum : UInt16) :
    gmUdpBytes srcPort dstPort payload checksum =
      udpFront srcPort dstPort payload ++
        (store16 (gmSwap16 checksum) ++ payload) :=
  rfl

theorem gmUdpBytes_length (checksum : UInt16) :
    (gmUdpBytes srcPort dstPort payload checksum).length =
      8 + payload.length := by
  rw [gmUdpBytes_eq, List.length_append, List.length_append]
  change 6 + (2 + payload.length) = _
  omega

/-- The field of the checksum is never zero, and the receiver's checksum is. -/
theorem gmUdpPacket_field (src dst : GmIp)
    (short : payload.length ≤ gmUdpMax) :
    ∃ checksum, checksum ≠ 0 ∧
      gmUdpPacket src dst srcPort dstPort payload =
        gmUdpBytes srcPort dstPort payload checksum ∧
      gmUdpChecksum src dst
        (gmUdpBytes srcPort dstPort payload checksum) = 0 := by
  have addresses := gmSumAdd_addresses src dst
  have front := wordSum_le (udpFront srcPort dstPort payload)
  have back := wordSum_le payload
  have frontLength : (udpFront srcPort dstPort payload).length = 6 := rfl
  simp only [gmUdpMax] at short
  rw [frontLength] at front
  have start : (gmSumAdd (gmSumAdd 0 src.val) dst.val +
      gmProtoUdp.toUInt32 + UInt32.ofNat (8 + payload.length)).toNat ≤
        263189 := by
    have proto : gmProtoUdp.toUInt32.toNat = 17 := rfl
    rw [UInt32.toNat_add, UInt32.toNat_add, proto, UInt32.toNat_ofNat']
    omega
  have sums : ∀ checksum, gmUdpChecksum src dst
      (gmUdpBytes srcPort dstPort payload checksum) =
        gmSumFinish (gmSumAdd (gmSumAdd (gmSumAdd 0 src.val) dst.val +
          gmProtoUdp.toUInt32 + UInt32.ofNat (8 + payload.length))
          (udpFront srcPort dstPort payload ++
            (store16 (gmSwap16 checksum) ++ payload))) := by
    intro checksum
    simp only [gmUdpChecksum, gmUdpBytes_length]
    rw [gmUdpBytes_eq]
  generalize gmSumAdd (gmSumAdd 0 src.val) dst.val + gmProtoUdp.toUInt32 +
    UInt32.ofNat (8 + payload.length) = sum at start sums
  have even : (udpFront srcPort dstPort payload).length % 2 = 0 := by
    rw [frontLength]
  have fits : sum.toNat + wordSum (udpFront srcPort dstPort payload) + 65535 +
      wordSum payload < 4294967296 := by omega
  have packet : gmUdpPacket src dst srcPort dstPort payload =
      gmUdpBytes srcPort dstPort payload
        (if gmUdpChecksum src dst (gmUdpBytes srcPort dstPort payload 0) ≠ 0
          then gmUdpChecksum src dst (gmUdpBytes srcPort dstPort payload 0)
          else 0xffff) := rfl
  by_cases nonzero : gmUdpChecksum src dst
      (gmUdpBytes srcPort dstPort payload 0) ≠ 0
  · rw [if_pos nonzero] at packet
    refine ⟨_, nonzero, packet, ?_⟩
    rw [sums, sums]
    exact gmSumFinish_closes sum even fits
  · rw [if_neg nonzero] at packet
    rw [ne_eq, not_not, sums] at nonzero
    refine ⟨0xffff, by decide, packet, ?_⟩
    rw [sums]
    exact gmSumFinish_closes_ones sum even fits nonzero

/-- `gm_udp_input` accepts what `gm_udp_exchange` built for the other end of the
exchange. -/
theorem gmUdpDecode_packet (src : GmIp) (net : GmNet)
    (active : net.udp.active = true) (peer : net.udp.peer = src)
    (remote : net.udp.remotePort = srcPort)
    (locals : net.udp.localPort = dstPort) (some' : payload ≠ [])
    (short : payload.length ≤ gmUdpMax) :
    gmUdpDecode src (gmUdpPacket src net.config.ip srcPort dstPort payload)
      net = some payload := by
  obtain ⟨checksum, nonzero, packet, closes⟩ :=
    gmUdpPacket_field srcPort dstPort payload src net.config.ip short
  have positive := List.length_pos_iff.mpr some'
  have length := gmUdpBytes_length srcPort dstPort payload checksum
  have source : gmSwap16 (load16
      (gmUdpBytes srcPort dstPort payload checksum) 0) = srcPort :=
    gmSwap16_load16 rfl
  have destination : gmSwap16 (load16
      (gmUdpBytes srcPort dstPort payload checksum) 2) = dstPort :=
    gmSwap16_load16 rfl
  have size : gmSwap16 (load16
      (gmUdpBytes srcPort dstPort payload checksum) 4) =
        UInt16.ofNat (8 + payload.length) :=
    gmSwap16_load16 rfl
  simp only [gmUdpMax] at short
  have value : (UInt16.ofNat (8 + payload.length)).toNat =
      8 + payload.length := by
    rw [UInt16.toNat_ofNat']
    omega
  have whole : (gmUdpBytes srcPort dstPort payload checksum).take
      (8 + payload.length) = gmUdpBytes srcPort dstPort payload checksum := by
    rw [← length, List.take_length]
  have data : (gmUdpBytes srcPort dstPort payload checksum).drop 8 =
      payload := rfl
  rw [packet]
  unfold gmUdpDecode
  simp only [source, destination, size, value, whole, closes, length, active,
    peer, remote, locals, data]
  rw [if_neg (by simp), if_neg (by simp), if_neg (by simp), if_neg (by simp),
    if_neg (by simp only [gmUdpHeaderSize, gmUdpMax]; omega),
    Nat.add_sub_cancel_left, List.take_length]

end Udp

/-! ## ICMP -/

/-- The checksum of a message whose third and fourth bytes are the checksum
field. -/
theorem gmChecksum_message (kind code : UInt8) (rest : List UInt8)
    (short : rest.length ≤ gmNetMtu) (zero : UInt16)
    (computed : zero = gmChecksum ([kind, code, 0, 0] ++ rest)) :
    gmChecksum ([kind, code, (zero >>> 8).toUInt8, zero.toUInt8] ++ rest) =
      0 := by
  have front := wordSum_le [kind, code]
  have back := wordSum_le rest
  have fits : (0 : UInt32).toNat + wordSum [kind, code] + 65535 +
      wordSum rest < 4294967296 := by
    simp only [gmNetMtu] at short
    simp only [List.length_cons, List.length_nil] at front
    change 0 + _ + _ + _ < _
    omega
  have even : [kind, code].length % 2 = 0 := by simp
  have closes := gmSumFinish_closes 0 even fits
  rw [store16_gmSwap16, store16_gmSwap16] at closes
  rw [computed]
  exact closes

end Gmker.Link
