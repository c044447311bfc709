import Gmker.Abi

/-!
# TCP segments on the wire

Byte order, the Internet checksum and the TCP header of `tcpstore.c`.  Header
fields are loaded and stored as on the little-endian machine the kernel runs
on, and swapped by the source's own `gm_swap16` and `gm_swap32`.
-/

namespace Gmker.Net

abbrev gmProtoTcp : UInt8 := 6
abbrev gmNetMtu : Nat := 1500
abbrev gmTcpRxSize : Nat := 4096
abbrev gmTcpTxMax : Nat := 1280
/-- `sizeof(struct gm_tcp_header)`. -/
abbrev gmTcpHeaderSize : Nat := 20
/-- `sizeof(struct gm_ipv4_header)`. -/
abbrev gmIpv4HeaderSize : Nat := 20

abbrev gmTcpFlagFin : UInt8 := 0x01
abbrev gmTcpFlagSyn : UInt8 := 0x02
abbrev gmTcpFlagRst : UInt8 := 0x04
abbrev gmTcpFlagPsh : UInt8 := 0x08
abbrev gmTcpFlagAck : UInt8 := 0x10

/-- `gm_swap16`. -/
def gmSwap16 (value : UInt16) : UInt16 := (value >>> 8) ||| (value <<< 8)

/-- `gm_swap32`. -/
def gmSwap32 (value : UInt32) : UInt32 :=
  ((value &&& 0x000000ff) <<< 24) ||| ((value &&& 0x0000ff00) <<< 8) |||
    ((value &&& 0x00ff0000) >>> 8) ||| ((value &&& 0xff000000) >>> 24)

/-- A 16-bit load at an offset. -/
def load16 (data : List UInt8) (offset : Nat) : UInt16 :=
  (data.getD offset 0).toUInt16 ||| ((data.getD (offset + 1) 0).toUInt16 <<< 8)

/-- A 32-bit load at an offset. -/
def load32 (data : List UInt8) (offset : Nat) : UInt32 :=
  (load16 data offset).toUInt32 ||| ((load16 data (offset + 2)).toUInt32 <<< 16)

/-- The bytes of a 16-bit store. -/
def store16 (value : UInt16) : List UInt8 :=
  [value.toUInt8, (value >>> 8).toUInt8]

/-- The bytes of a 32-bit store. -/
def store32 (value : UInt32) : List UInt8 :=
  store16 value.toUInt16 ++ store16 (value >>> 16).toUInt16

/-- `gm_sum_add`. -/
def gmSumAdd (sum : UInt32) : List UInt8 → UInt32
  | high :: low :: rest =>
    gmSumAdd (sum + ((high.toUInt32 <<< 8) ||| low.toUInt32)) rest
  | [high] => sum + (high.toUInt32 <<< 8)
  | [] => sum

/-- The folding loop of `gm_sum_finish`.  A 32-bit sum needs two turns at
most. -/
def gmSumFold : Nat → UInt32 → UInt32
  | 0, sum => sum
  | turns + 1, sum =>
    if sum >>> 16 ≠ 0 then gmSumFold turns ((sum &&& (0xffff : UInt32)) + (sum >>> 16))
    else sum

/-- `gm_sum_finish`. -/
def gmSumFinish (sum : UInt32) : UInt16 := (~~~ gmSumFold 2 sum).toUInt16

/-- `gm_tcp_checksum`. -/
def gmTcpChecksum (src dst data : List UInt8) : UInt16 :=
  let len := UInt16.ofNat data.length
  let pseudo := [0, gmProtoTcp, (len >>> 8).toUInt8, len.toUInt8]
  gmSumFinish
    (gmSumAdd (gmSumAdd (gmSumAdd (gmSumAdd 0 src) dst) pseudo) data)

/-- What a segment says beyond its addresses and ports. -/
structure GmSegment where
  seq : UInt32
  ack : UInt32
  flags : UInt8
  payload : List UInt8
  deriving DecidableEq, Repr

/-- A flag of a segment is set. -/
def GmSegment.has (segment : GmSegment) (flag : UInt8) : Bool :=
  segment.flags &&& flag != 0

/-- The TCP header and payload, with a given checksum field. -/
def gmTcpBytes (srcPort dstPort : UInt16) (segment : GmSegment)
    (checksum : UInt16) : List UInt8 :=
  store16 (gmSwap16 srcPort) ++ store16 (gmSwap16 dstPort) ++
    store32 (gmSwap32 segment.seq) ++ store32 (gmSwap32 segment.ack) ++
    [(5 : UInt8) <<< 4, segment.flags] ++
    store16 (gmSwap16 (UInt16.ofNat gmTcpRxSize)) ++
    store16 (gmSwap16 checksum) ++ store16 0 ++ segment.payload

/-- The packet `gm_tcp_segment` hands to the IPv4 layer. -/
def gmTcpPacket (src dst : List UInt8) (srcPort dstPort : UInt16)
    (segment : GmSegment) : List UInt8 :=
  gmTcpBytes srcPort dstPort segment
    (gmTcpChecksum src dst (gmTcpBytes srcPort dstPort segment 0))

/-- The validation part of `gm_tcp_input`: `peer` and `ip` are the connected
address and the own address, `remotePort` and `localPort` the connected
ports. -/
def gmTcpDecode (peer ip : List UInt8) (remotePort localPort : UInt16)
    (src data : List UInt8) : Option GmSegment :=
  let len := data.length
  if len < gmTcpHeaderSize then none
  else if src ≠ peer then none
  else
    let headerLen := ((data.getD 12 0) >>> 4).toNat * 4
    if headerLen < gmTcpHeaderSize ∨ len < headerLen then none
    else if gmSwap16 (load16 data 0) ≠ remotePort ∨
        gmSwap16 (load16 data 2) ≠ localPort then none
    else if gmTcpChecksum src ip data ≠ 0 then none
    else some
      { seq := gmSwap32 (load32 data 4)
        ack := gmSwap32 (load32 data 8)
        flags := data.getD 13 0
        payload := data.drop headerLen }

end Gmker.Net
