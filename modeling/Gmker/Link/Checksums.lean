import Gmker.Foundation.Loops
import Gmker.Link.Arrivals
import Gmker.Link.Decoding

/-!
# Checksums

The loops of the checksum routines of `net.c` and `tcpstore.c`, with the
variables they have in the source, end and compute complements of ones'
complement sums.  Such a sum notices every change of a single byte, so the
changed packet is rejected.
-/

namespace Gmker.Link

open Foundation Net

variable {data : List UInt8} {index : Nat} {byte : UInt8} {config : GmIpConfig}
  {datagram : GmDatagram}

/-! ## The summing loops -/

/-- The variables of a summing loop; `data` is how far the pointer is in the
bytes. -/
structure GmSumVars where
  sum : UInt32
  data : Nat
  len : UInt16

namespace GmSumVars

variable (bytes : List UInt8) (vars : GmSumVars)

/-- Add the word at the pointer. -/
def addWord : GmSumVars :=
  { vars with
    sum := vars.sum + (((bytes.getD vars.data 0).toUInt32 <<< 8) |||
      (bytes.getD (vars.data + 1) 0).toUInt32) }

def advance : GmSumVars := { vars with data := vars.data + 2 }

def shorten : GmSumVars := { vars with len := vars.len - 2 }

/-- The sum with the last byte of an odd length. -/
def finish : UInt32 :=
  if vars.len ≠ 0 then vars.sum + ((bytes.getD vars.data 0).toUInt32 <<< 8)
  else vars.sum

/-- The loop of `gm_sum_add` in `tcpstore.c`, and of `gm_checksum`. -/
def whileTurn : GmSumVars ⊕ UInt32 :=
  if 1 < vars.len then .inl (vars.addWord bytes).advance.shorten
  else .inr (vars.finish bytes)

/-- The loop of `gm_sum_add` in `net.c`. -/
def forTurn : GmSumVars ⊕ UInt32 :=
  if 1 < vars.len then .inl (vars.addWord bytes).shorten.advance
  else .inr (vars.finish bytes)

end GmSumVars

/-- The folding loop of `gm_sum_finish`, `gm_checksum` and
`gm_udp_checksum`. -/
def foldTurn (sum : UInt32) : UInt32 ⊕ UInt32 :=
  if sum >>> 16 ≠ 0 then .inl ((sum &&& (0xffff : UInt32)) + (sum >>> 16))
  else .inr sum

/-- The two implementations of `gm_sum_add` do the same. -/
theorem forTurn_eq_whileTurn : GmSumVars.forTurn = GmSumVars.whileTurn :=
  rfl

theorem whileTurn_ends {bytes : List UInt8} (vars : GmSumVars)
    (rest : List UInt8) (left : bytes.drop vars.data = rest)
    (length : rest.length = vars.len.toNat) :
    LoopEnds (GmSumVars.whileTurn bytes) vars (gmSumAdd vars.sum rest) := by
  have byteAt : ∀ offset, bytes.getD (vars.data + offset) 0 =
      rest.getD offset 0 := by
    intro offset
    rw [← left]
    simp [List.getD_eq_getElem?_getD]
  have first := byteAt 0
  have second := byteAt 1
  rw [Nat.add_zero] at first
  match rest with
  | [] =>
    have none : vars.len = 0 := UInt16.toNat_inj.mp length.symm
    apply LoopEnds.leave
    simp [GmSumVars.whileTurn, GmSumVars.finish, none, gmSumAdd]
  | [high] =>
    have one : vars.len = 1 := UInt16.toNat_inj.mp length.symm
    apply LoopEnds.leave
    simp only [GmSumVars.whileTurn, GmSumVars.finish, one, first]
    rfl
  | high :: low :: rest =>
    have bound := vars.len.toNat_lt
    have more : 1 < vars.len := by
      rw [UInt16.lt_iff_toNat_lt, ← length]
      simp
    have shorter : (vars.len - 2).toNat = rest.length := by
      have two : (2 : UInt16) ≤ vars.len := by
        rw [UInt16.le_iff_toNat_le, ← length]
        simp
      rw [UInt16.toNat_sub_of_le _ _ two, ← length]
      simp
    have taken : vars.whileTurn bytes =
        .inl (vars.addWord bytes).advance.shorten := by
      rw [GmSumVars.whileTurn, if_pos more]
    have sum : (vars.addWord bytes).advance.shorten.sum =
        vars.sum + ((high.toUInt32 <<< 8) ||| low.toUInt32) := by
      simp only [GmSumVars.addWord, GmSumVars.advance, GmSumVars.shorten,
        first, second]
      rfl
    refine .again taken ?_
    rw [gmSumAdd, ← sum]
    apply whileTurn_ends
    · change bytes.drop (vars.data + 2) = rest
      rw [← List.drop_drop, left]
      rfl
    · exact shorter.symm
termination_by rest.length

theorem foldTurn_ends (sum : UInt32) :
    LoopEnds foldTurn sum (gmSumFold 2 sum) := by
  refine ⟨3, ?_⟩
  have small : gmSumFold 2 sum >>> 16 = 0 := by
    rw [shift16_eq_zero, gmSumFold_toNat]
    exact endAround_lt _
  unfold gmSumFold gmSumFold gmSumFold at small ⊢
  unfold runLoop runLoop runLoop runLoop foldTurn
  by_cases first : sum >>> 16 ≠ 0
  · rw [if_pos first] at small ⊢
    rw [if_pos first]
    simp only
    by_cases second :
        ((sum &&& (0xffff : UInt32)) + (sum >>> 16)) >>> 16 ≠ 0
    · rw [if_pos second] at small ⊢
      rw [if_pos second]
      simp only
      rw [if_neg (by rw [small]; simp)]
    · rw [if_neg second, if_neg second]
  · rw [if_neg first, if_neg first]

/-! ## What they compute -/

/-- The pseudo header of TCP and UDP. -/
def pseudoHeader (protocol : UInt8) (src dst : GmIp) (len : UInt16) :
    List UInt8 :=
  src.val ++ (dst.val ++ [0, protocol, (len >>> 8).toUInt8, len.toUInt8])

theorem wordSum_pseudoHeader (protocol : UInt8) (src dst : GmIp)
    (len : UInt16) (data : List UInt8) :
    wordSum (pseudoHeader protocol src dst len ++ data) =
      wordSum src.val + wordSum dst.val + protocol.toNat + len.toNat +
        wordSum data := by
  have bound := len.toNat_lt
  have evenSrc : src.val.length % 2 = 0 := by rw [src.property]
  have evenDst : dst.val.length % 2 = 0 := by rw [dst.property]
  have high : (len >>> 8).toUInt8.toNat = len.toNat / 256 := by
    simp [Nat.shiftRight_eq_div_pow]
    omega
  have low : len.toUInt8.toNat = len.toNat % 256 := by simp
  rw [pseudoHeader, List.append_assoc, List.append_assoc,
    wordSum_append evenSrc, wordSum_append evenDst]
  simp only [List.cons_append, List.nil_append, wordSum, high, low]
  change _ + (_ + (256 * 0 + _ + _)) = _
  omega

/-- The words of a packet with its pseudo header fit 32 bits. -/
theorem wordSum_fits (src dst : GmIp) (protocol : UInt8) (len : UInt16)
    (bounded : data.length < 2 ^ 16) :
    wordSum src.val + wordSum dst.val + protocol.toNat + len.toNat +
      wordSum data < 2 ^ 32 := by
  have source := wordSum_ip src
  have destination := wordSum_ip dst
  have proto := protocol.toNat_lt
  have length := len.toNat_lt
  have sum := wordSum_le data
  omega

/-- The sum of `gm_tcp_checksum` before it is folded. -/
def gmTcpSum (src dst : GmIp) (data : List UInt8) : UInt32 :=
  let len := UInt16.ofNat data.length
  gmSumAdd (gmSumAdd (gmSumAdd (gmSumAdd 0 src.val) dst.val)
    [0, gmProtoTcp, (len >>> 8).toUInt8, len.toUInt8]) data

/-- The sum of `gm_udp_checksum` before it is folded. -/
def gmUdpSum (src dst : GmIp) (data : List UInt8) : UInt32 :=
  let sum := gmSumAdd (gmSumAdd 0 src.val) dst.val
  gmSumAdd (sum + gmProtoUdp.toUInt32 + UInt32.ofNat data.length) data

/-- The sum over both addresses is their words. -/
theorem gmSumAdd_addresses_toNat (src dst : GmIp) :
    (gmSumAdd (gmSumAdd 0 src.val) dst.val).toNat =
      wordSum src.val + wordSum dst.val := by
  have source := wordSum_ip src
  have destination := wordSum_ip dst
  have first : (gmSumAdd 0 src.val).toNat = 0 + wordSum src.val :=
    gmSumAdd_toNat 0 src.val (by change 0 + _ < _; omega)
  rw [gmSumAdd_toNat _ _ (by rw [first]; omega), first, Nat.zero_add]

section Exact

variable {data : List UInt8} (bounded : data.length < 2 ^ 16)
include bounded

theorem length_toNat :
    (UInt16.ofNat data.length).toNat = data.length := by
  rw [UInt16.toNat_ofNat']
  omega

theorem gmSumAdd_zero_toNat : (gmSumAdd 0 data).toNat = wordSum data := by
  have sum := wordSum_le data
  have added : (gmSumAdd 0 data).toNat = 0 + wordSum data :=
    gmSumAdd_toNat 0 data (by change 0 + _ < _; omega)
  rw [added, Nat.zero_add]

theorem gmTcpSum_toNat (src dst : GmIp) :
    (gmTcpSum src dst data).toNat = wordSum (pseudoHeader gmProtoTcp src dst
      (UInt16.ofNat data.length) ++ data) := by
  have fits := wordSum_fits src dst gmProtoTcp (UInt16.ofNat data.length)
    bounded
  have addresses := gmSumAdd_addresses_toNat src dst
  have pseudo := wordSum_pseudoHeader gmProtoTcp src dst
    (UInt16.ofNat data.length) []
  have nothing : wordSum [] = 0 := rfl
  rw [List.append_nil, pseudoHeader, wordSum_append (by rw [src.property]),
    wordSum_append (by rw [dst.property]), nothing] at pseudo
  rw [wordSum_pseudoHeader, gmTcpSum]
  generalize [(0 : UInt8), gmProtoTcp, _, _] = field at pseudo ⊢
  have third : (gmSumAdd (gmSumAdd (gmSumAdd 0 src.val) dst.val)
      field).toNat = wordSum src.val + wordSum dst.val + wordSum field := by
    rw [gmSumAdd_toNat _ _ (by rw [addresses]; omega), addresses]
  rw [gmSumAdd_toNat _ _ (by rw [third]; omega), third]
  omega

theorem gmUdpSum_toNat (src dst : GmIp) :
    (gmUdpSum src dst data).toNat = wordSum (pseudoHeader gmProtoUdp src dst
      (UInt16.ofNat data.length) ++ data) := by
  have fits := wordSum_fits src dst gmProtoUdp (UInt16.ofNat data.length)
    bounded
  have addresses := gmSumAdd_addresses_toNat src dst
  have protocol : gmProtoUdp.toUInt32.toNat = gmProtoUdp.toNat := rfl
  rw [length_toNat bounded] at fits
  have third : (gmSumAdd (gmSumAdd 0 src.val) dst.val + gmProtoUdp.toUInt32 +
      UInt32.ofNat data.length).toNat = wordSum src.val + wordSum dst.val +
        gmProtoUdp.toNat + data.length := by
    rw [UInt32.toNat_add, UInt32.toNat_add, addresses, protocol,
      UInt32.toNat_ofNat']
    omega
  rw [wordSum_pseudoHeader, length_toNat bounded, gmUdpSum]
  rw [gmSumAdd_toNat _ _ (by rw [third]; omega), third]

end Exact

/-- A finished sum is the complement of the ones' complement sum. -/
theorem gmSumFinish_onesSum {sum : UInt32} {bytes : List UInt8}
    (exact' : sum.toNat = wordSum bytes) :
    (gmSumFinish sum).toNat = 65535 - onesSum (words bytes) := by
  rw [gmSumFinish_toNat, exact', onesSum_words]

/-! ## What they notice -/

theorem gmSumFinish_eq_zero {sum : UInt32} :
    gmSumFinish sum = 0 ↔ endAround sum.toNat = 65535 := by
  have small := endAround_lt sum.toNat
  rw [← UInt16.toNat_inj, gmSumFinish_toNat]
  change 65535 - endAround sum.toNat = 0 ↔ _
  omega

/-- A sum that was fine is not after a change of one byte. -/
theorem gmSumFinish_changed {sum changed : UInt32} {base : Nat}
    (before : sum.toNat = base + wordSum data)
    (after : changed.toNat = base + wordSum (data.set index byte))
    (valid : gmSumFinish sum = 0) (inside : index < data.length)
    (other : byte ≠ data.getD index 0) : gmSumFinish changed ≠ 0 := by
  obtain ⟨weight, kind, shift⟩ := wordSum_set inside byte
  rw [gmSumFinish_eq_zero] at valid
  rw [ne_eq, gmSumFinish_eq_zero]
  refine endAround_changed valid kind (data.getD index 0).toNat_lt
    byte.toNat_lt ?_ (by omega)
  intro same
  exact other (UInt8.toNat_inj.mp same)

section Changed

variable {data : List UInt8} {index : Nat} {byte : UInt8}
  (inside : index < data.length) (other : byte ≠ data.getD index 0)
include inside other

theorem gmChecksum_changed (bounded : data.length < 2 ^ 16)
    (valid : gmChecksum data = 0) : gmChecksum (data.set index byte) ≠ 0 := by
  have before := gmSumAdd_zero_toNat bounded
  have after := gmSumAdd_zero_toNat
    (show (data.set index byte).length < 2 ^ 16 by
      rw [List.length_set]; exact bounded)
  exact gmSumFinish_changed (before.trans (Nat.zero_add _).symm)
    (after.trans (Nat.zero_add _).symm) valid inside other

theorem gmTcpChecksum_changed (bounded : data.length < 2 ^ 16) (src dst : GmIp)
    (valid : gmTcpChecksum src.val dst.val data = 0) :
    gmTcpChecksum src.val dst.val (data.set index byte) ≠ 0 := by
  have before := gmTcpSum_toNat bounded src dst
  have after := gmTcpSum_toNat
    (show (data.set index byte).length < 2 ^ 16 by
      rw [List.length_set]; exact bounded) src dst
  rw [wordSum_pseudoHeader] at before after
  rw [List.length_set] at after
  exact gmSumFinish_changed before after valid inside other

end Changed

/-! ## What is rejected -/

theorem gmTcpDecode_checksum {peer ip src data : List UInt8}
    {remotePort localPort : UInt16} {segment : GmSegment}
    (decoded : gmTcpDecode peer ip remotePort localPort src data =
      some segment) : gmTcpChecksum src ip data = 0 := by
  by_contra bad
  unfold gmTcpDecode at decoded
  simp only [if_pos bad, ite_self] at decoded
  cases decoded

theorem gmTcpDecode_invalid {peer ip src data : List UInt8}
    {remotePort localPort : UInt16} (bad : gmTcpChecksum src ip data ≠ 0) :
    gmTcpDecode peer ip remotePort localPort src data = none := by
  unfold gmTcpDecode
  simp only [if_pos bad, ite_self]

/-- The length of the IPv4 header. -/
def ipv4HeaderLength (packet : List UInt8) : Nat :=
  (packet.getD 0 0 &&& 0x0f).toNat * 4

theorem gmIpv4Decode_checksum
    (decoded : gmIpv4Decode config data = some datagram) :
    gmChecksum (data.take (ipv4HeaderLength data)) = 0 ∧
      ipv4HeaderLength data ≤ data.length := by
  unfold gmIpv4Decode at decoded
  simp only at decoded
  split at decoded
  · cases decoded
  split at decoded
  · cases decoded
  split at decoded
  · cases decoded
  rename_i lengths
  split at decoded
  · cases decoded
  split at decoded
  · cases decoded
  rename_i valid
  rw [not_or] at lengths
  exact ⟨not_not.mp valid, Nat.le_of_not_lt lengths.1⟩

theorem gmIpv4Decode_invalid
    (bad : gmChecksum (data.take (ipv4HeaderLength data)) ≠ 0) :
    gmIpv4Decode config data = none := by
  unfold ipv4HeaderLength at bad
  unfold gmIpv4Decode
  simp only [if_pos bad, ite_self]

theorem gmTcpInput_changed {packet changed : GmPacket} {host : GmHost}
    {src ip : GmIp} {segment : GmSegment} (source : packet.src = src.val)
    (own : host.config.ip = ip.val)
    (accepted : gmTcpDecode host.tcp.dst host.config.ip host.tcp.dstPort
      host.tcp.srcPort packet.src packet.data = some segment)
    (inside : index < packet.data.length)
    (other : byte ≠ packet.data.getD index 0)
    (sameSource : changed.src = packet.src)
    (oneByte : changed.data = packet.data.set index byte) :
    gmTcpInput changed host = host := by
  have valid := gmTcpDecode_checksum accepted
  rw [source, own] at valid
  have bad := gmTcpChecksum_changed inside other packet.bounded src ip valid
  unfold gmTcpInput
  rw [sameSource, oneByte, source, own, gmTcpDecode_invalid bad]

theorem gmIcmpInput_changed {src : GmIp} (net : GmNet)
    (bounded : data.length < 2 ^ 16) (valid : gmChecksum data = 0)
    (inside : index < data.length) (other : byte ≠ data.getD index 0) :
    gmIcmpInput src (data.set index byte) net = net := by
  have bad := gmChecksum_changed inside other bounded valid
  rw [gmIcmpInput, if_pos (.inr bad)]

theorem gmIpv4Decode_changed
    (accepted : gmIpv4Decode config data = some datagram) (behind : 1 ≤ index)
    (inside : index < ipv4HeaderLength data) (other : byte ≠ data.getD index 0) :
    gmIpv4Decode config (data.set index byte) = none := by
  obtain ⟨valid, long⟩ := gmIpv4Decode_checksum accepted
  have sameLength : ipv4HeaderLength (data.set index byte) =
      ipv4HeaderLength data := by
    have first : (data.set index byte).getD 0 0 = data.getD 0 0 := by
      rw [List.getD_eq_getElem?_getD, List.getD_eq_getElem?_getD,
        List.getElem?_set_ne (by omega)]
    rw [ipv4HeaderLength, ipv4HeaderLength, first]
  have size : (data.take (ipv4HeaderLength data)).length =
      ipv4HeaderLength data := by
    rw [List.length_take]
    omega
  have bounded : (data.take (ipv4HeaderLength data)).length < 2 ^ 16 := by
    have nibble : (data.getD 0 0 &&& 0x0f).toNat < 256 := UInt8.toNat_lt _
    rw [size, ipv4HeaderLength]
    omega
  apply gmIpv4Decode_invalid
  rw [sameLength, List.take_set]
  apply gmChecksum_changed _ _ bounded valid
  · rw [size]
    exact inside
  · rw [List.getD_eq_getElem?_getD, List.getElem?_take_of_lt inside,
      ← List.getD_eq_getElem?_getD]
    exact other

theorem gmEthInput_changed {station : GmStation} {frame : List UInt8}
    (accepted : frameDatagram station.net.config frame = some datagram)
    (behind : 1 ≤ index) (inside : index < ipv4HeaderLength (frame.drop 14))
    (other : byte ≠ frame.getD (14 + index) 0) :
    gmEthInput (frame.set (14 + index) byte) station = station := by
  have shown : ∀ offset, offset < 14 →
      (frame.set (14 + index) byte).getD offset 0 = frame.getD offset 0 := by
    intro offset before
    rw [List.getD_eq_getElem?_getD, List.getD_eq_getElem?_getD,
      List.getElem?_set_ne (by omega)]
  have type : frameType (frame.set (14 + index) byte) = frameType frame := by
    rw [frameType, frameType, shown 12 (by decide), shown 13 (by decide)]
  have rest : (frame.set (14 + index) byte).drop 14 =
      (frame.drop 14).set index byte := by
    rw [List.drop_set, if_neg (by omega), Nat.add_sub_cancel_left]
  unfold frameDatagram at accepted
  split at accepted
  · cases accepted
  rename_i ipv4
  rw [not_or, not_not] at ipv4
  apply gmEthInput_other
  · rw [frameDatagram, rest, gmIpv4Decode_changed accepted behind inside,
      ite_self]
    rw [List.getD_eq_getElem?_getD, List.getElem?_drop,
      ← List.getD_eq_getElem?_getD]
    exact other
  · rw [frameArp, if_pos]
    right
    rw [type, ipv4.2]
    decide

/-! ## All routines -/

/-- The loops of the source end with what the model computes, and the two
implementations of `gm_sum_add` agree. -/
structure SumLoopsEnd : Prop where
  summing : ∀ (sum : UInt32) (bytes : List UInt8), bytes.length < 2 ^ 16 →
    LoopEnds (GmSumVars.whileTurn bytes)
      ⟨sum, 0, UInt16.ofNat bytes.length⟩ (gmSumAdd sum bytes)
  agree : ∀ (bytes : List UInt8) (vars : GmSumVars) (result : UInt32),
    LoopEnds (GmSumVars.forTurn bytes) vars result ↔
      LoopEnds (GmSumVars.whileTurn bytes) vars result
  folding : ∀ sum : UInt32, LoopEnds foldTurn sum (gmSumFold 2 sum)

/-- The 32-bit sums are exact, and the checksums are the complements of the
ones' complement sums. -/
structure ChecksumsExact : Prop where
  checksum : ∀ data : List UInt8, data.length < 2 ^ 16 →
    (gmSumAdd 0 data).toNat = wordSum data ∧
      (gmChecksum data).toNat = 65535 - onesSum (words data)
  tcp : ∀ (src dst : GmIp) (data : List UInt8), data.length < 2 ^ 16 →
    (gmTcpSum src dst data).toNat = wordSum (pseudoHeader gmProtoTcp src dst
      (UInt16.ofNat data.length) ++ data) ∧
    (gmTcpChecksum src.val dst.val data).toNat = 65535 - onesSum (words
      (pseudoHeader gmProtoTcp src dst (UInt16.ofNat data.length) ++ data))
  udp : ∀ (src dst : GmIp) (data : List UInt8), data.length < 2 ^ 16 →
    (gmUdpSum src dst data).toNat = wordSum (pseudoHeader gmProtoUdp src dst
      (UInt16.ofNat data.length) ++ data) ∧
    (gmUdpChecksum src dst data).toNat = 65535 - onesSum (words
      (pseudoHeader gmProtoUdp src dst (UInt16.ofNat data.length) ++ data))

/-- What was accepted is rejected, with nothing changed, once one byte of it is
another. -/
structure ChangesRejected : Prop where
  tcp : ∀ (packet changed : GmPacket) (host : GmHost) (src ip : GmIp)
    (segment : GmSegment) (index : Nat) (byte : UInt8),
    packet.src = src.val → host.config.ip = ip.val →
    gmTcpDecode host.tcp.dst host.config.ip host.tcp.dstPort host.tcp.srcPort
      packet.src packet.data = some segment →
    index < packet.data.length → byte ≠ packet.data.getD index 0 →
    changed.src = packet.src → changed.data = packet.data.set index byte →
      gmTcpInput changed host = host
  icmp : ∀ (src : GmIp) (data : List UInt8) (net : GmNet) (index : Nat)
    (byte : UInt8), data.length < 2 ^ 16 → gmChecksum data = 0 →
    index < data.length → byte ≠ data.getD index 0 →
      gmIcmpInput src (data.set index byte) net = net
  ipv4 : ∀ (station : GmStation) (frame : List UInt8)
    (datagram : GmDatagram) (index : Nat) (byte : UInt8),
    frameDatagram station.net.config frame = some datagram → 1 ≤ index →
    index < ipv4HeaderLength (frame.drop 14) →
    byte ≠ frame.getD (14 + index) 0 →
      gmEthInput (frame.set (14 + index) byte) station = station

/-- The checksum routines are exact, and every change of one byte is
noticed. -/
theorem checksums_exact :
    SumLoopsEnd ∧ ChecksumsExact ∧ ChangesRejected := by
  refine ⟨⟨?_, ?_, ?_⟩, ⟨?_, ?_, ?_⟩, ⟨?_, ?_, ?_⟩⟩
  · intro sum bytes bounded
    exact whileTurn_ends ⟨sum, 0, UInt16.ofNat bytes.length⟩ bytes rfl
      (length_toNat bounded).symm
  · intro bytes vars result
    rw [forTurn_eq_whileTurn]
  · exact foldTurn_ends
  · intro data bounded
    have added := gmSumAdd_zero_toNat bounded
    exact ⟨added, gmSumFinish_onesSum added⟩
  · intro src dst data bounded
    have added := gmTcpSum_toNat bounded src dst
    exact ⟨added, gmSumFinish_onesSum added⟩
  · intro src dst data bounded
    have added := gmUdpSum_toNat bounded src dst
    exact ⟨added, gmSumFinish_onesSum added⟩
  · intro packet changed host src ip segment index byte source own accepted
      inside other sameSource oneByte
    exact gmTcpInput_changed source own accepted inside other sameSource
      oneByte
  · intro src data net index byte bounded valid inside other
    exact gmIcmpInput_changed net bounded valid inside other
  · intro station frame datagram index byte accepted behind inside other
    exact gmEthInput_changed accepted behind inside other

theorem checksums_exact_applied :
    gmTcpInput ⟨[10, 0, 2, 2], (serverPacket 5 6 gmTcpFlagAck []).data.set 4 1,
        by decide +kernel⟩
      { tcp := { dst := [10, 0, 2, 2], srcPort := 40000, dstPort := 7070 } } =
        { tcp := { dst := [10, 0, 2, 2], srcPort := 40000, dstPort := 7070 } } ∧
      gmIcmpInput ⟨[10, 0, 2, 2], rfl⟩ [8, 0, 0xf7, 0xff, 0, 1, 0, 0]
        (gmNetInit ⟨⟨[10, 0, 2, 15], rfl⟩, ⟨[255, 255, 255, 0], rfl⟩,
          ⟨[10, 0, 2, 2], rfl⟩⟩ none fun _ => true) =
        gmNetInit ⟨⟨[10, 0, 2, 15], rfl⟩, ⟨[255, 255, 255, 0], rfl⟩,
          ⟨[10, 0, 2, 2], rfl⟩⟩ none fun _ => true := by
  obtain ⟨_, _, rejected⟩ := checksums_exact
  constructor
  · exact rejected.tcp (serverPacket 5 6 gmTcpFlagAck []) _ _
      ⟨[10, 0, 2, 2], rfl⟩ ⟨[10, 0, 2, 15], rfl⟩ ⟨5, 6, gmTcpFlagAck, []⟩ 4 1
      rfl rfl (by decide +kernel) (by decide +kernel) (by decide +kernel) rfl
      rfl
  · exact rejected.icmp ⟨[10, 0, 2, 2], rfl⟩ [8, 0, 0xf7, 0xff, 0, 0, 0, 0] _
      5 1 (by decide) (by decide +kernel) (by decide) (by decide)

end Gmker.Link
