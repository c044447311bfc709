import Gmker.Link.Station

/-!
# What arriving frames can do

Frames that arrive change the variables of `net.c` in few ways: an ARP packet
changes the table, an ICMP message the reply of a ping, a UDP datagram the reply
of an exchange.  Everything else they leave as it was, apart from the frames
that are sent in answer.  The module follows this through any number of pumps.
-/

namespace Gmker.Link

open Net

variable {frame : List UInt8} {station : GmStation} {before after : GmNet}

/-- What arriving frames keep. -/
structure Kept (before after : GmNet) : Prop where
  config : after.config = before.config
  pingSeq : after.pingSeq = before.pingSeq
  exchange : { after.udp with reply := before.udp.reply } = before.udp
  sent : before.frames <+: after.frames

namespace Kept

theorem refl (net : GmNet) : Kept net net :=
  ⟨rfl, rfl, rfl, List.prefix_refl _⟩

theorem trans {first second third : GmNet} (left : Kept first second)
    (right : Kept second third) : Kept first third where
  config := right.config.trans left.config
  pingSeq := right.pingSeq.trans left.pingSeq
  exchange := by
    rw [← left.exchange, ← right.exchange]
  sent := left.sent.trans right.sent

end Kept

/-- What sending changes: counters and the record of frames. -/
structure OnlySends (before after : GmNet) : Prop where
  kept : Kept before after
  arp : after.arp = before.arp
  pingReply : after.pingReply = before.pingReply
  udp : after.udp = before.udp
  online : after.online = before.online

namespace OnlySends

theorem refl (net : GmNet) : OnlySends net net :=
  ⟨.refl net, rfl, rfl, rfl, rfl⟩

theorem trans {first second third : GmNet} (left : OnlySends first second)
    (right : OnlySends second third) : OnlySends first third where
  kept := left.kept.trans right.kept
  arp := right.arp.trans left.arp
  pingReply := right.pingReply.trans left.pingReply
  udp := right.udp.trans left.udp
  online := right.online.trans left.online

theorem counted (net : GmNet) :
    OnlySends net { net with rxPackets := net.rxPackets + 1 } :=
  ⟨⟨rfl, rfl, rfl, List.prefix_refl _⟩, rfl, rfl, rfl, rfl⟩

end OnlySends

theorem gmEthSend_only (dst : GmMac) (type : UInt16) (data : List UInt8)
    (net : GmNet) : OnlySends net (gmEthSend dst type data net).2 := by
  unfold gmEthSend
  split
  · exact .refl net
  · simp only
    split
    · exact ⟨⟨rfl, rfl, rfl, List.prefix_append _ _⟩, rfl, rfl, rfl, rfl⟩
    · exact ⟨⟨rfl, rfl, rfl, List.prefix_append _ _⟩, rfl, rfl, rfl, rfl⟩

theorem gmIpv4Send_only (dst : GmIp) (protocol : UInt8) (data : List UInt8)
    (net : GmNet) : OnlySends net (gmIpv4Send dst protocol data net).2 := by
  unfold gmIpv4Send
  split
  · exact .refl net
  · split
    · exact .refl net
    · rename_i mac _
      have sent := gmEthSend_only mac gmEthIpv4 (gmIpv4Packet net.config.ip
        dst protocol (net.ipId + 1) data) { net with ipId := net.ipId + 1 }
      exact ⟨⟨sent.kept.config, sent.kept.pingSeq, sent.kept.exchange,
        sent.kept.sent⟩, sent.arp, sent.pingReply, sent.udp, sent.online⟩

/-- The TCP connection changes nothing else of `net.c`. -/
theorem GmStation.transmit_only (station : GmStation) (host : GmHost) :
    OnlySends station.net (station.transmit host).net := by
  have events : ∀ (events : List GmNetEvent) (net : GmNet),
      OnlySends net (events.foldl station.tcpOutput net) := by
    intro events
    induction events with
    | nil => exact .refl
    | cons event events induction =>
      intro net
      refine .trans ?_ (induction _)
      cases event with
      | sent segment ok => exact gmIpv4Send_only _ _ _ net
      | _ => exact .refl net
  exact events _ _

/-! ## One frame -/

/-- The type field of a frame. -/
def frameType (frame : List UInt8) : UInt16 :=
  ((frame.getD 12 0).toUInt16 <<< 8) ||| (frame.getD 13 0).toUInt16

/-- The datagram that `gm_ipv4_packet` finds in a frame. -/
def frameDatagram (config : GmIpConfig) (frame : List UInt8) :
    Option GmDatagram :=
  if frame.length < 14 ∨ frameType frame ≠ gmEthIpv4 then none
  else gmIpv4Decode config (frame.drop 14)

/-- The ARP packet in a frame. -/
def frameArp (frame : List UInt8) : Option (List UInt8) :=
  if frame.length < 14 ∨ frameType frame ≠ gmEthArp then none
  else some (frame.drop 14)

/-- The ways in which a frame changes the variables of `net.c`. -/
inductive Hears (frame : List UInt8) (net : GmNet) : GmNet → Prop where
  | sends {after : GmNet} (only : OnlySends net after) : Hears frame net after
  | arp (packet : List UInt8) (found : frameArp frame = some packet) :
      Hears frame net (gmArpInput packet net)
  | icmp (datagram : GmDatagram)
      (found : frameDatagram net.config frame = some datagram)
      (kind : datagram.protocol = gmProtoIcmp) :
      Hears frame net (gmIcmpInput datagram.src datagram.data net)
  | udp (datagram : GmDatagram)
      (found : frameDatagram net.config frame = some datagram)
      (kind : datagram.protocol = gmProtoUdp) :
      Hears frame net (gmUdpInput datagram.src datagram.data net)

theorem gmEthInput_eq (frame : List UInt8) (station : GmStation) :
    gmEthInput frame station =
      if frame.length < 14 then station
      else if frameType frame = gmEthArp then
        station.withNet (gmArpInput (frame.drop 14) station.net)
      else if frameType frame = gmEthIpv4 then
        match gmIpv4Decode station.net.config (frame.drop 14) with
        | none => station
        | some datagram => gmIpv4Input datagram station
      else station :=
  rfl

theorem gmEthInput_datagram {datagram : GmDatagram}
    (found : frameDatagram station.net.config frame = some datagram) :
    gmEthInput frame station = gmIpv4Input datagram station := by
  unfold frameDatagram at found
  split at found
  · cases found
  · rename_i inside
    rw [not_or, not_not] at inside
    have other : frameType frame ≠ gmEthArp := by
      rw [inside.2]
      decide
    rw [gmEthInput_eq, if_neg inside.1, if_neg other, if_pos inside.2, found]

theorem gmEthInput_arp {frame packet : List UInt8} (station : GmStation)
    (found : frameArp frame = some packet) :
    gmEthInput frame station =
      station.withNet (gmArpInput packet station.net) := by
  unfold frameArp at found
  split at found
  · cases found
  · rename_i inside
    rw [not_or, not_not] at inside
    obtain rfl := Option.some.inj found
    rw [gmEthInput_eq, if_neg inside.1, if_pos inside.2]

theorem gmEthInput_other
    (noDatagram : frameDatagram station.net.config frame = none)
    (noArp : frameArp frame = none) : gmEthInput frame station = station := by
  rw [gmEthInput_eq]
  by_cases short : frame.length < 14
  · rw [if_pos short]
  · have otherArp : frameType frame ≠ gmEthArp := by
      intro same
      rw [frameArp, if_neg (by simp [short, same])] at noArp
      cases noArp
    rw [if_neg short, if_neg otherArp]
    by_cases ipv4 : frameType frame = gmEthIpv4
    · rw [frameDatagram, if_neg (by simp [short, ipv4])] at noDatagram
      rw [if_pos ipv4, noDatagram]
    · rw [if_neg ipv4]

theorem gmIpv4Input_hears {datagram : GmDatagram}
    (found : frameDatagram station.net.config frame = some datagram) :
    Hears frame station.net (gmIpv4Input datagram station).net := by
  unfold gmIpv4Input
  split
  · rename_i kind
    exact .icmp datagram found kind
  · split
    · exact .sends (station.transmit_only _)
    · split
      · rename_i kind
        exact .udp datagram found kind
      · exact .sends (.refl _)

theorem gmEthInput_hears (frame : List UInt8) (station : GmStation) :
    Hears frame station.net (gmEthInput frame station).net := by
  cases found : frameDatagram station.net.config frame with
  | some datagram =>
    rw [gmEthInput_datagram found]
    exact gmIpv4Input_hears found
  | none =>
    cases arp : frameArp frame with
    | some packet =>
      rw [gmEthInput_arp station arp]
      exact .arp packet arp
    | none =>
      rw [gmEthInput_other found arp]
      exact .sends (.refl _)

/-! ## What the handlers keep -/

theorem gmArpInput_kept (packet : List UInt8) (net : GmNet) :
    Kept net (gmArpInput packet net) ∧
      (gmArpInput packet net).pingReply = net.pingReply ∧
      (gmArpInput packet net).udp = net.udp := by
  unfold gmArpInput
  split
  · exact ⟨.refl net, rfl, rfl⟩
  · split
    · exact ⟨.refl net, rfl, rfl⟩
    · have put : Kept net
          (gmArpPut (loadIp packet 14) (loadMac packet 8) net) :=
        ⟨rfl, rfl, rfl, List.prefix_refl _⟩
      simp only
      split
      · have sent := gmEthSend_only (loadMac packet 8) gmEthArp
          (gmArpPacket 2 net.mac net.config.ip (loadMac packet 8)
            (loadIp packet 14))
          (gmArpPut (loadIp packet 14) (loadMac packet 8) net)
        exact ⟨put.trans sent.kept, sent.pingReply, sent.udp⟩
      · exact ⟨put, rfl, rfl⟩

/-- The message is the echo reply that the running ping waits for. -/
def IsEchoReply (seq : UInt16) (data : List UInt8) : Prop :=
  8 ≤ data.length ∧ gmChecksum data = 0 ∧ data.getD 0 0 = 0 ∧
    data.getD 1 0 = 0 ∧ gmSwap16 (load16 data 6) = seq

theorem gmIcmpInput_kept (src : GmIp) (data : List UInt8) (net : GmNet) :
    Kept net (gmIcmpInput src data net) ∧
      (gmIcmpInput src data net).udp = net.udp ∧
      (gmIcmpInput src data net).online = net.online ∧
      ((gmIcmpInput src data net).pingReply = net.pingReply ∨
        IsEchoReply net.pingSeq data ∧
          (gmIcmpInput src data net).pingReply = net.pingSeq) ∧
      (gmIcmpInput src data net).arp = net.arp := by
  unfold gmIcmpInput
  split
  · exact ⟨.refl net, rfl, rfl, .inl rfl, rfl⟩
  · rename_i valid
    rw [not_or, not_not] at valid
    unfold gmIcmpHandle
    split
    · rename_i reply
      exact ⟨⟨rfl, rfl, rfl, List.prefix_refl _⟩, rfl, rfl, .inr
        ⟨⟨Nat.le_of_not_lt valid.1, valid.2, reply.1, reply.2.1,
          reply.2.2⟩, rfl⟩, rfl⟩
    · split
      · exact ⟨.refl net, rfl, rfl, .inl rfl, rfl⟩
      · have sent := gmIpv4Send_only src gmProtoIcmp (gmIcmpReply data
          (gmChecksum (gmIcmpReply data 0))) net
        exact ⟨sent.kept, sent.udp, sent.online, .inl sent.pingReply,
          sent.arp⟩

theorem gmUdpInput_kept (src : GmIp) (data : List UInt8) (net : GmNet) :
    Kept net (gmUdpInput src data net) ∧
      (gmUdpInput src data net).pingReply = net.pingReply ∧
      ((gmUdpInput src data net).udp = net.udp ∨
        ∃ payload, gmUdpDecode src data net = some payload ∧
          (gmUdpInput src data net).udp =
            { net.udp with reply := payload }) ∧
      (gmUdpInput src data net).arp = net.arp := by
  unfold gmUdpInput
  split
  · exact ⟨.refl net, rfl, .inl rfl, rfl⟩
  · rename_i payload decoded
    exact ⟨⟨rfl, rfl, rfl, List.prefix_refl _⟩, rfl,
      .inr ⟨payload, decoded, rfl⟩, rfl⟩

theorem Hears.kept (hears : Hears frame before after) : Kept before after := by
  cases hears with
  | sends only => exact only.kept
  | arp packet found => exact (gmArpInput_kept packet before).1
  | icmp datagram found kind => exact (gmIcmpInput_kept _ _ before).1
  | udp datagram found kind => exact (gmUdpInput_kept _ _ before).1

/-! ## Many frames -/

/-- The frames that the next pump takes in. -/
def GmStation.incoming (station : GmStation) : List (List UInt8) :=
  if station.net.online then (station.arrivals station.host.pumped).frames
  else []

/-- A row of frames changes the variables of `net.c` one frame after the
other. -/
inductive HearsAll : List (List UInt8) → GmNet → GmNet → Prop where
  | none (net : GmNet) : HearsAll [] net net
  | next {frame : List UInt8} {frames : List (List UInt8)}
      {before middle after : GmNet}
      (one : Hears frame
        { before with rxPackets := before.rxPackets + 1 } middle)
      (rest : HearsAll frames middle after) :
      HearsAll (frame :: frames) before after

theorem gmEthInput_all (frames : List (List UInt8)) (station : GmStation) :
    HearsAll frames station.net
      (frames.foldl (fun station frame => gmEthInput frame (station.withNet
        { station.net with rxPackets := station.net.rxPackets + 1 }))
          station).net := by
  induction frames generalizing station with
  | nil => exact .none station.net
  | cons frame frames induction =>
    rw [List.foldl_cons]
    exact .next (gmEthInput_hears frame (station.withNet
      { station.net with rxPackets := station.net.rxPackets + 1 }))
      (induction _)

theorem gmNetPoll_hears (polled : GmPolled) (station : GmStation) :
    ∃ net, HearsAll (if station.net.online then polled.frames else [])
        station.net net ∧
      ((gmNetPoll polled station).net = net ∨
        (gmNetPoll polled station).net = { net with online := false }) := by
  unfold gmNetPoll
  cases station.net.online with
  | false => exact ⟨station.net, .none _, .inl rfl⟩
  | true =>
    refine ⟨_, gmEthInput_all polled.frames station, ?_⟩
    cases polled.failed with
    | false => exact .inl rfl
    | true => exact .inr rfl

/-- A pump takes the incoming frames in, may find the device dead, and sends a
segment again. -/
theorem gmPump_hears (station : GmStation) :
    ∃ net, HearsAll station.incoming station.net net ∧
      (OnlySends net (gmPump station).net ∨
        OnlySends { net with online := false } (gmPump station).net) := by
  obtain ⟨net, heard, polled⟩ := gmNetPoll_hears
    (station.arrivals station.host.pumped)
    (station.withHost { station.host with pumped := station.host.pumped + 1 })
  refine ⟨net, heard, ?_⟩
  rcases polled with same | offline
  · rw [← same]
    exact .inl (GmStation.transmit_only _ _)
  · rw [← offline]
    exact .inr (GmStation.transmit_only _ _)

theorem HearsAll.kept {frames : List (List UInt8)}
    (hears : HearsAll frames before after) : Kept before after := by
  induction hears with
  | none net => exact .refl net
  | next one rest induction =>
    exact ((OnlySends.counted _).kept.trans one.kept).trans induction

theorem gmPump_kept (station : GmStation) :
    Kept station.net (gmPump station).net := by
  obtain ⟨net, heard, online | offline⟩ := gmPump_hears station
  · exact heard.kept.trans online.kept
  · have down : Kept net { net with online := false } :=
      ⟨rfl, rfl, rfl, List.prefix_refl _⟩
    exact heard.kept.trans (down.trans offline.kept)

/-- Some pumps one after the other. -/
def gmPumps : Nat → GmStation → GmStation
  | 0, station => station
  | count + 1, station => gmPumps count (gmPump station)

/-- The frames that they take in. -/
def received : Nat → GmStation → List (List UInt8)
  | 0, _ => []
  | count + 1, station => station.incoming ++ received count (gmPump station)

theorem gmPumps_kept (count : Nat) (station : GmStation) :
    Kept station.net (gmPumps count station).net := by
  induction count generalizing station with
  | zero => exact .refl station.net
  | succ count induction =>
    exact (gmPump_kept station).trans (induction (gmPump station))

/-! ## Preparing -/

theorem gmArpRequest_only (ip : GmIp) (net : GmNet) :
    OnlySends net (gmArpRequest ip net) :=
  gmEthSend_only _ _ _ net

theorem gmNetPrepareLoop_kept (hop : GmIp) (start timeout fuel : Nat)
    (last : Int) (station : GmStation) :
    Kept station.net
      (gmNetPrepareLoop hop start timeout fuel last station).2.net := by
  induction fuel generalizing last station with
  | zero => exact .refl station.net
  | succ fuel induction =>
    unfold gmNetPrepareLoop
    split
    · dsimp only
      split
      · have asked := (gmArpRequest_only hop station.net).kept.trans
          (gmPump_kept (station.withNet (gmArpRequest hop station.net)))
        split
        · exact asked
        · exact asked.trans (induction _ _)
      · have waited := gmPump_kept station
        split
        · exact waited
        · exact waited.trans (induction _ _)
    · exact .refl station.net

theorem gmNetPrepare_kept (dst : GmIp) (timeout : Nat) (station : GmStation) :
    Kept station.net (gmNetPrepare dst timeout station).2.net := by
  unfold gmNetPrepare
  simp only
  split
  · exact .refl station.net
  · split
    · exact .refl station.net
    · exact gmNetPrepareLoop_kept _ _ _ _ _ station

/-! ## Values that frames set

A variable that waiting code looks at changes only when a frame sets it.  Which
frames do so is said once; then a value that was not there before comes from one
of the frames that were taken in. -/

/-- A value, and the frames that set it as long as an exchange goes on. -/
structure Tracked (Value : Type) where
  value : GmNet → Value
  /-- The frame sets the value. -/
  Sets : List UInt8 → Value → Prop
  /-- The exchange goes on. -/
  Waiting : GmNet → Prop
  step : ∀ {frame before after}, Waiting before → Hears frame before after →
    value after = value before ∨ Sets frame (value after)
  kept : ∀ {before after}, Kept before after → Waiting before → Waiting after
  sends : ∀ {before after}, OnlySends before after → value after = value before
  offline : ∀ net, value { net with online := false } = value net

namespace Tracked

variable {Value : Type} (tracked : Tracked Value)

theorem heard {frames : List (List UInt8)} (waiting : tracked.Waiting before)
    (hears : HearsAll frames before after) :
    tracked.value after = tracked.value before ∨
      ∃ frame ∈ frames, tracked.Sets frame (tracked.value after) := by
  induction hears with
  | none net => exact .inl rfl
  | @next frame frames before middle after one rest induction =>
    have goesOn := tracked.kept (OnlySends.counted before).kept waiting
    rcases induction (tracked.kept one.kept goesOn) with same | later
    · rw [same]
      rcases tracked.step goesOn one with unchanged | set
      · exact .inl (unchanged.trans (tracked.sends (.counted before)))
      · exact .inr ⟨frame, List.mem_cons_self, set⟩
    · obtain ⟨other, member, set⟩ := later
      exact .inr ⟨other, List.mem_cons_of_mem _ member, set⟩

theorem pumped (waiting : tracked.Waiting station.net) :
    tracked.value (gmPump station).net = tracked.value station.net ∨
      ∃ frame ∈ station.incoming,
        tracked.Sets frame (tracked.value (gmPump station).net) := by
  obtain ⟨net, hears, online | offline⟩ := gmPump_hears station
  · rw [tracked.sends online]
    exact tracked.heard waiting hears
  · rw [tracked.sends offline, tracked.offline]
    exact tracked.heard waiting hears

theorem attributed (count : Nat) (waiting : tracked.Waiting station.net) :
    tracked.value (gmPumps count station).net = tracked.value station.net ∨
      ∃ frame ∈ received count station,
        tracked.Sets frame (tracked.value (gmPumps count station).net) := by
  induction count generalizing station with
  | zero => exact .inl rfl
  | succ count induction =>
    have goesOn := tracked.kept (gmPump_kept station) waiting
    rcases induction goesOn with same | later
    · rw [gmPumps, same]
      rcases tracked.pumped waiting with unchanged | set
      · exact .inl unchanged
      · obtain ⟨frame, member, set⟩ := set
        exact .inr ⟨frame, List.mem_append_left _ member, set⟩
    · obtain ⟨frame, member, set⟩ := later
      exact .inr ⟨frame, List.mem_append_right _ member, set⟩

end Tracked

/-- `gm_udp_exchange` waits in pumps. -/
theorem gmUdpWait_pumps (start timeout fuel : Nat) (station : GmStation) :
    ∃ count, gmUdpWait start timeout fuel station = gmPumps count station := by
  induction fuel generalizing station with
  | zero => exact ⟨0, rfl⟩
  | succ fuel induction =>
    unfold gmUdpWait
    split
    · obtain ⟨count, waited⟩ := induction (gmPump station)
      exact ⟨count + 1, waited⟩
    · exact ⟨0, rfl⟩

/-- A ping that succeeds has seen its number after some pumps. -/
theorem gmPingWait_pumps {start timeout fuel : Nat}
    {station final : GmStation}
    (found : gmPingWait start timeout fuel station = (true, final)) :
    ∃ count, final = gmPumps count station ∧
      final.net.pingReply = final.net.pingSeq := by
  induction fuel generalizing station with
  | zero => cases found
  | succ fuel induction =>
    unfold gmPingWait at found
    split at found
    · simp only at found
      split at found
      · rename_i seen
        cases found
        exact ⟨1, rfl, seen⟩
      · obtain ⟨count, waited, seen⟩ := induction found
        exact ⟨count + 1, waited, seen⟩
    · cases found

end Gmker.Link
