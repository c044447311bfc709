import Gmker.Link.Arrivals

/-!
# The UDP exchange

`gm_udp_exchange` returns the payload of a datagram that arrived in the call,
from the peer and the port it asked, to the port it asked from.  Datagrams that
arrive outside a call, from elsewhere or for another port change nothing.
-/

namespace Gmker.Link

open Net

variable {station : GmStation}

/-- The length field of a UDP datagram. -/
def udpLength (data : List UInt8) : Nat := (gmSwap16 (load16 data 4)).toNat

/-- The datagram answers the exchange, with a payload. -/
structure Answers (config : GmIpConfig) (peer : GmIp) (remote own : UInt16)
    (datagram : GmDatagram) (payload : List UInt8) : Prop where
  protocol : datagram.protocol = gmProtoUdp
  src : datagram.src = peer
  fromPort : gmSwap16 (load16 datagram.data 0) = remote
  toPort : gmSwap16 (load16 datagram.data 2) = own
  atLeast : gmUdpHeaderSize ≤ udpLength datagram.data
  atMost : udpLength datagram.data ≤ datagram.data.length
  checksum : load16 datagram.data 6 = 0 ∨
    gmUdpChecksum peer config.ip
      (datagram.data.take (udpLength datagram.data)) = 0
  content : payload = (datagram.data.drop gmUdpHeaderSize).take
    (udpLength datagram.data - gmUdpHeaderSize)
  size : payload.length = udpLength datagram.data - gmUdpHeaderSize

theorem gmUdpDecode_answers {datagram : GmDatagram} {net : GmNet}
    {payload : List UInt8} (kind : datagram.protocol = gmProtoUdp)
    (decoded : gmUdpDecode datagram.src datagram.data net = some payload) :
    Answers net.config net.udp.peer net.udp.remotePort net.udp.localPort
      datagram payload := by
  unfold gmUdpDecode at decoded
  dsimp only at decoded
  split at decoded
  · cases decoded
  split at decoded
  · cases decoded
  rename_i lengths
  split at decoded
  · cases decoded
  rename_i ends
  split at decoded
  · cases decoded
  rename_i sums
  split at decoded
  · cases decoded
  obtain rfl := Option.some.inj decoded
  rw [not_or, Nat.not_lt, Nat.not_lt] at lengths
  rw [not_or, not_or, not_not, not_not, not_not] at ends
  refine ⟨kind, ends.1, ends.2.1, ends.2.2, lengths.1, lengths.2, ?_, rfl, ?_⟩
  · rw [← ends.1]
    by_contra both
    rw [not_or] at both
    exact sums both
  · rw [List.length_take, List.length_drop]
    simp only [udpLength]
    omega

/-- `gm_udp_reply` becomes the payload of a datagram that answers. -/
def udpTracked (config : GmIpConfig) (udp : GmUdp) :
    Tracked (List UInt8) where
  value net := net.udp.reply
  Sets frame payload := ∃ datagram,
    frameDatagram config frame = some datagram ∧
      Answers config udp.peer udp.remotePort udp.localPort datagram payload
  Waiting net := net.config = config ∧
    net.udp.peer = udp.peer ∧ net.udp.remotePort = udp.remotePort ∧
      net.udp.localPort = udp.localPort
  step := by
    rintro frame before after ⟨rfl, peer, remote, own⟩ hears
    cases hears with
    | sends only => exact .inl (congrArg GmUdp.reply only.udp)
    | arp packet found =>
      exact .inl (congrArg GmUdp.reply (gmArpInput_kept packet before).2.2)
    | icmp datagram found kind =>
      exact .inl (congrArg GmUdp.reply
        (gmIcmpInput_kept datagram.src datagram.data before).2.1)
    | udp datagram found kind =>
      rcases (gmUdpInput_kept datagram.src datagram.data before).2.2.1
        with same | ⟨payload, decoded, set⟩
      · exact .inl (congrArg GmUdp.reply same)
      · right
        have answers := gmUdpDecode_answers kind decoded
        rw [peer, remote, own] at answers
        rw [set]
        exact ⟨datagram, found, answers⟩
  kept := by
    rintro before after kept ⟨rfl, peer, remote, own⟩
    have exchange := kept.exchange
    exact ⟨kept.config, (congrArg GmUdp.peer exchange).trans peer,
      (congrArg GmUdp.remotePort exchange).trans remote,
      (congrArg GmUdp.localPort exchange).trans own⟩
  sends only := congrArg GmUdp.reply only.udp
  offline _ := rfl

theorem Kept.nextPort {before after : GmNet} (kept : Kept before after) :
    after.udp.nextPort = before.udp.nextPort := by
  rw [← kept.exchange]

/-! ## One call -/

theorem gmUdpRequest_only (dst : GmIp) (port : UInt16) (tx : List UInt8)
    (net : GmNet) :
    OnlySends { net with udp := net.udp.opened dst port }
      (gmUdpRequest dst port tx net).2 :=
  gmIpv4Send_only _ _ _ _

/-- A reply of `gm_udp_exchange` is the payload of a datagram that arrived in
the call, behind the transmission of the request. -/
def ReplyAnswers (dst : GmIp) (port : UInt16) (tx : List UInt8)
    (rxMax timeout : Nat) (station : GmStation) : Prop :=
  (gmUdpExchange dst port tx rxMax timeout station).1 ≠ [] →
    (gmUdpExchange dst port tx rxMax timeout station).1.length ≤ rxMax ∧
    ∃ prepared net count,
      gmNetPrepare dst timeout station = (true, prepared) ∧
      gmUdpRequest dst port tx prepared.net = (true, net) ∧
      gmUdpExchange dst port tx rxMax timeout station =
        gmUdpCollect rxMax (gmPumps count (prepared.withNet net)) ∧
      ∃ frame ∈ received count (prepared.withNet net), ∃ datagram,
        frameDatagram station.net.config frame = some datagram ∧
        Answers station.net.config dst port station.net.udp.nextPort datagram
          (gmUdpExchange dst port tx rxMax timeout station).1

/-- `gm_udp_exchange` follows its request with some pumps. -/
theorem gmUdpExchange_cases (dst : GmIp) (port : UInt16) (tx : List UInt8)
    (rxMax timeout : Nat) (station : GmStation) :
    (gmUdpExchange dst port tx rxMax timeout station).1 = [] ∨
      ∃ prepared net count,
        gmNetPrepare dst timeout station = (true, prepared) ∧
        gmUdpRequest dst port tx prepared.net = (true, net) ∧
        gmUdpExchange dst port tx rxMax timeout station =
          gmUdpCollect rxMax (gmPumps count (prepared.withNet net)) := by
  unfold gmUdpExchange
  split
  · exact .inl rfl
  split
  · exact .inl rfl
  split
  · exact .inl rfl
  rename_i prepared prepares
  split
  · exact .inl rfl
  rename_i net request
  right
  obtain ⟨count, waited⟩ := gmUdpWait_pumps prepared.host.ticks timeout
    timeout (prepared.withNet net)
  exact ⟨prepared, net, count, prepares, request, by rw [waited]⟩

theorem gmUdpExchange_answers (dst : GmIp) (port : UInt16) (tx : List UInt8)
    (rxMax timeout : Nat) (station : GmStation) :
    ReplyAnswers dst port tx rxMax timeout station := by
  intro some'
  rcases gmUdpExchange_cases dst port tx rxMax timeout station with
    none | ⟨prepared, net, count, prepares, request, result⟩
  · exact absurd none some'
  have kept := gmNetPrepare_kept dst timeout station
  have asked := gmUdpRequest_only dst port tx prepared.net
  rw [prepares] at kept
  rw [request] at asked
  rw [result] at some' ⊢
  generalize finalEq : gmPumps count (prepared.withNet net) = final
    at some' ⊢
  have short : ¬rxMax < final.net.udp.reply.length := by
    intro long
    apply some'
    rw [gmUdpCollect, if_pos long]
  have reply : (gmUdpCollect rxMax final).1 = final.net.udp.reply := by
    rw [gmUdpCollect, if_neg short]
  rw [reply] at some' ⊢
  refine ⟨Nat.le_of_not_lt short, prepared, net, count, prepares, request,
    by rw [finalEq], ?_⟩
  have config : net.config = station.net.config :=
    asked.kept.config.trans kept.config
  have opened : net.udp = prepared.net.udp.opened dst port := asked.udp
  have own : prepared.net.udp.nextPort = station.net.udp.nextPort :=
    kept.nextPort
  have waiting : (udpTracked station.net.config
      (prepared.net.udp.opened dst port)).Waiting
        (prepared.withNet net).net := by
    refine ⟨config, ?_⟩
    change net.udp.peer = _ ∧ net.udp.remotePort = _ ∧ net.udp.localPort = _
    rw [opened]
    exact ⟨rfl, rfl, rfl⟩
  rcases (udpTracked station.net.config
      (prepared.net.udp.opened dst port)).attributed count waiting
    with same | set
  · -- nothing has arrived, so the reply is still empty
    rw [finalEq] at same
    have empty : final.net.udp.reply = [] :=
      same.trans (congrArg GmUdp.reply opened)
    exact absurd empty some'
  · rw [finalEq] at set
    obtain ⟨frame, member, datagram, found, answers⟩ := set
    have local' : (prepared.net.udp.opened dst port).localPort =
        station.net.udp.nextPort := own
    rw [local'] at answers
    exact ⟨frame, member, datagram, found, answers⟩

/-! ## Other datagrams -/

/-- No exchange is going on, or the datagram is not from its peer, or not for
its ports. -/
def Unrelated (udp : GmUdp) (datagram : GmDatagram) : Prop :=
  udp.active = false ∨ datagram.src ≠ udp.peer ∨
    gmSwap16 (load16 datagram.data 0) ≠ udp.remotePort ∨
    gmSwap16 (load16 datagram.data 2) ≠ udp.localPort

theorem gmEthInput_unrelated {frame : List UInt8} {datagram : GmDatagram}
    (found : frameDatagram station.net.config frame = some datagram)
    (kind : datagram.protocol = gmProtoUdp)
    (unrelated : Unrelated station.net.udp datagram) :
    gmEthInput frame station = station := by
  have ignored : gmUdpDecode datagram.src datagram.data station.net = none := by
    unfold gmUdpDecode
    dsimp only
    rcases unrelated with idle | other
    · rw [if_pos (.inl idle)]
    · split
      · rfl
      · split
        · rfl
        · rfl
  have notIcmp : ¬gmProtoUdp = gmProtoIcmp := by decide
  have notTcp : ¬gmProtoUdp = gmProtoTcp := by decide
  rw [gmEthInput_datagram found, gmIpv4Input, kind, if_neg notIcmp,
    if_neg notTcp, if_pos rfl, gmUdpInput, ignored]
  rfl

/-! ## Histories -/

/-- Between two calls no exchange is going on, and the next port is one of
those for exchanges. -/
structure Idle (net : GmNet) : Prop where
  inactive : net.udp.active = false
  port : gmUdpPortFirst ≤ net.udp.nextPort

theorem gmNetInit_idle (config : GmIpConfig) (device : Option GmMac)
    (linkOk : Nat → Bool) : Idle (gmNetInit config device linkOk) :=
  ⟨rfl, UInt16.le_refl _⟩

theorem Kept.idle {before after : GmNet} (kept : Kept before after)
    (idle : Idle before) : Idle after where
  inactive := (congrArg GmUdp.active kept.exchange).trans idle.inactive
  port := by
    rw [kept.nextPort]
    exact idle.port

/-- The ports go round. -/
theorem GmUdp.opened_port {udp : GmUdp} (dst : GmIp) (port : UInt16)
    (first : gmUdpPortFirst ≤ udp.nextPort) :
    gmUdpPortFirst ≤ (udp.opened dst port).nextPort := by
  unfold GmUdp.opened
  dsimp only
  split
  · exact UInt16.le_refl _
  · rename_i more
    rw [UInt16.le_iff_toNat_le] at first more ⊢
    have bound := udp.nextPort.toNat_lt
    have next : (udp.nextPort + 1).toNat = udp.nextPort.toNat + 1 := by
      rw [UInt16.toNat_add]
      change (udp.nextPort.toNat + 1) % 65536 = _
      change ¬65535 ≤ udp.nextPort.toNat at more
      omega
    omega

theorem gmUdpExchange_idle (idle : Idle station.net) (dst : GmIp)
    (port : UInt16) (tx : List UInt8) (rxMax timeout : Nat) :
    Idle (gmUdpExchange dst port tx rxMax timeout station).2.net := by
  have kept := (gmNetPrepare_kept dst timeout station).idle idle
  unfold gmUdpExchange
  split
  · exact idle
  split
  · exact idle
  split
  · rename_i prepared prepares
    rw [prepares] at kept
    exact kept
  rename_i prepared prepares
  rw [prepares] at kept
  have asked := gmUdpRequest_only dst port tx prepared.net
  have opened := GmUdp.opened_port dst port kept.port
  split
  · rename_i net request
    rw [request] at asked
    refine ⟨rfl, ?_⟩
    change gmUdpPortFirst ≤ net.udp.nextPort
    rw [show net.udp = _ from asked.udp]
    exact opened
  · rename_i net request
    rw [request] at asked
    obtain ⟨count, waited⟩ := gmUdpWait_pumps prepared.host.ticks timeout
      timeout (prepared.withNet net)
    rw [waited]
    refine ⟨rfl, ?_⟩
    have same : (gmPumps count (prepared.withNet net)).net.udp.nextPort =
        net.udp.nextPort :=
      (gmPumps_kept count (prepared.withNet net)).nextPort
    change gmUdpPortFirst ≤ (gmPumps count (prepared.withNet net)).net.udp.nextPort
    rw [same, show net.udp = _ from asked.udp]
    exact opened

/-- What can happen to the variables of `net.c` between two exchanges. -/
inductive GmNetCall where
  | pump
  | prepare (dst : GmIp) (timeout : Nat)
  | send (dst : GmIp) (protocol : UInt8) (data : List UInt8)
  | exchange (dst : GmIp) (port : UInt16) (tx : List UInt8)
      (rxMax timeout : Nat)
  | ping (dst : GmIp) (timeout : Nat)
  /-- The rest of the kernel goes on. -/
  | elsewhere (host : GmHost)

def GmNetCall.run (station : GmStation) : GmNetCall → GmStation
  | .pump => gmPump station
  | .prepare dst timeout => (gmNetPrepare dst timeout station).2
  | .send dst protocol data =>
    station.withNet (gmIpv4Send dst protocol data station.net).2
  | .exchange dst port tx rxMax timeout =>
    (gmUdpExchange dst port tx rxMax timeout station).2
  | .ping dst timeout => (gmPing dst timeout station).2
  | .elsewhere host => station.withHost host

theorem gmPingWait_kept (start timeout fuel : Nat) (station : GmStation) :
    Kept station.net (gmPingWait start timeout fuel station).2.net := by
  induction fuel generalizing station with
  | zero => exact .refl station.net
  | succ fuel induction =>
    unfold gmPingWait
    split
    · dsimp only
      split
      · exact gmPump_kept station
      · exact (gmPump_kept station).trans (induction (gmPump station))
    · exact .refl station.net

theorem gmPing_idle (idle : Idle station.net) (dst : GmIp) (timeout : Nat) :
    Idle (gmPing dst timeout station).2.net := by
  have kept := (gmNetPrepare_kept dst timeout station).idle idle
  unfold gmPing
  split
  · exact idle
  split
  · rename_i prepared prepares
    rw [prepares] at kept
    exact kept
  rename_i prepared prepares
  rw [prepares] at kept
  have asked := gmIpv4Send_only dst gmProtoIcmp (gmPingPacket
    (prepared.net.pingSeq + 1)
    (gmChecksum (gmPingPacket (prepared.net.pingSeq + 1) 0)))
    { prepared.net with
      pingSeq := prepared.net.pingSeq + 1, pingReply := 0 }
  change OnlySends _ (gmPingRequest dst prepared.net).2 at asked
  have sent : Idle (gmPingRequest dst prepared.net).2 :=
    asked.kept.idle ⟨kept.inactive, kept.port⟩
  split
  · rename_i net request
    rw [request] at sent
    exact sent
  · rename_i net request
    rw [request] at sent
    exact (gmPingWait_kept _ _ _ (prepared.withNet net)).idle sent

theorem GmNetCall.run_idle (idle : Idle station.net) (call : GmNetCall) :
    Idle (call.run station).net := by
  cases call with
  | pump => exact (gmPump_kept station).idle idle
  | prepare dst timeout => exact (gmNetPrepare_kept dst timeout station).idle idle
  | send dst protocol data =>
    exact (gmIpv4Send_only dst protocol data station.net).kept.idle idle
  | exchange dst port tx rxMax timeout =>
    exact gmUdpExchange_idle idle dst port tx rxMax timeout
  | ping dst timeout => exact gmPing_idle idle dst timeout
  | elsewhere host => exact idle

theorem calls_idle (calls : List GmNetCall) (idle : Idle station.net) :
    Idle (calls.foldl GmNetCall.run station).net := by
  induction calls generalizing station with
  | nil => exact idle
  | cons call calls induction => exact induction (call.run_idle idle)

/-- After any history that begins with `gm_net_init`, an exchange returns only
the payload of a datagram that answers it, it is over when it returns, and
datagrams that do not belong to an exchange that is going on change nothing. -/
theorem gmUdpExchange_one_shot (start : GmStation) (config : GmIpConfig)
    (device : Option GmMac) (linkOk : Nat → Bool)
    (fresh : start.net = gmNetInit config device linkOk)
    (history : List GmNetCall) :
    (∀ (dst : GmIp) (port : UInt16) (tx : List UInt8) (rxMax timeout : Nat),
      ReplyAnswers dst port tx rxMax timeout
        (history.foldl GmNetCall.run start) ∧
      (gmUdpExchange dst port tx rxMax timeout
        (history.foldl GmNetCall.run start)).2.net.udp.active = false) ∧
    (∀ (station : GmStation) (frame : List UInt8) (datagram : GmDatagram),
      frameDatagram station.net.config frame = some datagram →
      datagram.protocol = gmProtoUdp → Unrelated station.net.udp datagram →
        gmEthInput frame station = station) := by
  have begin : Idle start.net := by
    rw [fresh]
    exact gmNetInit_idle config device linkOk
  have idle := calls_idle history begin
  constructor
  · intro dst port tx rxMax timeout
    exact ⟨gmUdpExchange_answers dst port tx rxMax timeout _,
      (gmUdpExchange_idle idle dst port tx rxMax timeout).inactive⟩
  · intro station frame datagram found kind unrelated
    exact gmEthInput_unrelated found kind unrelated

/-- A server that makes itself known and then answers a datagram from the first
port. -/
private def answeringServer : Nat → GmPolled
  | 0 => { frames := [gmEthFrame ⟨[2, 0, 0, 0, 0, 1], rfl⟩
      ⟨[2, 0, 0, 0, 0, 2], rfl⟩ gmEthArp (gmArpPacket 2
        ⟨[2, 0, 0, 0, 0, 2], rfl⟩ ⟨[10, 0, 2, 2], rfl⟩
        ⟨[2, 0, 0, 0, 0, 1], rfl⟩ ⟨[10, 0, 2, 15], rfl⟩)] }
  | _ => { frames := [gmEthFrame ⟨[2, 0, 0, 0, 0, 1], rfl⟩
      ⟨[2, 0, 0, 0, 0, 2], rfl⟩ gmEthIpv4 (gmIpv4Packet ⟨[10, 0, 2, 2], rfl⟩
        ⟨[10, 0, 2, 15], rfl⟩ gmProtoUdp 1 (gmUdpPacket ⟨[10, 0, 2, 2], rfl⟩
          ⟨[10, 0, 2, 15], rfl⟩ 53 49152 (ascii "ok")))] }

private def askingStation : GmStation :=
  { net := gmNetInit ⟨⟨[10, 0, 2, 15], rfl⟩, ⟨[255, 255, 255, 0], rfl⟩,
      ⟨[10, 0, 2, 2], rfl⟩⟩ (some ⟨[2, 0, 0, 0, 0, 1], rfl⟩) fun _ => true
    host := {}
    arrivals := answeringServer }

theorem gmUdpExchange_one_shot_answered :
    (gmUdpExchange ⟨[10, 0, 2, 2], rfl⟩ 53 (ascii "ask") 16 100
      ([GmNetCall.pump].foldl GmNetCall.run askingStation)).1 = ascii "ok" ∧
    ReplyAnswers ⟨[10, 0, 2, 2], rfl⟩ 53 (ascii "ask") 16 100
      ([GmNetCall.pump].foldl GmNetCall.run askingStation) :=
  ⟨by decide +kernel, ((gmUdpExchange_one_shot askingStation _ _ _ rfl
    [GmNetCall.pump]).1 _ _ _ _ _).1⟩

end Gmker.Link
