import Gmker.Link.RoundTrip

/-!
# Replies to a ping

`gm_ping` reports success when `gm_ping_reply` has the number of its request.
That variable is zero before an echo reply arrives, so the report is right
unless the number of the request is zero itself, which it is once the 16-bit
counter wraps around.
-/

namespace Gmker.Link

open Net

variable {dst : GmIp} {station : GmStation}

/-- The frame has the echo reply with a number. -/
def HasEchoReply (config : GmIpConfig) (seq : UInt16) (frame : List UInt8) :
    Prop :=
  ∃ datagram, frameDatagram config frame = some datagram ∧
    datagram.protocol = gmProtoIcmp ∧ IsEchoReply seq datagram.data

/-- `gm_ping_reply` becomes the number of the request when its reply
arrives. -/
def pingTracked (config : GmIpConfig) (seq : UInt16) : Tracked UInt16 where
  value := GmNet.pingReply
  Sets frame _ := HasEchoReply config seq frame
  Waiting net := net.config = config ∧ net.pingSeq = seq
  step := by
    rintro frame before after ⟨rfl, rfl⟩ hears
    cases hears with
    | sends only => exact .inl only.pingReply
    | arp packet found => exact .inl (gmArpInput_kept packet before).2.1
    | icmp datagram found kind =>
      rcases (gmIcmpInput_kept datagram.src datagram.data before).2.2.2.1
        with same | reply
      · exact .inl same
      · exact .inr ⟨datagram, found, kind, reply.1⟩
    | udp datagram found kind => exact .inl (gmUdpInput_kept _ _ before).2.1
  kept := by
    rintro before after kept ⟨rfl, rfl⟩
    exact ⟨kept.config, kept.pingSeq⟩
  sends only := only.pingReply
  offline _ := rfl

/-- A ping of another address that succeeds has received its reply: in the call,
behind the transmission of the request. -/
def PingHonest (dst : GmIp) (timeout : Nat) (station : GmStation) : Prop :=
  (gmPing dst timeout station).1 = true → dst ≠ station.net.config.ip →
    ∃ prepared net count,
      gmNetPrepare dst timeout station = (true, prepared) ∧
      gmPingRequest dst prepared.net = (true, net) ∧
      (gmPing dst timeout station).2 =
        gmPumps count (prepared.withNet net) ∧
      ∃ frame ∈ received count (prepared.withNet net),
        HasEchoReply net.config net.pingSeq frame

theorem gmPingRequest_only (dst : GmIp) (net : GmNet) :
    OnlySends { net with pingSeq := net.pingSeq + 1, pingReply := 0 }
      (gmPingRequest dst net).2 :=
  gmIpv4Send_only _ _ _ _

theorem gmPing_honest {timeout : Nat} (nonzero : station.net.pingSeq + 1 ≠ 0) :
    PingHonest dst timeout station := by
  intro succeeds other
  have kept := gmNetPrepare_kept dst timeout station
  unfold gmPing at succeeds ⊢
  rw [if_neg other] at succeeds ⊢
  generalize gmNetPrepare dst timeout station = ready at kept succeeds ⊢
  obtain ⟨_ | _, prepared⟩ := ready
  · cases succeeds
  have asked := gmPingRequest_only dst prepared.net
  simp only at succeeds ⊢
  generalize requestEq : gmPingRequest dst prepared.net = request
    at asked succeeds ⊢
  obtain ⟨_ | _, net⟩ := request
  · cases succeeds
  simp only at asked succeeds ⊢
  generalize waitEq : gmPingWait prepared.host.ticks timeout timeout
    (prepared.withNet net) = waited at succeeds ⊢
  obtain ⟨_, final⟩ := waited
  cases succeeds
  obtain ⟨count, reached, seen⟩ := gmPingWait_pumps waitEq
  refine ⟨prepared, net, count, rfl, requestEq, reached, ?_⟩
  have seq : net.pingSeq = station.net.pingSeq + 1 := by
    rw [asked.kept.pingSeq, ← kept.pingSeq]
  have waiting : (pingTracked net.config net.pingSeq).Waiting
      (prepared.withNet net).net := ⟨rfl, rfl⟩
  rcases (pingTracked net.config net.pingSeq).attributed count waiting
    with same | set
  · -- nothing has arrived, so the reply is still zero
    exfalso
    have zero : final.net.pingReply = 0 := by
      rw [reached]
      exact same.trans asked.pingReply
    have number : final.net.pingSeq = net.pingSeq := by
      rw [reached]
      exact (gmPumps_kept count (prepared.withNet net)).pingSeq
    rw [zero, number, seq] at seen
    exact nonzero seen.symm
  · exact set

/-! ## The counter at its end -/

theorem gmIpv4Input_arrivals (datagram : GmDatagram) (station : GmStation) :
    (gmIpv4Input datagram station).arrivals = station.arrivals := by
  unfold gmIpv4Input
  split
  · rfl
  · split
    · rfl
    · split
      · rfl
      · rfl

theorem gmEthInput_arrivals (frame : List UInt8) (station : GmStation) :
    (gmEthInput frame station).arrivals = station.arrivals := by
  cases found : frameDatagram station.net.config frame with
  | some datagram =>
    rw [gmEthInput_datagram found]
    exact gmIpv4Input_arrivals datagram station
  | none =>
    cases arp : frameArp frame with
    | some packet =>
      rw [gmEthInput_arp station arp]
      rfl
    | none => rw [gmEthInput_other found arp]

theorem gmPump_arrivals (station : GmStation) :
    (gmPump station).arrivals = station.arrivals := by
  have taken : ∀ (frames : List (List UInt8)) (station : GmStation),
      (frames.foldl (fun station frame => gmEthInput frame (station.withNet
        { station.net with rxPackets := station.net.rxPackets + 1 }))
          station).arrivals = station.arrivals := by
    intro frames
    induction frames with
    | nil => exact fun _ => rfl
    | cons frame frames induction =>
      intro station
      rw [List.foldl_cons, induction, gmEthInput_arrivals]
      rfl
  have polled : ∀ (polled : GmPolled) (station : GmStation),
      (gmNetPoll polled station).arrivals = station.arrivals := by
    intro polled station
    unfold gmNetPoll
    split
    · rfl
    · dsimp only
      split
      · exact taken polled.frames station
      · exact taken polled.frames station
  exact polled _ _

/-- The station is on the air with nothing arriving, and knows the way. -/
structure Quiet (dst : GmIp) (station : GmStation) : Prop where
  silent : ∀ time, (station.arrivals time).frames = []
  online : station.net.online = true
  taken : ∀ time, station.net.linkOk time = true
  known : gmArpLookup (gmNextHop dst station.net.config) station.net ≠ none

theorem received_silent (count : Nat)
    (silent : ∀ time, (station.arrivals time).frames = []) :
    received count station = [] := by
  induction count generalizing station with
  | zero => rfl
  | succ count induction =>
    have later : ∀ time, ((gmPump station).arrivals time).frames = [] := by
      rw [gmPump_arrivals]
      exact silent
    rw [received, induction later, GmStation.incoming, silent, ite_self]
    rfl

theorem gmPingRequest_taken (quiet : Quiet dst station) :
    ∃ net, gmPingRequest dst station.net = (true, net) ∧
      net.arp = station.net.arp ∧ net.linkOk = station.net.linkOk := by
  obtain ⟨mac, resolved⟩ := Option.ne_none_iff_exists'.mp quiet.known
  have found : gmArpLookup (gmNextHop dst station.net.config)
      { station.net with
        pingSeq := station.net.pingSeq + 1, pingReply := 0 } = some mac :=
    resolved
  have size : ∀ seq checksum, (gmPingPacket seq checksum).length = 24 :=
    fun _ _ => rfl
  unfold gmPingRequest gmIpv4Send
  dsimp only
  rw [if_neg (by rw [size]; decide), found]
  dsimp only
  unfold gmEthSend
  rw [if_neg (by
    rw [gmIpv4Packet, List.length_append, gmIpv4Header_length, size]
    decide)]
  dsimp only
  rw [if_pos (quiet.taken _)]
  exact ⟨_, rfl, rfl, rfl⟩

/-- A ping with the number zero is answered by nobody. -/
theorem gmPing_wrapped {timeout : Nat} (quiet : Quiet dst station)
    (other : dst ≠ station.net.config.ip) (waits : timeout ≠ 0)
    (wraps : station.net.pingSeq + 1 = 0) :
    ¬PingHonest dst timeout station := by
  obtain ⟨net, request, -, -⟩ := gmPingRequest_taken quiet
  have asked := gmPingRequest_only dst station.net
  rw [request] at asked
  have ready := gmNetPrepare_known quiet.online quiet.known timeout
  have succeeds : (gmPing dst timeout station).1 = true := by
    obtain ⟨fuel, rfl⟩ := Nat.exists_eq_succ_of_ne_zero waits
    have pumped := (pingTracked net.config net.pingSeq).pumped
      (show (pingTracked net.config net.pingSeq).Waiting
        (station.withNet net).net from ⟨rfl, rfl⟩)
    have reply : (gmPump (station.withNet net)).net.pingReply =
        net.pingReply := by
      rcases pumped with same | ⟨frame, member, -⟩
      · exact same
      · rw [GmStation.incoming] at member
        rw [show (station.withNet net).arrivals = station.arrivals from rfl,
          quiet.silent, ite_self] at member
        cases member
    have number : (gmPump (station.withNet net)).net.pingSeq = net.pingSeq :=
      (gmPump_kept (station.withNet net)).pingSeq
    have seen : (gmPump (station.withNet net)).net.pingReply =
        (gmPump (station.withNet net)).net.pingSeq := by
      rw [reply, number, asked.pingReply, asked.kept.pingSeq]
      exact wraps.symm
    unfold gmPing
    rw [if_neg other, ready]
    dsimp only
    rw [request]
    dsimp only
    unfold gmPingWait
    rw [if_pos (by
      rw [show (station.withNet net).host.ticks = station.host.ticks from rfl]
      omega)]
    dsimp only
    rw [if_pos seen]
  intro honest
  obtain ⟨prepared, net', count, prepares, _, _, frame, member, _⟩ :=
    honest succeeds other
  rw [ready] at prepares
  obtain rfl := (Prod.mk.inj prepares).2
  have nothing : received count (station.withNet net') = [] :=
    received_silent count quiet.silent
  rw [nothing] at member
  cases member

/-- A station of the default network that has just heard of its server. -/
def pingStation (seq : UInt16) : GmStation :=
  { net :=
      { gmArpPut (loadIp [10, 0, 2, 2] 0) (loadMac [2, 0, 0, 0, 0, 2] 0)
          (gmNetInit ⟨loadIp [10, 0, 2, 15] 0, loadIp [255, 255, 255, 0] 0,
            loadIp [10, 0, 2, 2] 0⟩ (some (loadMac [2, 0, 0, 0, 0, 1] 0))
            fun _ => true) with
        pingSeq := seq }
    host := {} }

/-- The address of the server. -/
def pingServer : GmIp := loadIp [10, 0, 2, 2] 0

theorem pingStation_quiet (seq : UInt16) : Quiet pingServer (pingStation seq) where
  silent _ := rfl
  online := rfl
  taken _ := rfl
  known := by
    have base : gmArpLookup (gmNextHop pingServer (pingStation 0).net.config)
        (pingStation 0).net ≠ none := by decide +kernel
    exact base

/-- Over all stations with some value of the counter, `gm_ping` reports only
real replies exactly when the next value is not zero. -/
theorem gmPing_honest_iff (seq : UInt16) :
    (∀ (dst : GmIp) (timeout : Nat) (station : GmStation),
      station.net.pingSeq = seq → PingHonest dst timeout station) ↔
      seq + 1 ≠ 0 := by
  constructor
  · intro honest wraps
    have other : pingServer ≠ (pingStation 0).net.config.ip := by decide
    exact gmPing_wrapped (pingStation_quiet seq) other one_ne_zero wraps
      (honest pingServer 1 (pingStation seq) rfl)
  · rintro nonzero dst timeout station rfl
    exact gmPing_honest nonzero

/-! ## A history that leads there -/

/-- Some pings that do not wait for their replies. -/
def pinged (dst : GmIp) : Nat → GmStation → GmStation
  | 0, station => station
  | count + 1, station => (gmPing dst 0 (pinged dst count station)).2

theorem gmPing_at_once (quiet : Quiet dst station)
    (other : dst ≠ station.net.config.ip) :
    (gmPing dst 0 station).2 =
      station.withNet (gmPingRequest dst station.net).2 := by
  unfold gmPing
  rw [if_neg other, gmNetPrepare_known quiet.online quiet.known 0]
  obtain ⟨net, request, -, -⟩ := gmPingRequest_taken quiet
  dsimp only
  rw [request]
  rfl

theorem pinged_quiet (quiet : Quiet dst station)
    (other : dst ≠ station.net.config.ip) (count : Nat) :
    Quiet dst (pinged dst count station) ∧
      (pinged dst count station).net.config = station.net.config ∧
      (pinged dst count station).net.pingSeq =
        station.net.pingSeq + UInt16.ofNat count := by
  induction count with
  | zero => exact ⟨quiet, rfl, (UInt16.add_zero _).symm⟩
  | succ count induction =>
    obtain ⟨before, config, number⟩ := induction
    have asked := gmPingRequest_only dst (pinged dst count station).net
    obtain ⟨net, request, arp, link⟩ := gmPingRequest_taken before
    rw [request] at asked
    have step : pinged dst (count + 1) station =
        (pinged dst count station).withNet net := by
      rw [pinged, gmPing_at_once before (by rw [config]; exact other),
        request]
    have sameConfig : net.config = (pinged dst count station).net.config :=
      asked.kept.config
    rw [step]
    refine ⟨⟨before.silent, ?_, ?_, ?_⟩, ?_, ?_⟩
    · exact asked.online.trans before.online
    · intro time
      exact (congrFun link time).trans (before.taken time)
    · change gmArpLookup (gmNextHop dst net.config) net ≠ none
      have same : net.resolves = (pinged dst count station).net.resolves := by
        funext ip slot
        rw [GmNet.resolves, GmNet.resolves, arp]
      rw [sameConfig, gmArpLookup, same, arp]
      exact before.known
    · exact sameConfig.trans config
    · have next : net.pingSeq = (pinged dst count station).net.pingSeq + 1 :=
        asked.kept.pingSeq
      change net.pingSeq = _
      rw [next, number, UInt16.add_assoc, UInt16.ofNat_add]
      rfl

/-- After 65535 pings the next one succeeds although nothing ever arrives. -/
theorem gmPing_wraps_around :
    (pinged pingServer 65535 (pingStation 0)).net.pingSeq = 65535 ∧
      (∀ time, ((pinged pingServer 65535 (pingStation 0)).arrivals
        time).frames = []) ∧
      ¬PingHonest pingServer 100 (pinged pingServer 65535 (pingStation 0)) := by
  obtain ⟨quiet, config, number⟩ :=
    pinged_quiet (pingStation_quiet 0) (by decide) 65535
  have last : (pinged pingServer 65535 (pingStation 0)).net.pingSeq = 65535 := by
    rw [number]
    decide
  refine ⟨last, quiet.silent, gmPing_wrapped quiet ?_ (by decide) ?_⟩
  · rw [config]
    decide
  · rw [last]
    decide

end Gmker.Link
