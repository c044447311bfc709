import Gmker.Net.Refinement

/-!
# In-order reception

The peer's stream against the receive ring and the 32-bit acknowledgement
number.  Segments may be lost, repeated, reordered and cut differently each
time; the client keeps a growing beginning of the stream.
-/

namespace Gmker.Net

variable {irs : UInt32} {segment : GmSegment} {host : GmHost}
  {stream : List UInt8}

/-- What happens to an established connection that only receives. -/
inductive GmRxStep where
  | input (packet : GmPacket)
  | read (max : Nat)
  | drop

def gmRxStep : GmRxStep → GmHost → GmHost
  | .input packet, host => gmTcpInput packet host
  | .read max, host => (gmTcpRead max host).2
  | .drop, host => gmTcpDrop host

def gmRxRun (steps : List GmRxStep) (host : GmHost) : GmHost :=
  steps.foldl (fun host step => gmRxStep step host) host

/-- The bytes accepted so far: read, dropped or still in the ring. -/
def GmHost.received (host : GmHost) : List UInt8 :=
  (conversation host.log).consumed ++ host.tcp.buffered

/-- A segment without SYN, FIN and RST. -/
def GmSegment.plain (segment : GmSegment) : Prop :=
  segment.has gmTcpFlagSyn = false ∧ segment.has gmTcpFlagFin = false ∧
    segment.has gmTcpFlagRst = false

instance (segment : GmSegment) : Decidable segment.plain :=
  inferInstanceAs (Decidable (_ ∧ _ ∧ _))

/-- A plain segment that carries a part of the stream, at a position less than
`2 ^ 32` away from the receive point. -/
def Carries (stream : List UInt8) (irs : UInt32) (point : Nat)
    (segment : GmSegment) : Prop :=
  segment.plain ∧
    ∃ position,
      segment.seq = irs + 1 + UInt32.ofNat position ∧
      segment.payload <+: stream.drop position ∧
      position < point + 2 ^ 32 ∧ point < position + 2 ^ 32

/-- A packet is foreign or damaged, and then ignored, or carries a part of the
stream. -/
def PeerStep (stream : List UInt8) (irs : UInt32) (host : GmHost) :
    GmRxStep → Prop
  | .input packet =>
    ∀ segment, gmTcpDecode host.tcp.dst host.config.ip host.tcp.dstPort
        host.tcp.srcPort packet.src packet.data = some segment →
      Carries stream irs host.received.length segment
  | .read _ => True
  | .drop => True

def PeerRun (stream : List UInt8) (irs : UInt32) :
    List GmRxStep → GmHost → Prop
  | [], _ => True
  | step :: steps, host =>
    PeerStep stream irs host step ∧
      PeerRun stream irs steps (gmRxStep step host)

/-- The client holds a beginning of the stream and acknowledges exactly it. -/
structure InOrder (stream : List UInt8) (irs : UInt32) (host : GmHost) :
    Prop where
  valid : RxValid host.tcp
  up : host.tcp.state = .established
  bytes : host.received <+: stream
  ack : host.tcp.ack = irs + 1 + UInt32.ofNat host.received.length

theorem InOrder.congr {after : GmHost} (inOrder : InOrder stream irs host)
    (valid : RxValid after.tcp) (state : after.tcp.state = host.tcp.state)
    (received : after.received = host.received)
    (ack : after.tcp.ack = host.tcp.ack) : InOrder stream irs after := by
  refine ⟨valid, state.trans inOrder.up, ?_, ?_⟩
  · rw [received]
    exact inOrder.bytes
  · rw [received, ack]
    exact inOrder.ack

/-- What one step may emit, and what it does with a payload that does not
fit. -/
structure ReceiveContract (step : GmRxStep) (before after : GmHost) :
    Prop where
  emitted : ∃ events, after.log = before.log ++ events ∧
    ∀ segment ok, .sent segment ok ∈ events → segment.ack = after.tcp.ack
  refused : ∀ packet segment, step = .input packet →
    gmTcpDecode before.tcp.dst before.config.ip before.tcp.dstPort
      before.tcp.srcPort packet.src packet.data = some segment →
    gmTcpRxSize < before.tcp.rxLen + segment.payload.length →
    after.tcp.rx = before.tcp.rx ∧ after.tcp.rxHead = before.tcp.rxHead ∧
      after.tcp.rxLen = before.tcp.rxLen ∧ after.tcp.ack = before.tcp.ack

/-! ## Positions and sequence numbers -/

/-- Positions closer than `2 ^ 32` with equal sequence numbers are equal. -/
theorem position_eq {position point : Nat}
    (same : irs + 1 + UInt32.ofNat position = irs + 1 + UInt32.ofNat point)
    (near : position < point + 2 ^ 32 ∧ point < position + 2 ^ 32) :
    position = point := by
  have offsets := (UInt32.add_right_inj (irs + 1)).mp same
  have residues : position % 2 ^ 32 = point % 2 ^ 32 := by
    have values := congrArg UInt32.toNat offsets
    simpa using values
  omega

/-- The next part of the stream extends the beginning held so far. -/
theorem append_of_next {stream held next : List UInt8}
    (bytes : held <+: stream) (payload : next <+: stream.drop held.length) :
    held ++ next <+: stream := by
  obtain ⟨rest, rfl⟩ := bytes
  rw [List.drop_left] at payload
  obtain ⟨tail, rfl⟩ := payload
  exact ⟨tail, List.append_assoc _ _ _⟩

/-! ## One segment -/

/-- The parts of the host that reception depends on. -/
structure SameReception (before after : GmHost) : Prop where
  state : after.tcp.state = before.tcp.state
  ack : after.tcp.ack = before.tcp.ack
  rx : after.tcp.rx = before.tcp.rx
  rxHead : after.tcp.rxHead = before.tcp.rxHead
  rxLen : after.tcp.rxLen = before.tcp.rxLen
  consumed : (conversation after.log).consumed =
    (conversation before.log).consumed
  silent : ∃ events, after.log = before.log ++ events ∧
    ∀ segment ok, .sent segment ok ∉ events

namespace SameReception

variable {before after : GmHost} {stream : List UInt8} {irs : UInt32}

theorem refl (host : GmHost) : SameReception host host :=
  ⟨rfl, rfl, rfl, rfl, rfl, rfl, [], by simp, by simp⟩

theorem trans {middle : GmHost} (left : SameReception before middle)
    (right : SameReception middle after) : SameReception before after := by
  obtain ⟨early, leftLog, leftSilent⟩ := left.silent
  obtain ⟨late, rightLog, rightSilent⟩ := right.silent
  refine ⟨right.state.trans left.state, right.ack.trans left.ack,
    right.rx.trans left.rx, right.rxHead.trans left.rxHead,
    right.rxLen.trans left.rxLen, right.consumed.trans left.consumed,
    early ++ late, ?_, ?_⟩
  · rw [rightLog, leftLog, List.append_assoc]
  · intro segment ok member
    rcases List.mem_append.mp member with old | new
    · exact leftSilent segment ok old
    · exact rightSilent segment ok new

theorem received (same : SameReception before after) :
    after.received = before.received := by
  rw [GmHost.received, GmHost.received, same.consumed,
    buffered_congr same.rx same.rxHead same.rxLen]

theorem inOrder (same : SameReception before after)
    (inOrder : InOrder stream irs before) : InOrder stream irs after := by
  refine inOrder.congr ⟨?_, ?_⟩ same.state same.received same.ack
  · rw [same.rxHead]
    exact inOrder.valid.head
  · rw [same.rxLen]
    exact inOrder.valid.len

end SameReception

theorem hear_same (host : GmHost) (segment : GmSegment) :
    SameReception host (host.hear segment) := by
  refine ⟨rfl, rfl, rfl, rfl, rfl, ?_, [.arrived segment], rfl, by simp⟩
  simp only [GmHost.hear, GmHost.record, conversation_append]
  rfl

theorem gmTcpAcknowledge_same (segment : GmSegment) (host : GmHost) :
    SameReception host (gmTcpAcknowledge segment host) := by
  unfold gmTcpAcknowledge
  simp only
  split
  · refine ⟨rfl, rfl, rfl, rfl, rfl, ?_, [_], rfl, by simp⟩
    simp only [GmHost.record, conversation_append]
    rfl
  · exact .refl host

/-- A plain segment on an established connection only acknowledges and carries
payload. -/
theorem gmTcpHandle_plain (plain : segment.plain)
    (up : host.tcp.state = .established) :
    gmTcpHandle segment host =
      gmTcpReceive segment
        (gmTcpAcknowledge segment (host.hear segment)) := by
  obtain ⟨_, noFin, noRst⟩ := plain
  simp [gmTcpHandle_eq, noRst, up, gmTcpFinish, noFin]

/-- A payload that does not fit changes nothing that reception depends on. -/
theorem gmTcpAccept_full (valid : RxValid host.tcp) (segment : GmSegment)
    (full : gmTcpRxSize < host.tcp.rxLen + segment.payload.length) :
    SameReception host (gmTcpAccept segment host) := by
  unfold gmTcpAccept
  split
  · rw [gmTcpAppend_full full valid]
    exact ⟨rfl, rfl, rfl, rfl, rfl, rfl, [], by simp, by simp⟩
  · exact .refl host

theorem gmTcpAccept_silent (segment : GmSegment) (host : GmHost) :
    ∃ events, (gmTcpAccept segment host).log = host.log ++ events ∧
      ∀ sent ok, .sent sent ok ∉ events := by
  unfold gmTcpAccept
  split
  · split
    · exact ⟨[], by simp, by simp⟩
    · exact ⟨[.accepted segment.payload], rfl, by simp⟩
  · exact ⟨[], by simp, by simp⟩

section

variable (inOrder : InOrder stream irs host)

include inOrder

theorem gmTcpAccept_inOrder
    (carries : Carries stream irs host.received.length segment) :
    InOrder stream irs (gmTcpAccept segment host) := by
  by_cases fits : gmTcpRxSize < host.tcp.rxLen + segment.payload.length
  · exact (gmTcpAccept_full inOrder.valid segment fits).inOrder inOrder
  unfold gmTcpAccept
  split
  case isFalse => exact inOrder
  case isTrue next =>
    obtain ⟨_, position, seq, payload, near⟩ := carries
    -- The only position with this sequence number is the receive point.
    have here : position = host.received.length := by
      have same : irs + 1 + UInt32.ofNat position =
          irs + 1 + UInt32.ofNat host.received.length := by
        rw [← seq, next, inOrder.ack]
      exact position_eq same near
    obtain ⟨rx, appended, contents⟩ :=
      gmTcpAppend_fits (Nat.le_of_not_lt fits)
    rw [appended]
    have received : GmHost.received (GmHost.record
        { host with
          tcp := { host.tcp with
            rx := rx
            rxLen := host.tcp.rxLen + segment.payload.length
            ack := host.tcp.ack + UInt32.ofNat segment.payload.length } }
        (.accepted segment.payload)) = host.received ++ segment.payload := by
      simp only [GmHost.received, GmHost.record, conversation_append,
        List.append_assoc, ← contents]
      rfl
    refine ⟨⟨inOrder.valid.head, Nat.le_of_not_lt fits⟩, inOrder.up, ?_, ?_⟩
    · rw [received]
      rw [here] at payload
      exact append_of_next inOrder.bytes payload
    · rw [received, List.length_append, UInt32.ofNat_add, ← UInt32.add_assoc,
        ← inOrder.ack]
      rfl

/-- Sending a segment does not touch reception. -/
theorem gmTcpSegment_inOrder (segment : GmSegment) :
    InOrder stream irs (gmTcpSegment segment host).2 := by
  obtain ⟨ok, count, sends, result⟩ := gmTcpSegment_effect segment host
  rw [result]
  have consumed : (conversation (host.log ++ [.sent segment ok])).consumed =
      (conversation host.log).consumed := by
    simp only [conversation_append, List.foldl_cons, List.foldl_nil,
      Conversation.step]
    split <;> rfl
  have received : GmHost.received
      { host with
        tcp := { host.tcp with txCount := count }
        sends := sends
        log := host.log ++ [.sent segment ok] } = host.received := by
    simp only [GmHost.received, consumed]
    rfl
  exact inOrder.congr ⟨inOrder.valid.head, inOrder.valid.len⟩ rfl received rfl

/-- The payload part of `gm_tcp_input` keeps order, acknowledges what it has
and refuses what does not fit. -/
theorem gmTcpReceive_contract
    (carries : Carries stream irs host.received.length segment) :
    InOrder stream irs (gmTcpReceive segment host) ∧
      (∃ events, (gmTcpReceive segment host).log = host.log ++ events ∧
        ∀ sent ok, .sent sent ok ∈ events →
          sent.ack = (gmTcpReceive segment host).tcp.ack) ∧
      (gmTcpRxSize < host.tcp.rxLen + segment.payload.length →
        (gmTcpReceive segment host).tcp.rx = host.tcp.rx ∧
        (gmTcpReceive segment host).tcp.rxHead = host.tcp.rxHead ∧
        (gmTcpReceive segment host).tcp.rxLen = host.tcp.rxLen ∧
        (gmTcpReceive segment host).tcp.ack = host.tcp.ack) := by
  unfold gmTcpReceive
  split
  · exact ⟨inOrder, ⟨[], by simp, by simp⟩, fun _ => ⟨rfl, rfl, rfl, rfl⟩⟩
  have accepted := gmTcpAccept_inOrder inOrder carries
  obtain ⟨events, log, silent⟩ := gmTcpAccept_silent segment host
  have full := gmTcpAccept_full inOrder.valid segment
  generalize gmTcpAccept segment host = next at accepted log full ⊢
  refine ⟨gmTcpSegment_inOrder accepted _, ?_⟩
  obtain ⟨ok, count, sends, result⟩ :=
    gmTcpSegment_effect next.tcp.ackSegment next
  simp only [result]
  refine ⟨⟨events ++ [.sent next.tcp.ackSegment ok], ?_, ?_⟩, ?_⟩
  · rw [log, List.append_assoc]
  · intro sent sentOk member
    rcases List.mem_append.mp member with early | last
    · exact absurd early (silent sent sentOk)
    · simp only [List.mem_singleton, GmNetEvent.sent.injEq] at last
      rw [last.1]
      rfl
  · intro tooLong
    have same := full tooLong
    exact ⟨same.rx, same.rxHead, same.rxLen, same.ack⟩

/-! ## One step -/

theorem gmTcpInput_contract {packet : GmPacket}
    (legal : PeerStep stream irs host (.input packet)) :
    InOrder stream irs (gmTcpInput packet host) ∧
      ReceiveContract (.input packet) host (gmTcpInput packet host) := by
  unfold gmTcpInput
  split
  case h_1 ignored =>
    refine ⟨inOrder, ⟨[], by simp, by simp⟩, ?_⟩
    intro other segment same decoded
    cases same
    rw [ignored] at decoded
    cases decoded
  case h_2 segment decoded =>
    have carries := legal segment decoded
    have heard := (hear_same host segment).trans
      (gmTcpAcknowledge_same segment _)
    rw [gmTcpHandle_plain carries.1 inOrder.up]
    generalize gmTcpAcknowledge segment (host.hear segment) = next
      at heard ⊢
    rw [← heard.received] at carries
    obtain ⟨kept, ⟨late, lateLog, acks⟩, refused⟩ :=
      gmTcpReceive_contract (heard.inOrder inOrder) carries
    obtain ⟨early, earlyLog, silent⟩ := heard.silent
    refine ⟨kept, ⟨early ++ late, ?_, ?_⟩, ?_⟩
    · rw [lateLog, earlyLog, List.append_assoc]
    · intro sent ok member
      rcases List.mem_append.mp member with old | new
      · exact absurd old (silent sent ok)
      · exact acks sent ok new
    · intro other otherSegment same otherDecoded tooLong
      cases same
      rw [decoded] at otherDecoded
      cases otherDecoded
      rw [← heard.rxLen] at tooLong
      obtain ⟨rx, rxHead, rxLen, ack⟩ := refused tooLong
      exact ⟨rx.trans heard.rx, rxHead.trans heard.rxHead,
        rxLen.trans heard.rxLen, ack.trans heard.ack⟩

theorem gmTcpRead_inOrder (max : Nat) :
    InOrder stream irs (gmTcpRead max host).2 ∧
      ReceiveContract (.read max) host (gmTcpRead max host).2 := by
  by_cases positive : max = 0
  · subst max
    exact ⟨inOrder, ⟨[], by simp [gmTcpRead], by simp⟩, by simp⟩
  obtain ⟨_, effect⟩ := gmTcpRead_effect inOrder.valid positive
  obtain ⟨head, len, tcp⟩ := effect.tcp
  have received : (gmTcpRead max host).2.received = host.received := by
    rw [GmHost.received, effect.buffered, effect.log, conversation_append]
    simp only [List.foldl_cons, List.foldl_nil, Conversation.step,
      List.append_assoc, List.take_append_drop]
    rfl
  refine ⟨inOrder.congr effect.valid ?_ received ?_, ⟨_, effect.log, by simp⟩,
    by simp⟩
  · rw [tcp]
  · rw [tcp]

theorem gmTcpDrop_inOrder :
    InOrder stream irs (gmTcpDrop host) ∧
      ReceiveContract .drop host (gmTcpDrop host) := by
  have received : (gmTcpDrop host).received = host.received := by
    rw [GmHost.received, gmTcpDrop_buffered, List.append_nil]
    simp only [gmTcpDrop, GmHost.record, conversation_append]
    rfl
  exact ⟨inOrder.congr (gmTcpDrop_valid host) rfl received rfl,
    ⟨[_], rfl, by simp⟩, by simp⟩

theorem gmRxStep_contract {step : GmRxStep}
    (legal : PeerStep stream irs host step) :
    InOrder stream irs (gmRxStep step host) ∧
      ReceiveContract step host (gmRxStep step host) := by
  cases step with
  | input packet => exact gmTcpInput_contract inOrder legal
  | read max => exact gmTcpRead_inOrder inOrder max
  | drop => exact gmTcpDrop_inOrder inOrder

end

/-! ## Whole runs -/

/-- The connection as the handshake with a peer of initial sequence number
`irs` leaves it. -/
structure Listening (irs : UInt32) (host : GmHost) : Prop where
  valid : RxValid host.tcp
  up : host.tcp.state = .established
  empty : host.received = []
  ack : host.tcp.ack = irs + 1

theorem Listening.inOrder (listening : Listening irs host) (stream : List UInt8) :
    InOrder stream irs host := by
  refine ⟨listening.valid, listening.up, ?_, ?_⟩
  · rw [listening.empty]
    exact List.nil_prefix
  · rw [listening.empty, listening.ack]
    simp

theorem PeerRun.inOrder {steps : List GmRxStep}
    (inOrder : InOrder stream irs host) (legal : PeerRun stream irs steps host) :
    InOrder stream irs (gmRxRun steps host) := by
  induction steps generalizing host with
  | nil => exact inOrder
  | cons step steps induction =>
    apply induction
    · exact (gmRxStep_contract inOrder legal.1).1
    · exact legal.2

theorem PeerRun.append {early late : List GmRxStep}
    (legal : PeerRun stream irs (early ++ late) host) :
    PeerRun stream irs early host ∧
      PeerRun stream irs late (gmRxRun early host) := by
  induction early generalizing host with
  | nil => exact ⟨trivial, legal⟩
  | cons step steps induction =>
    obtain ⟨first, rest⟩ := induction legal.2
    exact ⟨⟨legal.1, first⟩, rest⟩

/-- Whatever the network does to the peer's segments, the client holds exactly
a beginning of the stream, acknowledges exactly its length, says so in every
segment it emits, and refuses a payload that does not fit as a whole. -/
theorem gmRxRun_in_order (stream : List UInt8) (irs : UInt32) (host : GmHost)
    (listening : Listening irs host) (steps : List GmRxStep)
    (legal : PeerRun stream irs steps host) :
    (∃ count ≤ stream.length,
      (gmRxRun steps host).received = stream.take count ∧
      (gmRxRun steps host).tcp.ack = irs + 1 + UInt32.ofNat count ∧
      (gmRxRun steps host).tcp.state = .established) ∧
    ∀ early step late, steps = early ++ step :: late →
      ReceiveContract step (gmRxRun early host)
        (gmRxRun (early ++ [step]) host) := by
  have initial := listening.inOrder stream
  constructor
  · have final := legal.inOrder initial
    refine ⟨_, final.bytes.length_le, ?_, final.ack, final.up⟩
    exact List.prefix_iff_eq_take.mp final.bytes
  · intro early step late split
    rw [split] at legal
    obtain ⟨before, next, _⟩ := legal.append
    have last : gmRxRun (early ++ [step]) host =
        gmRxStep step (gmRxRun early host) := by
      simp [gmRxRun]
    rw [last]
    exact (gmRxStep_contract (before.inOrder initial) next).2

/-- A connection whose receive point wraps after one byte. -/
def wrappingHost : GmHost :=
  { tcp :=
      { dst := [10, 0, 2, 2]
        srcPort := 40000
        dstPort := 7070
        state := .established
        ack := 0xffffffff } }

/-- A part of the peer's greeting, sent to `wrappingHost`. -/
def greetingPacket (position : Nat) (text : String) : GmPacket :=
  serverPacket (0xffffffff + UInt32.ofNat position) 0 gmTcpFlagAck (ascii text)

/-- Out of order, in order with a read, and a late duplicate. -/
def wrappingSteps : List GmRxStep :=
  [.input (greetingPacket 3 "TORE"),
    .input (greetingPacket 0 "GMS"),
    .read 2,
    .input (greetingPacket 3 "TORE 2.0"),
    .input (greetingPacket 0 "GMSTORE")]

theorem wrappingHost_listening : Listening 0xfffffffe wrappingHost :=
  ⟨⟨by decide, by decide⟩, rfl, rfl, rfl⟩

/-- A packet decodes to at most one segment, so one segment is enough. -/
private theorem PeerStep.of_decode {packet : GmPacket} (segment : GmSegment)
    (decoded : gmTcpDecode host.tcp.dst host.config.ip host.tcp.dstPort
      host.tcp.srcPort packet.src packet.data = some segment)
    (carries : Carries stream irs host.received.length segment) :
    PeerStep stream irs host (.input packet) := by
  intro other otherDecoded
  rw [decoded] at otherDecoded
  cases otherDecoded
  exact carries

theorem wrappingSteps_legal :
    PeerRun (ascii "GMSTORE 2.0\n") 0xfffffffe wrappingSteps wrappingHost := by
  refine ⟨.of_decode ⟨2, 0, 16, ascii "TORE"⟩ (by decide +kernel) ?_,
    .of_decode ⟨0xffffffff, 0, 16, ascii "GMS"⟩ (by decide +kernel) ?_,
    trivial,
    .of_decode ⟨2, 0, 16, ascii "TORE 2.0"⟩ (by decide +kernel) ?_,
    .of_decode ⟨0xffffffff, 0, 16, ascii "GMSTORE"⟩ (by decide +kernel) ?_,
    trivial⟩
  · exact ⟨by decide, 3, by decide, by decide, by decide +kernel⟩
  · exact ⟨by decide, 0, by decide, by decide, by decide +kernel⟩
  · exact ⟨by decide, 3, by decide, by decide, by decide +kernel⟩
  · exact ⟨by decide, 0, by decide, by decide, by decide +kernel⟩

theorem gmRxRun_in_order_wrapping :
    ∃ count ≤ (ascii "GMSTORE 2.0\n").length,
      (gmRxRun wrappingSteps wrappingHost).received =
        (ascii "GMSTORE 2.0\n").take count ∧
      (gmRxRun wrappingSteps wrappingHost).tcp.ack =
        0xfffffffe + 1 + UInt32.ofNat count ∧
      (gmRxRun wrappingSteps wrappingHost).tcp.state = .established :=
  (gmRxRun_in_order _ _ _ wrappingHost_listening _ wrappingSteps_legal).1

end Gmker.Net
