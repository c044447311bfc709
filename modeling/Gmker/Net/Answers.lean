import Gmker.Net.Receive
import Gmker.Net.Session

/-!
# What one segment of the peer achieves

A valid segment may acknowledge, carry payload and close the connection.  The
client closes on every FIN, in sequence or not, and it answers payload and FIN
segments while the connection lives, but neither a repeated SYN-ACK nor
anything that reaches it after the FIN.
-/

namespace Gmker.Net

variable {segment : GmSegment} {host : GmHost}

/-! ## The acknowledged sequence number -/

/-- `gm_tcp_ack` once the payload of a segment was offered to the ring. -/
def GmTcp.ackAfter (tcp : GmTcp) (segment : GmSegment) : UInt32 :=
  if segment.payload ≠ [] ∧ segment.seq = tcp.ack ∧
      segment.payload.length ≤ gmTcpRxSize - tcp.rxLen then
    tcp.ack + UInt32.ofNat segment.payload.length
  else tcp.ack

/-- The sequence number of the FIN of a segment. -/
def GmSegment.finSeq (segment : GmSegment) : UInt32 :=
  segment.seq + UInt32.ofNat segment.payload.length

/-- Transmitting leaves the connection as it was. -/
structure SameConnection (before after : GmHost) : Prop where
  state : after.tcp.state = before.tcp.state
  seq : after.tcp.seq = before.tcp.seq
  ack : after.tcp.ack = before.tcp.ack
  rxLen : after.tcp.rxLen = before.tcp.rxLen
  unacked : after.tcp.unacked = before.tcp.unacked
  nextSeq : after.tcp.nextSeq = before.tcp.nextSeq

theorem gmTcpSegment_same (segment : GmSegment) (host : GmHost) :
    SameConnection host (gmTcpSegment segment host).2 := by
  obtain ⟨ok, count, sends, result⟩ := gmTcpSegment_effect segment host
  rw [result]
  exact ⟨rfl, rfl, rfl, rfl, rfl, rfl⟩

theorem gmTcpAccept_ack (host : GmHost) (carries : segment.payload ≠ []) :
    (gmTcpAccept segment host).tcp.ack = host.tcp.ackAfter segment := by
  unfold gmTcpAccept gmTcpAppend GmTcp.ackAfter
  by_cases next : segment.seq = host.tcp.ack
  · rw [if_pos next]
    by_cases full : gmTcpRxSize - host.tcp.rxLen < segment.payload.length
    · rw [if_pos full, if_neg (by omega)]
    · rw [if_neg full, if_pos ⟨carries, next, by omega⟩]
      rfl
  · rw [if_neg next, if_neg (fun all => next all.2.1)]

/-- The payload part moves nothing but the receive side. -/
theorem gmTcpReceive_effect (segment : GmSegment) (host : GmHost) :
    (gmTcpReceive segment host).tcp.ack = host.tcp.ackAfter segment ∧
      (gmTcpReceive segment host).tcp.state = host.tcp.state ∧
      (gmTcpReceive segment host).tcp.unacked = host.tcp.unacked := by
  unfold gmTcpReceive
  by_cases empty : segment.payload = []
  · rw [if_pos empty]
    refine ⟨?_, rfl, rfl⟩
    rw [GmTcp.ackAfter, if_neg (fun all => all.1 empty)]
  · rw [if_neg empty]
    dsimp only
    have same := gmTcpSegment_same
      (gmTcpAccept segment host).tcp.ackSegment (gmTcpAccept segment host)
    have silent : (gmTcpAccept segment host).tcp.state = host.tcp.state ∧
        (gmTcpAccept segment host).tcp.unacked = host.tcp.unacked := by
      unfold gmTcpAccept gmTcpAppend
      split
      · split
        · rename_i stored
          split at stored
          · cases stored
            exact ⟨rfl, rfl⟩
          · cases stored
        · rename_i stored
          split at stored
          · cases stored
          · cases stored
            exact ⟨rfl, rfl⟩
      · exact ⟨rfl, rfl⟩
    exact ⟨same.ack.trans (gmTcpAccept_ack host empty),
      same.state.trans silent.1, same.unacked.trans silent.2⟩

theorem gmTcpFinish_effect (host : GmHost)
    (fin : segment.has gmTcpFlagFin = true) :
    (gmTcpFinish segment host).tcp.state = .closed ∧
      (gmTcpFinish segment host).tcp.ack =
        if host.tcp.ack = segment.finSeq then segment.finSeq + 1
        else host.tcp.ack := by
  unfold gmTcpFinish GmSegment.finSeq
  rw [if_pos fin]
  simp only [GmHost.setState, true_and]
  rw [(gmTcpSegment_same _ _).ack]
  by_cases next :
      segment.seq + UInt32.ofNat segment.payload.length = host.tcp.ack
  · rw [if_pos next, if_pos next.symm, next]
  · rw [if_neg next, if_neg (Ne.symm next)]

/-! ## A FIN in sequence -/

/-- `gm_tcp_input` decodes the packet to this segment. -/
def GmHost.decodes (host : GmHost) (packet : GmPacket)
    (segment : GmSegment) : Prop :=
  gmTcpDecode host.tcp.dst host.config.ip host.tcp.dstPort host.tcp.srcPort
    packet.src packet.data = some segment

/-- The states in which segments of the peer are processed. -/
def GmTcpState.live (state : GmTcpState) : Prop :=
  state = .established ∨ state = .fin

theorem gmTcpInput_decoded {packet : GmPacket}
    (decoded : host.decodes packet segment) :
    gmTcpInput packet host = gmTcpHandle segment host := by
  unfold gmTcpInput
  rw [decoded]

theorem gmTcpHandle_live (noReset : segment.has gmTcpFlagRst = false)
    (live : host.tcp.state.live) :
    gmTcpHandle segment host =
      gmTcpFinish segment (gmTcpReceive segment
        (gmTcpAcknowledge segment (host.hear segment))) := by
  rcases live with up | closing
  · simp [gmTcpHandle_eq, noReset, up]
  · simp [gmTcpHandle_eq, noReset, closing]

/-- The connection closes on a FIN only if everything before it is accepted;
otherwise the connection stays as it was, apart from the payload that the
segment acknowledges. -/
def FinHonoured (segment : GmSegment) (before after : GmHost) : Prop :=
  (after.tcp.state = .closed → after.tcp.ack = segment.finSeq + 1) ∧
    (after.tcp.ack ≠ segment.finSeq + 1 →
      after.tcp.state = before.tcp.state ∧ after.tcp.ack = before.tcp.ack ∧
        after.tcp.unacked = (gmTcpAcknowledge segment before).tcp.unacked)

/-- The FIN, or its first repetition, is what the connection waits for, or the
payload in front of it is and fits into the ring. -/
def InSequence (segment : GmSegment) (host : GmHost) : Prop :=
  segment.finSeq = host.tcp.ack ∨ segment.finSeq + 1 = host.tcp.ack ∨
    (segment.seq = host.tcp.ack ∧
      segment.payload.length ≤ gmTcpRxSize - host.tcp.rxLen)

theorem inSequence_iff_ackAfter (segment : GmSegment) (host : GmHost) :
    InSequence segment host ↔
      host.tcp.ackAfter segment = segment.finSeq ∨
        host.tcp.ackAfter segment = segment.finSeq + 1 := by
  unfold InSequence GmTcp.ackAfter
  by_cases accepted : segment.payload ≠ [] ∧ segment.seq = host.tcp.ack ∧
      segment.payload.length ≤ gmTcpRxSize - host.tcp.rxLen
  · rw [if_pos accepted]
    refine ⟨fun _ => .inl ?_, fun _ => .inr (.inr accepted.2)⟩
    rw [GmSegment.finSeq, accepted.2.1]
  · rw [if_neg accepted]
    constructor
    · rintro (next | repeated | ⟨next, fits⟩)
      · exact .inl next.symm
      · exact .inr repeated.symm
      · -- nothing was accepted, so the FIN stands alone
        have empty : segment.payload = [] := by
          by_contra carries
          exact accepted ⟨carries, next, fits⟩
        left
        rw [GmSegment.finSeq, empty, next]
        simp
    · rintro (next | repeated)
      · exact .inl next.symm
      · exact .inr (.inl repeated.symm)

/-- The acknowledgement part touches nothing that reception depends on. -/
theorem gmTcpAcknowledge_hear_same (segment : GmSegment) (host : GmHost) :
    SameReception host (gmTcpAcknowledge segment (host.hear segment)) :=
  (hear_same host segment).trans (gmTcpAcknowledge_same segment _)

theorem gmTcpAcknowledge_hear_ackAfter (segment : GmSegment)
    (host : GmHost) :
    (gmTcpAcknowledge segment (host.hear segment)).tcp.ackAfter segment =
      host.tcp.ackAfter segment := by
  have same := gmTcpAcknowledge_hear_same segment host
  unfold GmTcp.ackAfter
  rw [same.ack, same.rxLen]

/-- A FIN closes a live connection wherever it stands in the stream. -/
theorem gmTcpHandle_fin (noReset : segment.has gmTcpFlagRst = false)
    (fin : segment.has gmTcpFlagFin = true) (live : host.tcp.state.live) :
    (gmTcpHandle segment host).tcp.state = .closed ∧
      (gmTcpHandle segment host).tcp.ack =
        if host.tcp.ackAfter segment = segment.finSeq then
          segment.finSeq + 1
        else host.tcp.ackAfter segment := by
  rw [gmTcpHandle_live noReset live]
  have finished := gmTcpFinish_effect (gmTcpReceive segment
    (gmTcpAcknowledge segment (host.hear segment))) fin
  rw [(gmTcpReceive_effect _ _).1, gmTcpAcknowledge_hear_ackAfter] at finished
  exact finished

theorem gmTcpHandle_fin_honoured_iff
    (noReset : segment.has gmTcpFlagRst = false)
    (fin : segment.has gmTcpFlagFin = true) (live : host.tcp.state.live) :
    FinHonoured segment host (gmTcpHandle segment host) ↔
      InSequence segment host := by
  obtain ⟨closed, ack⟩ := gmTcpHandle_fin noReset fin live
  have reached : (gmTcpHandle segment host).tcp.ack = segment.finSeq + 1 ↔
      InSequence segment host := by
    rw [ack, inSequence_iff_ackAfter]
    by_cases next : host.tcp.ackAfter segment = segment.finSeq
    · rw [if_pos next]
      exact ⟨fun _ => .inl next, fun _ => rfl⟩
    · rw [if_neg next]
      exact ⟨.inr, fun either => either.resolve_left next⟩
  rw [← reached]
  refine ⟨fun honoured => honoured.1 closed, fun atFin => ⟨fun _ => atFin, ?_⟩⟩
  exact fun missed => absurd atFin missed

/-! ## Every FIN of a run -/

/-- A property of each FIN that a live connection meets in one step, read with
the hosts before and after it. -/
def AtFin (property : GmSegment → GmHost → GmHost → Prop)
    (step : GmRxStep) (host : GmHost) : Prop :=
  ∀ packet segment, step = .input packet → host.decodes packet segment →
    segment.has gmTcpFlagRst = false → segment.has gmTcpFlagFin = true →
    host.tcp.state.live → property segment host (gmRxStep step host)

def EveryFin (property : GmSegment → GmHost → GmHost → Prop) :
    List GmRxStep → GmHost → Prop
  | [], _ => True
  | step :: steps, host =>
    AtFin property step host ∧ EveryFin property steps (gmRxStep step host)

theorem atFin_honoured_iff (step : GmRxStep) (host : GmHost) :
    AtFin FinHonoured step host ↔
      AtFin (fun segment before _ => InSequence segment before) step host := by
  unfold AtFin
  refine forall₂_congr fun packet segment => ?_
  refine imp_congr_right fun isInput => imp_congr_right fun decoded => ?_
  refine imp_congr_right fun noReset => imp_congr_right fun fin => ?_
  refine imp_congr_right fun live => ?_
  subst isInput
  rw [gmRxStep, gmTcpInput_decoded decoded]
  exact gmTcpHandle_fin_honoured_iff noReset fin live

/-- Whatever arrives and is read in between, every FIN is honoured only in
sequence exactly if no FIN overtakes the stream or brings a payload that does
not fit. -/
theorem gmRxRun_fin_honoured (steps : List GmRxStep) (host : GmHost) :
    EveryFin FinHonoured steps host ↔
      EveryFin (fun segment before _ => InSequence segment before)
        steps host := by
  induction steps generalizing host with
  | nil => exact Iff.rfl
  | cons step steps inductionHypothesis =>
    exact and_congr (atFin_honoured_iff step host)
      (inductionHypothesis (gmRxStep step host))

/-- The greeting is lost, the FIN behind it arrives, the greeting is
repeated. -/
def overtakenSteps : List GmRxStep :=
  [.input (serverPacket 0x100d 0x474d0002 0x11 []),
    .input (serverPacket 0x1001 0x474d0002 0x18 (ascii "GMSTORE 2.0\n"))]

/-- The connection right after its handshake. -/
def greetedHost : GmHost :=
  (gmTcpConnect [10, 0, 2, 2] 7070 200
    { env := { pumps := fun _ =>
        { packets := [serverPacket 0x1000 0x474d0002 0x12 []] } } }).2

/-- The FIN closes the connection, and the repeated greeting is lost. -/
theorem gmRxRun_fin_overtakes :
    greetedHost.tcp.state = .established ∧
      greetedHost.tcp.ack = 0x1001 ∧
      (gmRxRun overtakenSteps greetedHost).tcp.state = .closed ∧
      (gmRxRun overtakenSteps greetedHost).tcp.ack = 0x1001 ∧
      (gmRxRun overtakenSteps greetedHost).received = [] ∧
      ¬ EveryFin FinHonoured overtakenSteps greetedHost := by
  refine ⟨by decide +kernel, by decide +kernel, by decide +kernel,
    by decide +kernel, by decide +kernel, ?_⟩
  rintro ⟨atFirst, _⟩
  have honoured := atFirst _ ⟨0x100d, 0x474d0002, 0x11, []⟩ rfl
    (by unfold GmHost.decodes; decide +kernel) (by decide) (by decide)
    (.inl (by decide +kernel))
  exact absurd (honoured.1 (by decide +kernel)) (by decide +kernel)

/-! ## Answers to repeated segments -/

/-- The segment is the second step of the handshake. -/
def GmSegment.isSynAck (segment : GmSegment) : Prop :=
  segment.flags &&& (gmTcpFlagSyn ||| gmTcpFlagAck) =
    gmTcpFlagSyn ||| gmTcpFlagAck

/-- The sequence number behind everything that the segment occupies. -/
def GmSegment.endSeq (segment : GmSegment) : UInt32 :=
  segment.seq + UInt32.ofNat (segment.payload.length +
    (if segment.has gmTcpFlagSyn then 1 else 0) +
    (if segment.has gmTcpFlagFin then 1 else 0))

/-- A connection after its handshake. -/
def GmTcpState.shaken (state : GmTcpState) : Prop :=
  state = .established ∨ state = .fin ∨ state = .closed

/-- A packet repeats something that the connection has accepted. -/
structure Repeats (packet : GmPacket) (segment : GmSegment)
    (host : GmHost) : Prop where
  decoded : host.decodes packet segment
  shaken : host.tcp.state.shaken
  occupies : segment.isSynAck ∨ segment.payload ≠ [] ∨
    segment.has gmTcpFlagFin = true
  accepted : (host.tcp.ack - segment.endSeq).toNat < 2 ^ 31

/-- Some event is a transmission that acknowledges `ack`. -/
def Acknowledges (events : List GmNetEvent) (ack : UInt32) : Prop :=
  ∃ segment ok, .sent segment ok ∈ events ∧
    segment.has gmTcpFlagAck = true ∧ segment.ack = ack

/-- Between the two hosts the client tried to acknowledge what it has. -/
def Answers (before after : GmHost) : Prop :=
  ∃ events, after.log = before.log ++ events ∧
    Acknowledges events after.tcp.ack

/-- The peer is answered on payload and on FIN while the connection lives. -/
def Answerable (segment : GmSegment) (host : GmHost) : Prop :=
  host.tcp.state ≠ .closed ∧ segment.has gmTcpFlagRst = false ∧
    (segment.payload ≠ [] ∨ segment.has gmTcpFlagFin = true)

theorem not_answers_of_silent {before after : GmHost} {events : List GmNetEvent}
    (log : after.log = before.log ++ events)
    (silent : ∀ segment ok, .sent segment ok ∉ events) :
    ¬ Answers before after := by
  rintro ⟨others, otherLog, segment, ok, member, _⟩
  have same : events = others :=
    List.append_cancel_left (log.symm.trans otherLog)
  rw [← same] at member
  exact silent segment ok member

theorem Answers.after {before middle after : GmHost}
    {events : List GmNetEvent} (log : middle.log = before.log ++ events)
    (answers : Answers middle after) : Answers before after := by
  obtain ⟨rest, restLog, segment, ok, member, acknowledges⟩ := answers
  refine ⟨events ++ rest, ?_, segment, ok, ?_, acknowledges⟩
  · rw [restLog, log, List.append_assoc]
  · exact List.mem_append_right events member

theorem gmTcpSegment_answers (host : GmHost) :
    Answers host (gmTcpSegment host.tcp.ackSegment host).2 := by
  obtain ⟨ok, count, sends, result⟩ :=
    gmTcpSegment_effect host.tcp.ackSegment host
  rw [result]
  exact ⟨[.sent host.tcp.ackSegment ok], rfl, host.tcp.ackSegment, ok,
    List.mem_singleton.2 rfl,
    by simp [GmSegment.has, GmTcp.ackSegment, gmTcpFlagAck], rfl⟩

theorem gmTcpReceive_answers (host : GmHost) (carries : segment.payload ≠ []) :
    Answers host (gmTcpReceive segment host) := by
  unfold gmTcpReceive
  rw [if_neg carries]
  obtain ⟨events, log, _⟩ := gmTcpAccept_silent segment host
  exact .after log (gmTcpSegment_answers (gmTcpAccept segment host))

theorem gmTcpReceive_log (segment : GmSegment) (host : GmHost) :
    ∃ events, (gmTcpReceive segment host).log = host.log ++ events := by
  by_cases empty : segment.payload = []
  · refine ⟨[], ?_⟩
    unfold gmTcpReceive
    rw [if_pos empty, List.append_nil]
  · obtain ⟨events, log, _⟩ := gmTcpReceive_answers host empty
    exact ⟨events, log⟩

/-- The FIN part answers after it counted the FIN. -/
theorem gmTcpFinish_answers (host : GmHost)
    (fin : segment.has gmTcpFlagFin = true) :
    Answers host (gmTcpFinish segment host) := by
  unfold gmTcpFinish
  rw [if_pos fin]
  dsimp only
  generalize counted : (if segment.seq + UInt32.ofNat segment.payload.length =
      host.tcp.ack then
    { host with tcp := { host.tcp with ack := host.tcp.ack + 1 } }
    else host) = next
  have sameLog : next.log = host.log := by
    rw [← counted]
    split <;> rfl
  obtain ⟨events, log, answer, ok, member, flag, ack⟩ :=
    gmTcpSegment_answers next
  simp only [GmHost.setState]
  refine ⟨events ++ [.state .closed], ?_, answer, ok, ?_, flag, ack⟩
  · dsimp only
    rw [log, sameLog, List.append_assoc]
  · exact List.mem_append_left _ member

section

variable (noReset : segment.has gmTcpFlagRst = false)

include noReset

theorem gmTcpHandle_live_answers (live : host.tcp.state.live)
    (carries : segment.payload ≠ [] ∨ segment.has gmTcpFlagFin = true) :
    Answers host (gmTcpHandle segment host) := by
  rw [gmTcpHandle_live noReset live]
  obtain ⟨events, log, _⟩ := (gmTcpAcknowledge_hear_same segment host).silent
  refine .after log ?_
  by_cases fin : segment.has gmTcpFlagFin = true
  · obtain ⟨received, receivedLog⟩ := gmTcpReceive_log segment
      (gmTcpAcknowledge segment (host.hear segment))
    exact .after receivedLog (gmTcpFinish_answers _ fin)
  · rw [gmTcpFinish, if_neg fin]
    exact gmTcpReceive_answers _ (carries.resolve_right fin)

theorem gmTcpHandle_live_silent (live : host.tcp.state.live)
    (empty : segment.payload = []) (noFin : ¬ segment.has gmTcpFlagFin = true) :
    ¬ Answers host (gmTcpHandle segment host) := by
  rw [gmTcpHandle_live noReset live, gmTcpFinish, if_neg noFin, gmTcpReceive,
    if_pos empty]
  obtain ⟨events, log, silent⟩ := (gmTcpAcknowledge_hear_same segment host).silent
  exact not_answers_of_silent log silent

theorem gmTcpHandle_closed_silent (closed : host.tcp.state = .closed) :
    ¬ Answers host (gmTcpHandle segment host) := by
  have heard : gmTcpHandle segment host = host.hear segment := by
    simp [gmTcpHandle_eq, noReset, closed]
  rw [heard]
  have log : (host.hear segment).log = host.log ++ [.arrived segment] := rfl
  refine not_answers_of_silent log ?_
  intro other ok
  simp

end

theorem gmTcpHandle_reset_silent (reset : segment.has gmTcpFlagRst = true) :
    ¬ Answers host (gmTcpHandle segment host) := by
  rw [gmTcpHandle_eq, if_pos reset]
  have log : (gmTcpAbandon (host.hear segment)).log =
      host.log ++ [.arrived segment, .state .reset] :=
    List.append_assoc _ _ _
  refine not_answers_of_silent log ?_
  intro other ok
  simp

/-- A repeated segment is answered exactly if it carries payload or a FIN and
meets a connection that has not seen the peer's FIN. -/
theorem gmTcpInput_answers_repeated {packet : GmPacket} {segment : GmSegment}
    {host : GmHost} (repeated : Repeats packet segment host) :
    Answers host (gmTcpInput packet host) ↔ Answerable segment host := by
  rw [gmTcpInput_decoded repeated.decoded]
  unfold Answerable
  by_cases reset : segment.has gmTcpFlagRst = true
  · refine iff_of_false (gmTcpHandle_reset_silent reset) ?_
    rintro ⟨_, noReset, _⟩
    rw [reset] at noReset
    cases noReset
  have noReset : segment.has gmTcpFlagRst = false := by simpa using reset
  by_cases closed : host.tcp.state = .closed
  · refine iff_of_false (gmTcpHandle_closed_silent noReset closed) ?_
    exact fun answerable => answerable.1 closed
  have live : host.tcp.state.live := by
    rcases repeated.shaken with up | closing | isClosed
    · exact .inl up
    · exact .inr closing
    · exact absurd isClosed closed
  by_cases carries : segment.payload ≠ [] ∨ segment.has gmTcpFlagFin = true
  · exact iff_of_true (gmTcpHandle_live_answers noReset live carries)
      ⟨closed, noReset, carries⟩
  · obtain ⟨full, noFin⟩ := not_or.1 carries
    refine iff_of_false
      (gmTcpHandle_live_silent noReset live (not_not.1 full) noFin) ?_
    exact fun answerable => carries answerable.2.2

/-- The second step of the handshake, as the server sends it. -/
def synAckPacket : GmPacket :=
  serverPacket 0x1000 0x474d0002 0x12 []

def greetingSegment : GmSegment :=
  ⟨0x1001, 0x474d0002, 0x18, ascii "GMSTORE 2.0\n"⟩

/-- The connection with the greeting in its ring. -/
def listeningHost : GmHost :=
  gmTcpInput (serverPacket 0x1001 0x474d0002 0x18 (ascii "GMSTORE 2.0\n"))
    greetedHost

/-- The greeting arrives twice, and is answered twice. -/
theorem gmTcpInput_answers_repeated_greeting :
    Answers listeningHost
      (gmTcpInput (serverPacket 0x1001 0x474d0002 0x18
        (ascii "GMSTORE 2.0\n")) listeningHost) := by
  have repeated : Repeats (serverPacket 0x1001 0x474d0002 0x18
      (ascii "GMSTORE 2.0\n")) greetingSegment listeningHost := by
    refine ⟨?_, .inl (by decide +kernel), .inr (.inl (by decide +kernel)),
      by decide +kernel⟩
    unfold GmHost.decodes
    decide +kernel
  refine (gmTcpInput_answers_repeated repeated).2 ⟨?_, by decide, ?_⟩
  · decide +kernel
  · exact .inl (by decide +kernel)

/-- The connection after a FIN in sequence. -/
def farewellHost : GmHost :=
  gmTcpInput (serverPacket 0x1001 0x474d0002 0x11 []) greetedHost

/-- Neither a repeated SYN-ACK nor a repeated FIN is answered. -/
theorem gmTcpInput_ignores_repeated :
    (Repeats synAckPacket ⟨0x1000, 0x474d0002, 0x12, []⟩ greetedHost ∧
        ¬ Answers greetedHost (gmTcpInput synAckPacket greetedHost)) ∧
      (Repeats (serverPacket 0x1001 0x474d0002 0x11 [])
          ⟨0x1001, 0x474d0002, 0x11, []⟩ farewellHost ∧
        ¬ Answers farewellHost
          (gmTcpInput (serverPacket 0x1001 0x474d0002 0x11 [])
            farewellHost)) := by
  have synAck : Repeats synAckPacket ⟨0x1000, 0x474d0002, 0x12, []⟩
      greetedHost := by
    refine ⟨?_, .inl (by decide +kernel), .inl rfl, by decide +kernel⟩
    unfold GmHost.decodes
    decide +kernel
  have fin : Repeats (serverPacket 0x1001 0x474d0002 0x11 [])
      ⟨0x1001, 0x474d0002, 0x11, []⟩ farewellHost := by
    refine ⟨?_, .inr (.inr (by decide +kernel)), .inr (.inr (by decide)),
      by decide +kernel⟩
    unfold GmHost.decodes
    decide +kernel
  refine ⟨⟨synAck, ?_⟩, fin, ?_⟩
  · rw [gmTcpInput_decoded synAck.decoded]
    exact gmTcpHandle_live_silent (by decide) (.inl (by decide +kernel)) rfl
      (by decide)
  · rw [gmTcpInput_decoded fin.decoded]
    exact gmTcpHandle_closed_silent (by decide) (by decide +kernel)

end Gmker.Net
