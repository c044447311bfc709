import Gmker.Net.Delivery
import Gmker.Net.Handshake

/-!
# The number of the first byte

The stream of a connection starts behind the SYN that the peer answered.  Each
handshake ACK that the link refuses moves `gm_tcp_seq` on in state SYN, and
with it the number that the next SYN carries, so the agreed initial sequence
number is the chosen one plus these refusals.
-/

namespace Gmker.Net

variable {segment : GmSegment}

/-- Refused handshake ACKs after one more event. -/
def lostAfter (conv : Conversation) (lost : Nat) : GmNetEvent → Nat
  | .opened _ => 0
  | .sent segment false =>
    if conv.state = .syn ∧ segment.has gmTcpFlagAck = true then lost + 1
    else lost
  | _ => lost

def lostStep (picture : Conversation × Nat) (event : GmNetEvent) :
    Conversation × Nat :=
  (picture.1.step event, lostAfter picture.1 picture.2 event)

/-- The handshake ACKs of the current connection that the link refused. -/
def lostAcks (log : List GmNetEvent) : Nat :=
  (log.foldl lostStep ({}, 0)).2

/-- The number of the SYN that opens the stream of the current connection. -/
def agreedIsn (log : List GmNetEvent) : UInt32 :=
  (conversation log).iss + UInt32.ofNat (lostAcks log)

theorem lostStep_conversation (log : List GmNetEvent)
    (picture : Conversation × Nat) :
    (log.foldl lostStep picture).1 =
      log.foldl Conversation.step picture.1 := by
  induction log generalizing picture with
  | nil => rfl
  | cons event log inductionHypothesis =>
    exact inductionHypothesis (lostStep picture event)

theorem lostAcks_snoc (log : List GmNetEvent) (event : GmNetEvent) :
    lostAcks (log ++ [event]) =
      lostAfter (conversation log) (lostAcks log) event := by
  unfold lostAcks
  rw [List.foldl_append]
  have picture : (log.foldl lostStep ({}, 0)).1 = conversation log :=
    lostStep_conversation log ({}, 0)
  rw [← picture]
  rfl

theorem agreedIsn_snoc {log : List GmNetEvent} {event : GmNetEvent}
    (iss : ((conversation log).step event).iss = (conversation log).iss)
    (lost : lostAfter (conversation log) (lostAcks log) event =
      lostAcks log) : agreedIsn (log ++ [event]) = agreedIsn log := by
  unfold agreedIsn
  rw [lostAcks_snoc, conversation_snoc, iss, lost]

/-- A transmission changes neither number of a conversation. -/
theorem Conversation.step_sent (conv : Conversation) (segment : GmSegment)
    (ok : Bool) :
    (conv.step (.sent segment ok)).iss = conv.iss ∧
      (conv.step (.sent segment ok)).base = conv.base ∧
      (conv.step (.sent segment ok)).state = conv.state := by
  simp only [Conversation.step]
  split <;> exact ⟨rfl, rfl, rfl⟩

theorem lostAfter_sent {conv : Conversation} (lost : Nat) (ok : Bool)
    (other : conv.state ≠ .syn ∨ segment.has gmTcpFlagAck = false) :
    lostAfter conv lost (.sent segment ok) = lost := by
  cases ok with
  | true => rfl
  | false =>
    apply if_neg
    rintro ⟨syn, isAck⟩
    rcases other with notSyn | noAck
    · exact notSyn syn
    · rw [noAck] at isAck
      cases isAck

/-! ## The agreed number along a run -/

/-- Where a connection stands with its numbers. -/
structure Numbered (log : List GmNetEvent) (conn : Connection) : Prop where
  syn : conn.state = .syn → conn.seq = agreedIsn log
  up : conn.state = .established ∨ (conversation log).requests ≠ [] →
    (conversation log).base = agreedIsn log + 1

namespace Numbered

variable {log : List GmNetEvent} {conn after : Connection}
  {event : GmNetEvent}

section

variable (numbered : Numbered log conn)

include numbered

/-- A step that touches none of the numbers. -/
theorem keep (isn : agreedIsn (log ++ [event]) = agreedIsn log)
    (base : ((conversation log).step event).base = (conversation log).base)
    (requests : ((conversation log).step event).requests ≠ [] →
      conn.state = .established ∨ (conversation log).requests ≠ [])
    (syn : after.state = .syn → conn.state = .syn ∧ after.seq = conn.seq)
    (up : after.state = .established → conn.state = .established) :
    Numbered (log ++ [event]) after := by
  constructor
  · intro isSyn
    obtain ⟨wasSyn, seq⟩ := syn isSyn
    rw [isn, seq]
    exact numbered.syn wasSyn
  · intro either
    rw [conversation_snoc] at either ⊢
    rw [base, isn]
    refine numbered.up ?_
    rcases either with isUp | nonempty
    · exact .inl (up isUp)
    · exact requests nonempty

/-- A transmission that adds nothing to the stream. -/
theorem sent {ok : Bool}
    (other : (conversation log).state ≠ .syn ∨ segment.has gmTcpFlagAck = false)
    (same : (conversation log).step (.sent segment ok) = conversation log)
    (syn : after.state = .syn → conn.state = .syn ∧ after.seq = conn.seq)
    (up : after.state = .established → conn.state = .established) :
    Numbered (log ++ [.sent segment ok]) after := by
  have step := (conversation log).step_sent segment ok
  refine numbered.keep (agreedIsn_snoc step.1 (lostAfter_sent _ ok other))
    step.2.1 ?_ syn up
  rw [same]
  exact .inr

theorem calm (consistent : Consistent (conversation log) conn)
    (notSyn : conn.state ≠ .syn)
    (step : CalmStep (conversation log) conn event after) :
    Numbered (log ++ [event]) after ∧ after.state ≠ .syn := by
  have quiet : (conversation log).state ≠ .syn := by
    rw [consistent.state]
    exact notSyn
  have absent : ∀ {rest : Prop}, conn.state = .syn → rest :=
    fun syn => absurd syn notSyn
  cases step with
  | arrived segment =>
    exact ⟨numbered.keep (agreedIsn_snoc rfl rfl) rfl .inr absent id, notSyn⟩
  | synAck segment syn answer => exact absent syn
  | established segment syn heard answer => exact absent syn
  | reset =>
    refine ⟨numbered.keep (agreedIsn_snoc rfl rfl) rfl .inr ?_ ?_, ?_⟩ <;>
      simp
  | closed down =>
    refine ⟨numbered.keep (agreedIsn_snoc rfl rfl) rfl .inr ?_ ?_, ?_⟩ <;>
      simp
  | finished =>
    refine ⟨numbered.keep (agreedIsn_snoc rfl rfl) rfl .inr ?_ ?_, ?_⟩ <;>
      simp
  | fin settled =>
    refine ⟨numbered.keep (agreedIsn_snoc rfl rfl) rfl .inr ?_ ?_, ?_⟩ <;>
      simp
  | control segment ok empty =>
    exact ⟨numbered.sent (.inl quiet) (Consistent.step_control _ ok empty)
      absent id, notSyn⟩
  | again segment ok outstanding payload seq =>
    exact ⟨numbered.sent (.inl quiet)
      (consistent.step_again ok outstanding seq) absent id, notSyn⟩
  | failed segment settled =>
    exact ⟨numbered.sent (.inl quiet) (Consistent.step_failed _ _)
      absent id, notSyn⟩
  | acked segment heard flag outstanding covers =>
    exact ⟨numbered.keep (agreedIsn_snoc rfl rfl) rfl .inr absent id, notSyn⟩
  | accepted bytes =>
    exact ⟨numbered.keep (agreedIsn_snoc rfl rfl) rfl .inr absent id, notSyn⟩

theorem talk (consistent : Consistent (conversation log) conn)
    (notSyn : conn.state ≠ .syn)
    (step : TalkStep (conversation log) conn event after) :
    Numbered (log ++ [event]) after ∧ after.state ≠ .syn := by
  have quiet : (conversation log).state ≠ .syn := by
    rw [consistent.state]
    exact notSyn
  have absent : ∀ {rest : Prop}, conn.state = .syn → rest :=
    fun syn => absurd syn notSyn
  cases step with
  | listen step =>
    cases step with
    | calm step => exact numbered.calm consistent notSyn step
    | read bytes rest split =>
      exact ⟨numbered.keep (agreedIsn_snoc rfl rfl) rfl .inr absent id,
        notSyn⟩
  | dropped =>
    exact ⟨numbered.keep (agreedIsn_snoc rfl rfl) rfl .inr absent id, notSyn⟩
  | handed segment up settled nonempty short seq =>
    have step := (conversation log).step_sent segment true
    exact ⟨numbered.keep (agreedIsn_snoc step.1
      (lostAfter_sent _ true (.inl quiet))) step.2.1 (fun _ => .inl up)
      absent id, notSyn⟩

/-- A refused handshake ACK, with the number that it leaves behind. -/
theorem refused (consistent : Consistent (conversation log) conn)
    (syn : conn.state = .syn) (isAck : segment.has gmTcpFlagAck = true) :
    Numbered (log ++ [.sent segment false])
      { conn with seq := conn.seq + 1 } := by
  have shaking : (conversation log).state = .syn :=
    consistent.state.trans syn
  have counted : lostAcks (log ++ [.sent segment false]) =
      lostAcks log + 1 := by
    rw [lostAcks_snoc]
    exact if_pos ⟨shaking, isAck⟩
  constructor
  · intro _
    unfold agreedIsn
    rw [counted, conversation_snoc, ((conversation log).step_sent _ _).1,
      UInt32.ofNat_add, ← UInt32.add_assoc]
    exact congrArg (· + 1) (numbered.syn syn)
  · intro either
    rw [conversation_snoc, Consistent.step_failed] at either
    rcases either with up | nonempty
    · rw [syn] at up
      cases up
    · exact absurd (consistent.fresh syn) nonempty

theorem established (syn : conn.state = .syn)
    (heard : (conversation log).heard = some segment)
    (answer : segment.ack = conn.seq + 1) :
    Numbered (log ++ [.state .established])
      { conn with state := .established, seq := conn.seq + 1 } := by
  constructor
  · intro isSyn
    cases isSyn
  · intro _
    rw [agreedIsn_snoc rfl rfl, conversation_snoc, ← numbered.syn syn,
      ← answer]
    simp [Conversation.step, heard]

end

end Numbered

/-! ## The invariant of the sender -/

/-- What holds of the client at every point of time. -/
structure Sending (host : GmHost) : Prop where
  valid : RxValid host.tcp
  consistent : Consistent (conversation host.log) host.tcp.view
  wired : Wired host.log
  numbered : Numbered host.log host.tcp.view

theorem Evolves.wired {before after : GmHost}
    (evolves : Evolves before after)
    (consistent : Consistent (conversation before.log) before.tcp.view)
    (wired : Wired before.log) : Wired after.log := by
  have both := evolves.log_invariant
    (fun log conn => Consistent (conversation log) conn ∧ Wired log)
    (fun log conn event after step holds => by
      refine ⟨?_, holds.2.step holds.1 step⟩
      rw [conversation_snoc]
      exact holds.1.step step)
    ⟨consistent, wired⟩
  exact both.2

namespace Sending

variable {before host after : GmHost}

/-- A move whose numbers are known to agree. -/
theorem moved (sending : Sending before) (evolves : Evolves before after)
    (numbered : Numbered after.log after.tcp.view) : Sending after :=
  ⟨evolves.valid, evolves.consistent sending.consistent,
    evolves.wired sending.consistent sending.wired, numbered⟩

theorem talks (sending : Sending before) (moves : Talks before after)
    (notSyn : before.tcp.state ≠ .syn) :
    Sending after ∧ after.tcp.state ≠ .syn := by
  have kept := moves.log_invariant
    (fun log conn => Consistent (conversation log) conn ∧
      Numbered log conn ∧ conn.state ≠ .syn)
    (fun log conn event after step holds => by
      refine ⟨?_, holds.2.1.talk holds.1 holds.2.2 step⟩
      rw [conversation_snoc]
      exact holds.1.talk step)
    ⟨sending.consistent, sending.numbered, notSyn⟩
  exact ⟨sending.moved moves.evolves kept.2.1, kept.2.2⟩

theorem frame (sending : Sending before) (tcp : after.tcp = before.tcp)
    (log : after.log = before.log) : Sending after := by
  constructor
  · rw [tcp]
    exact sending.valid
  · rw [tcp, log]
    exact sending.consistent
  · rw [log]
    exact sending.wired
  · rw [tcp, log]
    exact sending.numbered

section

variable (sending : Sending host)

include sending

theorem hear_numbered (segment : GmSegment) :
    Numbered (host.hear segment).log (host.hear segment).tcp.view :=
  sending.numbered.keep (agreedIsn_snoc rfl rfl) rfl .inr
    (fun syn => ⟨syn, rfl⟩) id

theorem hear (segment : GmSegment) : Sending (host.hear segment) :=
  sending.moved (hear_calm sending.valid segment).listens.talks.evolves
    (sending.hear_numbered segment)

theorem leave_numbered {state : GmTcpState} (notSyn : state ≠ .syn)
    (notUp : state ≠ .established) {conn : Connection}
    (moved : conn.state = state) :
    Numbered (host.log ++ [.state state]) conn := by
  refine sending.numbered.keep (agreedIsn_snoc rfl rfl) (if_neg notUp) .inr
    ?_ ?_
  · intro syn
    exact absurd (moved.symm.trans syn) notSyn
  · intro up
    exact absurd (moved.symm.trans up) notUp

/-- A handshake ends established, or with another number. -/
theorem handshake (syn : host.tcp.state = .syn) (segment : GmSegment) :
    Numbered (gmTcpHandshake segment (host.hear segment)).log
      (gmTcpHandshake segment (host.hear segment)).tcp.view := by
  have heard := sending.hear segment
  rw [gmTcpHandshake_eq]
  by_cases answer : segment.ack = (host.hear segment).tcp.seq + 1
  · rw [if_neg (not_not_intro answer)]
    obtain ⟨ok, count, sends, result⟩ := gmTcpSegment_effect
      ((host.hear segment).synchronize segment).tcp.ackSegment
      ((host.hear segment).synchronize segment)
    rw [result]
    cases ok with
    | false =>
      exact heard.numbered.refused heard.consistent syn
        (by simp [GmSegment.has, GmTcp.ackSegment, gmTcpFlagAck])
    | true =>
      have answered : Numbered ((host.hear segment).log ++
          [.sent ((host.hear segment).synchronize segment).tcp.ackSegment
            true]) (host.hear segment).tcp.view :=
        heard.numbered.keep (agreedIsn_snoc
          ((conversation _).step_sent _ _).1 rfl)
          ((conversation _).step_sent _ _).2.1
          (by rw [Consistent.step_control _ true rfl]; exact .inr)
          (fun isSyn => ⟨isSyn, rfl⟩) id
      have known : (conversation ((host.hear segment).log ++
          [.sent ((host.hear segment).synchronize segment).tcp.ackSegment
            true])).heard = some segment := by
        rw [conversation_snoc, Consistent.step_control _ true rfl]
        exact hear_heard host segment
      exact answered.established syn known answer
  · rw [if_pos answer]
    exact heard.numbered

theorem input (packet : GmPacket) : Sending (gmTcpInput packet host) := by
  have calm := gmTcpInput_calm sending.valid packet
  by_cases syn : host.tcp.state = .syn
  · refine sending.moved calm.listens.talks.evolves ?_
    unfold gmTcpInput
    split
    · exact sending.numbered
    rename_i segment _
    rw [gmTcpHandle_eq]
    split
    · exact (sending.hear segment).leave_numbered (by simp) (by simp) rfl
    split
    · exact sending.handshake syn segment
    split
    · exact sending.hear_numbered segment
    · rename_i live
      simp [syn] at live
  · exact (sending.talks calm.listens.talks syn).1

theorem poll : Sending (gmTcpPoll host) := by
  by_cases syn : host.tcp.state = .syn
  · have idle : gmTcpPoll host = host := by
      rw [gmTcpPoll_eq, if_pos (.inl (by simp [syn]))]
    rw [idle]
    exact sending
  · exact (sending.talks
      (gmTcpPoll_calm sending.valid).listens.talks syn).1

theorem close (down : host.tcp.state ≠ .established) :
    Sending (host.setState .closed) := by
  have calm : Calm host (host.setState .closed) :=
    .single ⟨sending.valid.head, sending.valid.len⟩ rfl (.closed down)
  exact sending.moved calm.listens.talks.evolves
    (sending.leave_numbered (by simp) (by simp) rfl)

theorem syn_sent : Sending (gmTcpSegment host.tcp.synSegment host).2 := by
  have calm := gmTcpSegment_control sending.valid host.tcp.synSegment rfl
  obtain ⟨ok, count, sends, result⟩ :=
    gmTcpSegment_effect host.tcp.synSegment host
  refine sending.moved calm.listens.talks.evolves ?_
  rw [result]
  have noAck : host.tcp.synSegment.has gmTcpFlagAck = false := by
    show (gmTcpFlagSyn &&& gmTcpFlagAck != 0) = false
    decide
  exact sending.numbered.sent (.inr noAck)
    (Consistent.step_control _ ok rfl) (fun isSyn => ⟨isSyn, rfl⟩) id

theorem opened (dst : List UInt8) (port : UInt16) :
    Sending (gmTcpOpen dst port host) := by
  refine sending.moved (gmTcpOpen_evolves dst port host) ⟨?_, ?_⟩
  · intro _
    show host.tcp.nextSeq =
      agreedIsn (host.log ++ [.opened host.tcp.nextSeq])
    unfold agreedIsn
    rw [lostAcks_snoc, conversation_snoc]
    exact (UInt32.add_zero _).symm
  · intro either
    have empty : (conversation (gmTcpOpen dst port host).log).requests =
        [] := by
      show (conversation
        (host.log ++ [.opened host.tcp.nextSeq])).requests = []
      rw [conversation_snoc]
      rfl
    rcases either with up | nonempty
    · cases up
    · exact absurd empty nonempty

end

end Sending

theorem sending_carried : Carried (fun _ => True) Sending :=
  ⟨fun holds tcp log => holds.frame tcp log, fun _ holds => holds.input _,
    fun holds => holds.poll⟩

theorem closedAt_sending (config : GmNetConfig) (env : GmNetEnv)
    (iss : UInt32) : Sending (closedAt config env iss) := by
  have resting := closedAt_resting config env iss
  refine ⟨resting.valid, resting.consistent, ?_, ?_, ?_⟩
  · intro segment member
    cases member
  · intro syn
    cases syn
  · rintro (up | nonempty)
    · cases up
    · exact absurd rfl nonempty

end Gmker.Net
