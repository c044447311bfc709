import Gmker.Net.Conversation

/-!
# The client refines its conversation

Each function of the TCP client is shown to be a run of labelled steps, of the
narrowest kind it needs.
-/

namespace Gmker.Net

variable {before after host : GmHost}

variable {Step : Conversation → Connection → GmNetEvent → Connection → Prop}

/-- The host moved by labelled steps of one kind. -/
structure Moves
    (Step : Conversation → Connection → GmNetEvent → Connection → Prop)
    (before after : GmHost) : Prop where
  valid : RxValid after.tcp
  run : ∃ events, after.log = before.log ++ events ∧
    LogRun Step (conversation before.log) before.tcp.view events after.tcp.view

/-- The host reacted to the network. -/
abbrev Calm := Moves CalmStep

/-- The host waited for a reply. -/
abbrev Listens := Moves ListenStep

/-- The host used the current connection. -/
abbrev Talks := Moves TalkStep

/-- The host moved in any way. -/
abbrev Evolves := Moves ConnStep

namespace Moves

theorem of_view (valid : RxValid after.tcp) (log : after.log = before.log)
    (view : after.tcp.view = before.tcp.view) : Moves Step before after := by
  refine ⟨valid, [], by simp [log], ?_⟩
  rw [view]
  exact .nil _ _

theorem refl (valid : RxValid host.tcp) : Moves Step host host :=
  .of_view valid rfl rfl

theorem trans {first second third : GmHost} (left : Moves Step first second)
    (right : Moves Step second third) : Moves Step first third := by
  obtain ⟨early, leftLog, leftRun⟩ := left.run
  obtain ⟨late, rightLog, rightRun⟩ := right.run
  refine ⟨right.valid, early ++ late, ?_, ?_⟩
  · rw [rightLog, leftLog, List.append_assoc]
  · rw [leftLog, conversation_append] at rightRun
    exact leftRun.append rightRun

theorem single {event : GmNetEvent} (valid : RxValid after.tcp)
    (log : after.log = before.log ++ [event])
    (step : Step (conversation before.log) before.tcp.view event after.tcp.view) :
    Moves Step before after :=
  ⟨valid, [event], log, .single step⟩

/-- A property of log and connection that every step keeps. -/
theorem log_invariant (moves : Moves Step before after)
    (Holds : List GmNetEvent → Connection → Prop)
    (preserved : ∀ log conn event after, Step (conversation log) conn event
      after → Holds log conn → Holds (log ++ [event]) after)
    (initial : Holds before.log before.tcp.view) :
    Holds after.log after.tcp.view := by
  obtain ⟨events, log, run⟩ := moves.run
  rw [log]
  exact run.invariant preserved initial

/-- A property of conversation and connection that every step keeps. -/
theorem invariant (moves : Moves Step before after)
    (Holds : Conversation → Connection → Prop)
    (preserved : ∀ conv conn event after, Step conv conn event after →
      Holds conv conn → Holds (conv.step event) after)
    (initial : Holds (conversation before.log) before.tcp.view) :
    Holds (conversation after.log) after.tcp.view := by
  apply moves.log_invariant (fun log conn => Holds (conversation log) conn)
  · intro log conn event after step holds
    rw [conversation_append]
    exact preserved _ _ _ _ step holds
  · exact initial

end Moves

theorem Calm.listens (calm : Calm before after) : Listens before after := by
  obtain ⟨events, log, run⟩ := calm.run
  exact ⟨calm.valid, events, log, run.mono fun _ _ _ _ step => .calm step⟩

theorem Listens.talks (listens : Listens before after) :
    Talks before after := by
  obtain ⟨events, log, run⟩ := listens.run
  exact ⟨listens.valid, events, log, run.mono fun _ _ _ _ step => .listen step⟩

theorem Talks.evolves (talks : Talks before after) : Evolves before after := by
  obtain ⟨events, log, run⟩ := talks.run
  exact ⟨talks.valid, events, log, run.mono fun _ _ _ _ step => .talk step⟩

/-! ## Transmission -/

private theorem gmIpv4Send_effect (packet : List UInt8) (host : GmHost) :
    ∃ ok sends, gmIpv4Send packet host = (ok, { host with sends := sends }) := by
  unfold gmIpv4Send
  split
  · exact ⟨false, host.sends, rfl⟩
  · exact ⟨_, _, rfl⟩

/-- What a transmission does, whatever its outcome. -/
theorem gmTcpSegment_effect (segment : GmSegment) (host : GmHost) :
    ∃ ok count sends,
      gmTcpSegment segment host =
        (ok, { host with
          tcp := { host.tcp with txCount := count }
          sends := sends
          log := host.log ++ [.sent segment ok] }) := by
  unfold gmTcpSegment
  split
  · exact ⟨false, host.tcp.txCount, host.sends, rfl⟩
  · obtain ⟨ok, sends, result⟩ := gmIpv4Send_effect
      (gmTcpPacket host.config.ip host.tcp.dst host.tcp.srcPort
        host.tcp.dstPort segment) host
    rw [result]
    cases ok with
    | false => exact ⟨false, host.tcp.txCount, sends, rfl⟩
    | true => exact ⟨true, host.tcp.txCount + 1, sends, rfl⟩

theorem gmTcpSegment_control (valid : RxValid host.tcp) (segment : GmSegment)
    (empty : segment.payload = []) :
    Calm host (gmTcpSegment segment host).2 := by
  obtain ⟨ok, count, sends, result⟩ := gmTcpSegment_effect segment host
  rw [result]
  exact .single ⟨valid.head, valid.len⟩ rfl (.control segment ok empty)

@[simp] theorem step_sent_heard (conv : Conversation) (segment : GmSegment)
    (ok : Bool) : (conv.step (.sent segment ok)).heard = conv.heard := by
  simp only [Conversation.step]
  split <;> rfl

/-! ## Input -/

section

variable (valid : RxValid host.tcp)

include valid

theorem gmTcpAbandon_calm : Calm host (gmTcpAbandon host) :=
  .single ⟨valid.head, valid.len⟩ rfl .reset

theorem gmTcpAcknowledge_calm {segment : GmSegment}
    (heard : (conversation host.log).heard = some segment) :
    Calm host (gmTcpAcknowledge segment host) := by
  unfold gmTcpAcknowledge
  simp only
  split
  · rename_i covered
    obtain ⟨flag, outstanding, covers⟩ := covered
    exact .single ⟨valid.head, valid.len⟩ rfl
      (.acked segment heard flag outstanding covers)
  · exact .refl valid

theorem gmTcpAccept_calm (segment : GmSegment) :
    Calm host (gmTcpAccept segment host) := by
  unfold gmTcpAccept
  split
  · by_cases fits :
        host.tcp.rxLen + segment.payload.length ≤ gmTcpRxSize
    · obtain ⟨rx, appended, contents⟩ := gmTcpAppend_fits fits
      rw [appended]
      refine .single ⟨valid.head, fits⟩ rfl ?_
      have view : GmTcp.view
          { host.tcp with
            rx := rx
            rxLen := host.tcp.rxLen + segment.payload.length
            ack := host.tcp.ack + UInt32.ofNat segment.payload.length } =
          { host.tcp.view with
            buffer := host.tcp.view.buffer ++ segment.payload } := by
        simp only [GmTcp.view, ← contents]
        rfl
      simp only [GmHost.record, view]
      exact .accepted segment.payload
    · rw [gmTcpAppend_full (Nat.lt_of_not_le fits) valid]
      exact .of_view ⟨valid.head, valid.len⟩ rfl rfl
  · exact .refl valid

theorem gmTcpReceive_calm (segment : GmSegment) :
    Calm host (gmTcpReceive segment host) := by
  unfold gmTcpReceive
  split
  · exact .refl valid
  · have accepted := gmTcpAccept_calm valid segment
    exact accepted.trans (gmTcpSegment_control accepted.valid _ rfl)

theorem gmTcpFinish_calm (segment : GmSegment) :
    Calm host (gmTcpFinish segment host) := by
  unfold gmTcpFinish
  split
  · simp only
    generalize counted : (if segment.seq + UInt32.ofNat segment.payload.length =
        host.tcp.ack then
      { host with tcp := { host.tcp with ack := host.tcp.ack + 1 } }
      else host) = next
    have same : Calm host next := by
      rw [← counted]
      split
      · exact .of_view ⟨valid.head, valid.len⟩ rfl rfl
      · exact .refl valid
    have answered := same.trans
      (gmTcpSegment_control same.valid next.tcp.ackSegment rfl)
    generalize (gmTcpSegment next.tcp.ackSegment next).2 = told
      at answered ⊢
    refine answered.trans ?_
    exact .single ⟨answered.valid.head, answered.valid.len⟩ rfl .finished
  · exact .refl valid

end

/-- The log entry every valid segment leaves first. -/
def GmHost.hear (host : GmHost) (segment : GmSegment) : GmHost :=
  GmHost.record
    { host with tcp := { host.tcp with rxCount := host.tcp.rxCount + 1 } }
    (.arrived segment)

theorem hear_calm (valid : RxValid host.tcp) (segment : GmSegment) :
    Calm host (host.hear segment) :=
  .single ⟨valid.head, valid.len⟩ rfl (.arrived segment)

theorem hear_heard (host : GmHost) (segment : GmSegment) :
    (conversation (host.hear segment).log).heard = some segment := by
  simp only [GmHost.hear, GmHost.record, conversation_append]
  rfl

/-- The connection with both sequence numbers of the handshake. -/
def GmHost.synchronize (host : GmHost) (segment : GmSegment) : GmHost :=
  { host with
    tcp := { host.tcp with
      seq := host.tcp.seq + 1
      ack := segment.seq + 1 } }

theorem gmTcpHandshake_eq (segment : GmSegment) (host : GmHost) :
    gmTcpHandshake segment host =
      if segment.ack ≠ host.tcp.seq + 1 then host
      else
        match gmTcpSegment (host.synchronize segment).tcp.ackSegment
            (host.synchronize segment) with
        | (false, host) => host
        | (true, host) => host.setState .established :=
  rfl

theorem gmTcpHandshake_calm (valid : RxValid host.tcp) (segment : GmSegment)
    (syn : host.tcp.state = .syn) :
    Calm host (gmTcpHandshake segment (host.hear segment)) := by
  rw [gmTcpHandshake_eq]
  split
  · exact hear_calm valid segment
  rename_i isAnswer
  have answer : segment.ack = host.tcp.seq + 1 := by
    simpa [GmHost.hear, GmHost.record] using isAnswer
  let next := (host.hear segment).synchronize segment
  obtain ⟨ok, count, sends, result⟩ :=
    gmTcpSegment_effect next.tcp.ackSegment next
  rw [result]
  cases ok with
  | false =>
    refine ⟨⟨valid.head, valid.len⟩,
      [.arrived segment, .sent next.tcp.ackSegment false],
      List.append_assoc _ _ _, ?_⟩
    exact .cons (.synAck segment syn answer)
      (.single (.control _ false rfl))
  | true =>
    refine ⟨⟨valid.head, valid.len⟩,
      [.arrived segment, .sent next.tcp.ackSegment true,
        .state .established], ?_, ?_⟩
    · simp [GmHost.setState, next, GmHost.synchronize, GmHost.hear,
        GmHost.record]
    · refine .cons (.synAck segment syn answer)
        (.cons (.control _ true rfl) (.single ?_))
      exact .established segment syn (step_sent_heard _ _ _) answer

theorem gmTcpHandle_eq (segment : GmSegment) (host : GmHost) :
    gmTcpHandle segment host =
      if segment.has gmTcpFlagRst then gmTcpAbandon (host.hear segment)
      else if host.tcp.state = .syn ∧
          segment.flags &&& (gmTcpFlagSyn ||| gmTcpFlagAck) =
            gmTcpFlagSyn ||| gmTcpFlagAck then
        gmTcpHandshake segment (host.hear segment)
      else if host.tcp.state ≠ .established ∧ host.tcp.state ≠ .fin then
        host.hear segment
      else
        gmTcpFinish segment (gmTcpReceive segment
          (gmTcpAcknowledge segment (host.hear segment))) :=
  rfl

section

variable (valid : RxValid host.tcp)

include valid

theorem gmTcpHandle_calm (segment : GmSegment) :
    Calm host (gmTcpHandle segment host) := by
  have heard := hear_calm valid segment
  rw [gmTcpHandle_eq]
  split
  · exact heard.trans (gmTcpAbandon_calm heard.valid)
  split
  · rename_i shakes
    exact gmTcpHandshake_calm valid segment shakes.1
  split
  · exact heard
  · have acknowledged :=
      gmTcpAcknowledge_calm heard.valid (hear_heard host segment)
    have received := gmTcpReceive_calm acknowledged.valid segment
    have finished := gmTcpFinish_calm received.valid segment
    exact heard.trans (acknowledged.trans (received.trans finished))

theorem gmTcpInput_calm (packet : GmPacket) :
    Calm host (gmTcpInput packet host) := by
  unfold gmTcpInput
  split
  · exact .refl valid
  · exact gmTcpHandle_calm valid _

/-! ## Polling and waiting -/

theorem gmTcpPoll_calm : Calm host (gmTcpPoll host) := by
  unfold gmTcpPoll
  simp only
  split
  · exact .refl valid
  rename_i busy
  split
  · exact .refl valid
  split
  · exact gmTcpAbandon_calm valid
  · have outstanding : host.tcp.unacked ≠ [] := by
      intro empty
      exact busy (.inr empty)
    let armed := { host with
      tcp := { host.tcp with
        unackedRetry := host.tcp.unackedRetry + 1
        unackedTick := host.ticks } }
    obtain ⟨ok, count, sends, result⟩ :=
      gmTcpSegment_effect armed.tcp.unackedSegment armed
    simp only [armed] at result
    simp only [result]
    exact .single ⟨valid.head, valid.len⟩ rfl (.again _ ok outstanding rfl rfl)

theorem gmNetPoll_calm (packets : List GmPacket) :
    Calm host (gmNetPoll packets host) := by
  induction packets generalizing host with
  | nil => exact .refl valid
  | cons packet packets induction =>
    have first := gmTcpInput_calm valid packet
    exact first.trans (induction first.valid)

theorem gmPump_calm : Calm host (gmPump host) := by
  have started : Calm host { host with pumped := host.pumped + 1 } :=
    .of_view valid rfl rfl
  have polled := gmNetPoll_calm started.valid
    (host.env.pumps host.pumped).packets
  have sent := gmTcpPoll_calm polled.valid
  have moved := started.trans (polled.trans sent)
  exact moved.trans (.of_view moved.valid rfl rfl)

theorem gmTcpSettle_calm (start timeout fuel : Nat) :
    Calm host (gmTcpSettle start timeout fuel host) := by
  induction fuel generalizing host with
  | zero => exact .refl valid
  | succ fuel induction =>
    unfold gmTcpSettle
    split
    · have pumped := gmPump_calm valid
      exact pumped.trans (induction pumped.valid)
    · exact .refl valid

theorem gmTcpConfirm_calm (timeout : Nat) :
    Calm host (gmTcpConfirm timeout host).2 := by
  have settled := gmTcpSettle_calm valid host.ticks timeout timeout
  unfold gmTcpConfirm
  simp only
  split
  · exact settled.trans (gmTcpAbandon_calm settled.valid)
  · exact settled

theorem gmTcpRead_listens (max : Nat) :
    Listens host (gmTcpRead max host).2 := by
  by_cases positive : max = 0
  · subst max
    exact .refl valid
  · obtain ⟨_, effect⟩ := gmTcpRead_effect valid positive
    refine .single effect.valid effect.log ?_
    obtain ⟨head, len, tcp⟩ := effect.tcp
    have view : (gmTcpRead max host).2.tcp.view =
        { host.tcp.view with buffer := host.tcp.buffered.drop max } := by
      rw [← effect.buffered, tcp]
      rfl
    rw [view]
    exact .read _ _ (List.take_append_drop max _).symm

end

theorem gmTcpDrop_talks (host : GmHost) : Talks host (gmTcpDrop host) :=
  .single (gmTcpDrop_valid host) rfl .dropped

theorem gmTcpClose_calm (valid : RxValid host.tcp) :
    Calm host (gmTcpClose host) := by
  have settled := gmTcpSettle_calm valid host.ticks 100 100
  unfold gmTcpClose
  simp only
  split
  · exact .refl valid
  split
  · exact settled
  · rename_i isSettled
    generalize gmTcpSettle host.ticks 100 100 host = quiet
      at settled isSettled ⊢
    obtain ⟨ok, count, sends, result⟩ := gmTcpSegment_effect
      { seq := quiet.tcp.seq
        ack := quiet.tcp.ack
        flags := gmTcpFlagFin ||| gmTcpFlagAck
        payload := [] } quiet
    rw [result]
    refine settled.trans ?_
    have head := settled.valid.head
    have len := settled.valid.len
    cases ok with
    | false => exact .single ⟨head, len⟩ rfl (.control _ false rfl)
    | true =>
      refine ⟨⟨head, len⟩, [_, .state .fin], List.append_assoc _ _ _, ?_⟩
      have empty : quiet.tcp.unacked = [] := by simpa using isSettled
      exact .cons (.control _ true rfl) (.single (.fin empty))

theorem gmNetPrepareLoop_calm (valid : RxValid host.tcp)
    (start timeout fuel : Nat) :
    Calm host (gmNetPrepareLoop start timeout fuel host).2 := by
  induction fuel generalizing host with
  | zero => exact .refl valid
  | succ fuel induction =>
    unfold gmNetPrepareLoop
    split
    · have pumped := gmPump_calm valid
      have looked : Calm host (gmArpLookup (gmPump host)).2 :=
        pumped.trans (.of_view pumped.valid rfl rfl)
      generalize gmArpLookup (gmPump host) = outcome at looked ⊢
      obtain ⟨_ | _, next⟩ := outcome
      · exact looked.trans (induction looked.valid)
      · exact looked
    · exact .refl valid

theorem gmNetPrepare_calm (valid : RxValid host.tcp) (timeout : Nat) :
    Calm host (gmNetPrepare timeout host).2 := by
  have asked : Calm host { host with prepared := host.prepared + 1 } :=
    .of_view valid rfl rfl
  unfold gmNetPrepare
  simp only
  split
  · exact asked
  · have looked : Calm host
        (gmArpLookup { host with prepared := host.prepared + 1 }).2 :=
      asked.trans (.of_view valid rfl rfl)
    generalize gmArpLookup { host with prepared := host.prepared + 1 } =
      outcome at looked ⊢
    obtain ⟨_ | _, next⟩ := outcome
    · exact looked.trans (gmNetPrepareLoop_calm looked.valid _ timeout timeout)
    · exact looked

end Gmker.Net
