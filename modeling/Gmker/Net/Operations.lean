import Gmker.Net.Refinement
import Gmker.Net.Store

/-!
# Operations on an open connection

Sends, lines and the `gm_store_*` operations as runs of labelled steps that
start and end with nothing outstanding.
-/

namespace Gmker.Net

variable {conv : Conversation} {event : GmNetEvent}
  {before after host middle : GmHost} {data : List UInt8}
  {outcome : Option (List UInt8)}

/-- The operations of the store client on an open connection. -/
inductive StoreOp where
  | ping
  | list (start : Option (List UInt8)) (fuel : Nat)
  | size (path : List UInt8)
  | read (path : List UInt8) (offset : UInt64) (len : Nat)
  | write (path data : List UInt8) (append : Bool)
  | delete (path : List UInt8)

/-- The request an operation sends. -/
def StoreOp.request : StoreOp → List UInt8
  | .ping => ascii "PING\n"
  | .list .. => ascii "LIST\n"
  | .size path => gmStoreLine (ascii "STAT") (some path) none
  | .read path offset len => gmStoreReadRequest path offset len
  | .write path data append => gmStoreWriteRequest path data append
  | .delete path => gmStoreLine (ascii "DEL") (some path) none

/-- Perform an operation; `none` means that it has not returned yet. -/
def gmStoreOp : StoreOp → GmHost → Option Bool × GmHost
  | .ping, host => (some (gmStorePing host).1, (gmStorePing host).2)
  | .list start fuel, host =>
    ((gmStoreListPrefix start fuel host).1,
      (gmStoreListPrefix start fuel host).2.2)
  | .size path, host =>
    (some (gmStoreSize path host).1.isSome, (gmStoreSize path host).2)
  | .read path offset len, host =>
    (some (gmStoreRead path offset len host).1.isSome,
      (gmStoreRead path offset len host).2)
  | .write path data append, host =>
    (some (gmStoreWrite path data append host).1,
      (gmStoreWrite path data append host).2)
  | .delete path, host =>
    (some (gmStoreDelete path host).1, (gmStoreDelete path host).2)

/-! ## Between calls -/

/-- Nothing outstanding stays so while the client waits. -/
theorem ListenStep.settled {conn after : Connection}
    (step : ListenStep conv conn event after) (settled : conn.unacked = []) :
    after.unacked = [] := by
  cases step with
  | calm step => cases step <;> first | exact settled | rfl
  | read bytes rest split => exact settled

/-- The host between two calls. -/
structure Resting (host : GmHost) : Prop where
  valid : RxValid host.tcp
  consistent : Consistent (conversation host.log) host.tcp.view
  settled : host.tcp.unacked = []

theorem Evolves.consistent (evolves : Evolves before after)
    (consistent : Consistent (conversation before.log) before.tcp.view) :
    Consistent (conversation after.log) after.tcp.view :=
  evolves.invariant Consistent
    (fun _ _ _ _ step consistent => consistent.step step) consistent

theorem Listens.settled (listens : Listens before after)
    (settled : before.tcp.unacked = []) : after.tcp.unacked = [] :=
  listens.invariant (fun _ conn => conn.unacked = [])
    (fun _ _ _ _ step settled => step.settled settled) settled

theorem Resting.listens (resting : Resting before)
    (listens : Listens before after) : Resting after :=
  ⟨listens.valid, listens.talks.evolves.consistent resting.consistent,
    listens.settled resting.settled⟩

/-! ## Sending -/

/-- A payload left for the peer, as an extension of the client's stream. -/
structure Handed (data : List UInt8) (before after : GmHost) : Prop where
  valid : RxValid after.tcp
  up : before.tcp.state = .established
  settled : before.tcp.unacked = []
  nonempty : data ≠ []
  short : data.length ≤ gmTcpTxMax
  sent : ∃ segment, segment.payload = data ∧ segment.seq = before.tcp.seq ∧
    after.log = before.log ++ [.sent segment true]
  view : after.tcp.view =
    { before.tcp.view with
      unacked := data
      unackedSeq := before.tcp.seq
      seq := before.tcp.seq + UInt32.ofNat data.length }

theorem Handed.talks (handed : Handed data before after) :
    Talks before after := by
  obtain ⟨segment, rfl, seq, log⟩ := handed.sent
  refine .single handed.valid log ?_
  rw [handed.view]
  exact .handed segment handed.up handed.settled handed.nonempty handed.short
    seq

/-- The connection with a payload to send. -/
def GmHost.arm (host : GmHost) (data : List UInt8) : GmHost :=
  { host with
    tcp := { host.tcp with
      unacked := data
      unackedSeq := host.tcp.seq
      unackedTick := host.ticks
      unackedRetry := 0 } }

theorem gmTcpHand_eq (data : List UInt8) (host : GmHost) :
    gmTcpHand data host =
      match gmTcpSegment (host.arm data).tcp.unackedSegment (host.arm data) with
      | (false, host) =>
        (false, { host with tcp := { host.tcp with unacked := [] } })
      | (true, host) =>
        (true, { host with
          tcp := { host.tcp with
            seq := host.tcp.seq + UInt32.ofNat data.length } }) :=
  rfl

/-- A first transmission fails and leaves nothing outstanding, or extends the
stream. -/
theorem gmTcpHand_effect (resting : Resting host)
    (up : host.tcp.state = .established) (nonempty : data ≠ [])
    (short : data.length ≤ gmTcpTxMax) :
    (∃ after, gmTcpHand data host = (false, after) ∧ Calm host after) ∨
      ∃ after, gmTcpHand data host = (true, after) ∧
        Handed data host after := by
  obtain ⟨ok, count, sends, result⟩ := gmTcpSegment_effect
    (host.arm data).tcp.unackedSegment (host.arm data)
  have valid := resting.valid
  rw [gmTcpHand_eq, result]
  cases ok with
  | false =>
    refine .inl ⟨_, rfl, .single ⟨valid.head, valid.len⟩ rfl ?_⟩
    have failed : CalmStep (conversation host.log) host.tcp.view
        (.sent (host.arm data).tcp.unackedSegment false)
        { host.tcp.view with unackedSeq := host.tcp.seq } :=
      .failed _ resting.settled
    have view : GmTcp.view
        { (host.arm data).tcp with txCount := count, unacked := [] } =
        { host.tcp.view with unackedSeq := host.tcp.seq } := by
      rw [GmTcp.view, GmTcp.view, resting.settled]
      rfl
    exact view ▸ failed
  | true =>
    refine .inr ⟨_, rfl, ⟨valid.head, valid.len⟩, up, resting.settled,
      nonempty, short, ?_, rfl⟩
    exact ⟨(host.arm data).tcp.unackedSegment, rfl, rfl, rfl⟩

/-- With nothing outstanding, a send does not wait before it transmits. -/
theorem gmTcpSend_of_settled (settled : host.tcp.unacked = [])
    (data : List UInt8) (timeout : Nat) :
    gmTcpSend data timeout host =
      if host.tcp.state ≠ .established ∨ data = [] ∨
          gmTcpTxMax < data.length then (false, host)
      else
        match gmTcpHand data host with
        | (false, host) => (false, host)
        | (true, host) => gmTcpConfirm timeout host := by
  have noWait : gmTcpSettle host.ticks timeout timeout host = host := by
    cases timeout with
    | zero => rfl
    | succ fuel =>
      apply if_neg
      rintro ⟨outstanding, _⟩
      exact outstanding settled
  simp only [gmTcpSend, noWait]
  by_cases refused : host.tcp.state ≠ .established ∨ data = [] ∨
      gmTcpTxMax < data.length
  · rw [if_pos refused, if_pos refused]
  · rw [if_neg refused, if_neg refused]
    exact if_neg (not_not_intro settled)

/-- A confirmed payload left the connection up with nothing outstanding. -/
theorem gmTcpConfirm_true {timeout : Nat}
    (confirmed : gmTcpConfirm timeout host = (true, after)) :
    after.tcp.state = .established ∧ after.tcp.unacked = [] := by
  simp only [gmTcpConfirm] at confirmed
  split at confirmed
  · cases confirmed
  · rename_i settled
    obtain ⟨up, rfl⟩ := Prod.mk.inj confirmed
    exact ⟨by simpa using up, by simpa using settled⟩

theorem gmTcpConfirm_settled (timeout : Nat) (host : GmHost) :
    (gmTcpConfirm timeout host).2.tcp.unacked = [] := by
  simp only [gmTcpConfirm]
  split
  · rfl
  · rename_i settled
    simpa using settled

/-- What a send does: nothing new, or its payload and then the wait for its
acknowledgement. -/
inductive SendEffect (data : List UInt8) (before after : GmHost) :
    Bool → Prop where
  | refused (calm : Calm before after) : SendEffect data before after false
  | sent {middle : GmHost} {ok : Bool} (handed : Handed data before middle)
      (waited : Calm middle after) (settled : after.tcp.unacked = [])
      (up : ok = true → after.tcp.state = .established) :
      SendEffect data before after ok

theorem gmTcpSend_effect (resting : Resting host) (data : List UInt8)
    (timeout : Nat) :
    SendEffect data host (gmTcpSend data timeout host).2
      (gmTcpSend data timeout host).1 := by
  rw [gmTcpSend_of_settled resting.settled]
  split
  · exact .refused (.refl resting.valid)
  rename_i accepts
  simp only [not_or, ne_eq, not_not, Nat.not_lt] at accepts
  obtain ⟨up, nonempty, short⟩ := accepts
  rcases gmTcpHand_effect resting up nonempty short with
    ⟨after, result, calm⟩ | ⟨middle, result, handed⟩
  · rw [result]
    exact .refused calm
  · rw [result]
    refine .sent handed (gmTcpConfirm_calm handed.valid timeout)
      (gmTcpConfirm_settled timeout middle) ?_
    intro confirmed
    exact (gmTcpConfirm_true (Prod.ext confirmed rfl)).1

theorem SendEffect.resting {ok : Bool}
    (effect : SendEffect data before after ok) (resting : Resting before) :
    Talks before after ∧ Resting after := by
  cases effect with
  | refused calm =>
    exact ⟨calm.listens.talks, resting.listens calm.listens⟩
  | sent handed waited settled up =>
    have talks : Talks before after :=
      handed.talks.trans waited.listens.talks
    exact ⟨talks, talks.valid,
      talks.evolves.consistent resting.consistent, settled⟩

/-- Waiting adds nothing to the client's stream. -/
theorem ListenStep.requests {conn after : Connection}
    (step : ListenStep conv conn event after)
    (consistent : Consistent conv conn) :
    (conv.step event).requests = conv.requests := by
  cases step with
  | read bytes rest split => rfl
  | calm step =>
    cases step with
    | control segment ok empty => rw [Consistent.step_control conv ok empty]
    | again segment ok outstanding payload seq =>
      rw [consistent.step_again ok outstanding seq]
    | failed segment settled => rw [Consistent.step_failed]
    | _ => rfl

theorem Listens.requests (listens : Listens before after)
    (consistent : Consistent (conversation before.log) before.tcp.view) :
    (conversation after.log).requests = (conversation before.log).requests := by
  have both := listens.invariant
    (fun conv conn => Consistent conv conn ∧
      conv.requests = (conversation before.log).requests)
    (fun _ _ _ _ step holds =>
      ⟨holds.1.listen step, (step.requests holds.1).trans holds.2⟩)
    ⟨consistent, rfl⟩
  exact both.2

theorem SendEffect.requests (effect : SendEffect data before after true)
    (resting : Resting before) :
    (conversation after.log).requests =
      (conversation before.log).requests ++ [data] := by
  cases effect with
  | sent handed waited settled up =>
    have talks : Talks before _ := handed.talks
    have consistent := talks.evolves.consistent resting.consistent
    have listens : Listens _ after := Calm.listens waited
    obtain ⟨segment, rfl, seq, log⟩ := handed.sent
    rw [listens.requests consistent, log, conversation_append]
    have step := resting.consistent.step_handed handed.up handed.nonempty seq
    simp only [List.foldl_cons, List.foldl_nil, step]

/-! ## Waiting for a line -/

/-- The host waited and read exactly some bytes. -/
structure Reads (bytes : List UInt8) (before after : GmHost) : Prop where
  listens : Listens before after
  consumed : (conversation after.log).consumed =
    (conversation before.log).consumed ++ bytes

theorem Reads.trans {first second : List UInt8}
    (left : Reads first before middle) (right : Reads second middle after) :
    Reads (first ++ second) before after := by
  refine ⟨left.listens.trans right.listens, ?_⟩
  rw [right.consumed, left.consumed, List.append_assoc]

theorem CalmStep.consumed {conn after : Connection}
    (step : CalmStep conv conn event after) :
    (conv.step event).consumed = conv.consumed := by
  have sent : ∀ segment ok,
      (conv.step (.sent segment ok)).consumed = conv.consumed := by
    intro segment ok
    simp only [Conversation.step]
    split <;> rfl
  cases step <;> first | exact sent _ _ | rfl

theorem Calm.reads (calm : Calm before after) : Reads [] before after := by
  refine ⟨calm.listens, ?_⟩
  rw [List.append_nil]
  exact calm.invariant
    (fun conv _ => conv.consumed = (conversation before.log).consumed)
    (fun _ _ _ _ step same => step.consumed.trans same) rfl

theorem Reads.refl (valid : RxValid host.tcp) : Reads [] host host :=
  Calm.reads (.refl valid)

theorem gmTcpRead_reads (valid : RxValid host.tcp) (max : Nat) :
    Reads (gmTcpRead max host).1 host (gmTcpRead max host).2 := by
  refine ⟨gmTcpRead_listens valid max, ?_⟩
  by_cases positive : max = 0
  · subst max
    simp [gmTcpRead]
  · obtain ⟨bytes, effect⟩ := gmTcpRead_effect valid positive
    rw [effect.log, conversation_append, bytes]
    rfl

/-- What draining the ring does, given the characters collected before. -/
def DrainEffect (line : List UInt8) (before after : GmHost) :
    GmDrained → Prop
  | .more longer =>
    ∃ bytes, longer = line ++ bytes ∧ 10 ∉ bytes ∧ Reads bytes before after
  | .line found =>
    ∃ bytes, found = stripCr (line ++ bytes) ∧ 10 ∉ bytes ∧
      Reads (bytes ++ [10]) before after
  | .overflow => ∃ bytes, Reads bytes before after

theorem DrainEffect.idle (valid : RxValid host.tcp) (line : List UInt8) :
    DrainEffect line host host (.more line) :=
  ⟨[], by simp, by simp, .refl valid⟩

theorem DrainEffect.after_byte {line : List UInt8} {symbol : UInt8}
    {outcome : GmDrained} (first : Reads [symbol] before middle)
    (ordinary : symbol ≠ 10)
    (rest : DrainEffect (line ++ [symbol]) middle after outcome) :
    DrainEffect line before after outcome := by
  cases outcome with
  | more | line =>
    obtain ⟨bytes, same, absent, reads⟩ := rest
    refine ⟨symbol :: bytes, by simp [same], ?_, first.trans reads⟩
    simp [absent, ordinary.symm]
  | overflow =>
    obtain ⟨bytes, reads⟩ := rest
    exact ⟨symbol :: bytes, first.trans reads⟩

theorem gmStoreDrain_effect (valid : RxValid host.tcp) (cap fuel : Nat)
    (line : List UInt8) :
    DrainEffect line host (gmStoreDrain cap fuel line host).2
      (gmStoreDrain cap fuel line host).1 := by
  induction fuel generalizing host line with
  | zero => exact .idle valid line
  | succ fuel induction =>
    unfold gmStoreDrain
    split
    · exact .idle valid line
    have reads := gmTcpRead_reads valid 1
    obtain ⟨taken, _⟩ := gmTcpRead_effect valid Nat.one_ne_zero
    have single : (gmTcpRead 1 host).1.length ≤ 1 := by
      rw [taken]
      exact List.length_take_le 1 _
    generalize gmTcpRead 1 host = outcome at reads single ⊢
    obtain ⟨_ | ⟨symbol, others⟩, next⟩ := outcome
    · exact ⟨[], by simp, by simp, reads⟩
    obtain rfl : others = [] := by simpa using single
    simp only at reads ⊢
    split
    · rename_i newline
      subst newline
      exact ⟨[], by simp, by simp, reads⟩
    rename_i ordinary
    split
    · have rest := induction reads.listens.valid (line ++ [symbol])
      exact rest.after_byte reads ordinary
    · exact ⟨_, reads⟩

/-- What waiting for a line does, given the characters collected before. -/
def LineEffect (line : List UInt8) (before after : GmHost) :
    Option (List UInt8) → Prop
  | none => ∃ bytes, Reads bytes before after
  | some found =>
    ∃ bytes, found = stripCr (line ++ bytes) ∧ 10 ∉ bytes ∧
      Reads (bytes ++ [10]) before after

theorem LineEffect.after_bytes {line bytes : List UInt8}
    (first : Reads bytes before middle) (absent : 10 ∉ bytes)
    (rest : LineEffect (line ++ bytes) middle after outcome) :
    LineEffect line before after outcome := by
  cases outcome with
  | none =>
    obtain ⟨more, reads⟩ := rest
    exact ⟨bytes ++ more, first.trans reads⟩
  | some found =>
    obtain ⟨more, same, moreAbsent, reads⟩ := rest
    refine ⟨bytes ++ more, by rw [same, List.append_assoc], ?_, ?_⟩
    · intro member
      rcases List.mem_append.mp member with early | late
      · exact absent early
      · exact moreAbsent late
    · rw [List.append_assoc]
      exact first.trans reads

theorem gmStoreWaitLoop_effect (valid : RxValid host.tcp)
    (cap start timeout fuel : Nat) (line : List UInt8) :
    LineEffect line host
      (gmStoreWaitLoop cap start timeout fuel line host).2
      (gmStoreWaitLoop cap start timeout fuel line host).1 := by
  induction fuel generalizing host line with
  | zero => exact ⟨[], .refl valid⟩
  | succ fuel induction =>
    unfold gmStoreWaitLoop
    split
    case isFalse => exact ⟨[], .refl valid⟩
    have pumped : Reads [] host (gmPump host) :=
      Calm.reads (gmPump_calm valid)
    have drained := gmStoreDrain_effect pumped.listens.valid cap
      (gmPump host).tcp.rxLen line
    simp only
    generalize gmStoreDrain cap (gmPump host).tcp.rxLen line (gmPump host) =
      outcome at drained ⊢
    obtain ⟨_ | _ | _, next⟩ := outcome
    · obtain ⟨bytes, rfl, absent, reads⟩ := drained
      have rest := induction reads.listens.valid (line ++ bytes)
      exact rest.after_bytes (pumped.trans reads) absent
    · obtain ⟨bytes, same, absent, reads⟩ := drained
      exact ⟨bytes, same, absent, pumped.trans reads⟩
    · obtain ⟨bytes, reads⟩ := drained
      exact ⟨bytes, pumped.trans reads⟩

theorem gmStoreWaitLine_effect (valid : RxValid host.tcp) (cap timeout : Nat) :
    LineEffect [] host (gmStoreWaitLine cap timeout host).2
      (gmStoreWaitLine cap timeout host).1 :=
  gmStoreWaitLoop_effect valid cap host.ticks timeout timeout []

/-- A line that is found was read with its newline. -/
theorem LineEffect.reads {line : List UInt8}
    (effect : LineEffect line before after outcome) :
    ∃ bytes, Reads bytes before after ∧ (outcome.isSome → 10 ∈ bytes) := by
  cases outcome with
  | none =>
    obtain ⟨bytes, reads⟩ := effect
    exact ⟨bytes, reads, by simp⟩
  | some found =>
    obtain ⟨bytes, _, _, reads⟩ := effect
    exact ⟨bytes ++ [10], reads, by simp⟩

/-! ## Operations -/

/-- A request that was sent and acknowledged, and bytes read afterwards that
hold at least a line. -/
def Exchange (request : List UInt8) (before after : GmHost) : Prop :=
  ∃ middle bytes, SendEffect request (gmTcpDrop before) middle true ∧
    Reads bytes middle after ∧ 10 ∈ bytes

/-- The request left or not, and the bytes read hold a line if one was
found. -/
def ReplyEffect (request : List UInt8) (before after : GmHost)
    (outcome : Option (List UInt8)) : Prop :=
  ∃ middle bytes ok, SendEffect request (gmTcpDrop before) middle ok ∧
    Reads bytes middle after ∧ (outcome.isSome → ok = true ∧ 10 ∈ bytes)

structure OpEffect (request : List UInt8) (before after : GmHost)
    (result : Option Bool) : Prop where
  talks : Talks before after
  resting : Resting after
  exchange : result = some true → Exchange request before after

theorem gmTcpDrop_resting (resting : Resting host) :
    Resting (gmTcpDrop host) := by
  have talks : Talks host (gmTcpDrop host) := gmTcpDrop_talks host
  exact ⟨talks.valid, talks.evolves.consistent resting.consistent,
    resting.settled⟩

theorem ReplyEffect.valid {request : List UInt8}
    (reply : ReplyEffect request before after outcome) : RxValid after.tcp := by
  obtain ⟨middle, bytes, ok, send, reads, _⟩ := reply
  exact reads.listens.valid

theorem gmStoreReply_effect (resting : Resting host) (request : List UInt8)
    (timeout : Nat) :
    ReplyEffect request host (gmStoreReply request timeout host).2
      (gmStoreReply request timeout host).1 := by
  have dropped := gmTcpDrop_resting resting
  have send := gmTcpSend_effect dropped request timeout
  unfold gmStoreReply gmStoreRequest
  generalize gmTcpSend request timeout (gmTcpDrop host) = outcome at send ⊢
  have rested := (send.resting dropped).2
  obtain ⟨_ | _, middle⟩ := outcome
  · exact ⟨middle, [], false, send, .refl rested.valid, by simp⟩
  · obtain ⟨bytes, reads, line⟩ :=
      (gmStoreWaitLine_effect rested.valid 256 timeout).reads
    exact ⟨middle, bytes, true, send, reads, fun found => ⟨rfl, line found⟩⟩

namespace OpEffect

variable {request bytes : List UInt8} {before middle after : GmHost}
  {result : Option Bool} {ok : Bool}

/-- An operation that fails before it sends. -/
theorem idle (resting : Resting before) :
    OpEffect request before before (some false) :=
  ⟨.refl resting.valid, resting, by simp⟩

/-- An operation that judges the reply to its request and may read on. -/
theorem of_reply (resting : Resting before)
    (reply : ReplyEffect request before middle outcome)
    (reads : Reads bytes middle after)
    (success : result = some true → outcome.isSome) :
    OpEffect request before after result := by
  obtain ⟨sent, line, ok, send, first, complete⟩ := reply
  obtain ⟨talks, rested⟩ := send.resting (gmTcpDrop_resting resting)
  have all := first.trans reads
  refine ⟨?_, rested.listens all.listens, ?_⟩
  · exact (gmTcpDrop_talks before).trans (talks.trans all.listens.talks)
  · intro isTrue
    obtain ⟨rfl, newline⟩ := complete (success isTrue)
    exact ⟨sent, line ++ bytes, send, all, List.mem_append_left bytes newline⟩

theorem of_line (resting : Resting before)
    (reply : ReplyEffect request before after outcome)
    (success : result = some true → outcome.isSome) :
    OpEffect request before after result :=
  of_reply resting reply (.refl reply.valid) success

end OpEffect

theorem gmStorePing_effect (resting : Resting host) :
    OpEffect (ascii "PING\n") host (gmStorePing host).2
      (some (gmStorePing host).1) := by
  have reply := gmStoreReply_effect resting (ascii "PING\n") 200
  unfold gmStorePing
  generalize gmStoreReply (ascii "PING\n") 200 host = outcome at reply ⊢
  obtain ⟨_ | line, after⟩ := outcome
  · exact .of_line resting reply (by simp)
  · exact .of_line resting reply (by simp)

theorem gmStoreOk_isSome {line : Option (List UInt8)}
    (ok : gmStoreOk line = true) : line.isSome := by
  cases line with
  | none => cases ok
  | some line => rfl

theorem gmStoreWrite_effect (resting : Resting host) (path data : List UInt8)
    (append : Bool) :
    OpEffect (gmStoreWriteRequest path data append) host
      (gmStoreWrite path data append host).2
      (some (gmStoreWrite path data append host).1) := by
  unfold gmStoreWrite
  split
  · exact .idle resting
  simp only
  split
  · exact .idle resting
  · apply OpEffect.of_line resting (gmStoreReply_effect resting _ 300)
    intro ok
    exact gmStoreOk_isSome (Option.some.inj ok)

theorem gmStoreDelete_effect (resting : Resting host) (path : List UInt8) :
    OpEffect (gmStoreLine (ascii "DEL") (some path) none) host
      (gmStoreDelete path host).2 (some (gmStoreDelete path host).1) := by
  unfold gmStoreDelete
  split
  · exact .idle resting
  · apply OpEffect.of_line resting (gmStoreReply_effect resting _ 200)
    intro ok
    exact gmStoreOk_isSome (Option.some.inj ok)

theorem gmStoreSize_effect (resting : Resting host) (path : List UInt8) :
    OpEffect (gmStoreLine (ascii "STAT") (some path) none) host
      (gmStoreSize path host).2 (some (gmStoreSize path host).1.isSome) := by
  have reply := gmStoreReply_effect resting
    (gmStoreLine (ascii "STAT") (some path) none) 200
  unfold gmStoreSize
  split
  · exact .idle resting
  generalize gmStoreReply (gmStoreLine (ascii "STAT") (some path) none) 200
    host = outcome at reply ⊢
  obtain ⟨_ | line, after⟩ := outcome
  · exact .of_line resting reply (by simp)
  · exact .of_line resting reply (by simp)

theorem gmStoreReadLoop_reads (valid : RxValid host.tcp)
    (count start fuel : Nat) (data : List UInt8) :
    ∃ bytes, Reads bytes host
      (gmStoreReadLoop count start fuel data host).2 := by
  induction fuel generalizing host data with
  | zero => exact ⟨[], .refl valid⟩
  | succ fuel induction =>
    unfold gmStoreReadLoop
    split
    case isFalse => exact ⟨[], .refl valid⟩
    have pumped : Reads [] host (gmPump host) :=
      Calm.reads (gmPump_calm valid)
    have reads := pumped.trans
      (gmTcpRead_reads pumped.listens.valid (count - data.length))
    obtain ⟨bytes, rest⟩ := induction reads.listens.valid _
    exact ⟨_, reads.trans rest⟩

theorem gmStoreRead_effect (resting : Resting host) (path : List UInt8)
    (offset : UInt64) (len : Nat) :
    OpEffect (gmStoreReadRequest path offset len) host
      (gmStoreRead path offset len host).2
      (some (gmStoreRead path offset len host).1.isSome) := by
  have reply := gmStoreReply_effect resting
    (gmStoreReadRequest path offset len) 200
  unfold gmStoreRead
  split
  · exact .idle resting
  generalize gmStoreReply (gmStoreReadRequest path offset len) 200 host =
    outcome at reply ⊢
  obtain ⟨_ | line, middle⟩ := outcome
  · exact .of_line resting reply (by simp)
  simp only
  split
  · exact .of_line resting reply (by simp)
  rename_i count _
  split
  · exact .of_line resting reply (by simp)
  obtain ⟨bytes, reads⟩ := gmStoreReadLoop_reads reply.valid count.toNat
    middle.ticks 300 []
  split
  · exact .of_reply resting reply reads (by simp)
  · exact .of_reply resting reply reads (by simp)

theorem gmStoreListLoop_reads (valid : RxValid host.tcp)
    (start : Option (List UInt8)) (fuel : Nat) (printed : List (List UInt8)) :
    ∃ bytes, Reads bytes host (gmStoreListLoop start fuel printed host).2.2 ∧
      ((gmStoreListLoop start fuel printed host).1 = some true →
        10 ∈ bytes) := by
  induction fuel generalizing host printed with
  | zero => exact ⟨[], .refl valid, by simp [gmStoreListLoop]⟩
  | succ fuel induction =>
    unfold gmStoreListLoop
    obtain ⟨bytes, reads, line⟩ :=
      (gmStoreWaitLine_effect valid 256 200).reads
    generalize gmStoreWaitLine 256 200 host = outcome at reads line ⊢
    obtain ⟨_ | found, next⟩ := outcome
    · exact ⟨bytes, reads, by simp⟩
    simp only
    split
    · exact ⟨bytes, reads, fun _ => line rfl⟩
    split
    · exact ⟨bytes, reads, by simp⟩
    · obtain ⟨more, rest, _⟩ := induction reads.listens.valid _
      refine ⟨bytes ++ more, reads.trans rest, ?_⟩
      intro _
      exact List.mem_append_left more (line rfl)

theorem gmStoreListPrefix_effect (resting : Resting host)
    (start : Option (List UInt8)) (fuel : Nat) :
    OpEffect (ascii "LIST\n") host (gmStoreListPrefix start fuel host).2.2
      (gmStoreListPrefix start fuel host).1 := by
  have dropped := gmTcpDrop_resting resting
  have send := gmTcpSend_effect dropped (ascii "LIST\n") 200
  unfold gmStoreListPrefix gmStoreRequest
  generalize gmTcpSend (ascii "LIST\n") 200 (gmTcpDrop host) = outcome
    at send ⊢
  have rested := (send.resting dropped).2
  obtain ⟨_ | _, middle⟩ := outcome
  · have reply : ReplyEffect (ascii "LIST\n") host middle none :=
      ⟨middle, [], false, send, .refl rested.valid, by simp⟩
    exact .of_line resting reply (by simp)
  · obtain ⟨bytes, reads, newline⟩ :=
      gmStoreListLoop_reads rested.valid start fuel []
    obtain ⟨talks, _⟩ := send.resting dropped
    refine ⟨?_, rested.listens reads.listens, ?_⟩
    · exact (gmTcpDrop_talks host).trans (talks.trans reads.listens.talks)
    · intro isTrue
      exact ⟨middle, bytes, send, reads, newline isTrue⟩

theorem gmStoreOp_effect (resting : Resting host) (op : StoreOp) :
    OpEffect op.request host (gmStoreOp op host).2 (gmStoreOp op host).1 := by
  cases op with
  | ping => exact gmStorePing_effect resting
  | list start fuel => exact gmStoreListPrefix_effect resting start fuel
  | size path => exact gmStoreSize_effect resting path
  | read path offset len => exact gmStoreRead_effect resting path offset len
  | write path data append =>
    exact gmStoreWrite_effect resting path data append
  | delete path => exact gmStoreDelete_effect resting path

end Gmker.Net
