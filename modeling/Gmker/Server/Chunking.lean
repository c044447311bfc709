import Gmker.Server.Framing
import Gmker.Server.Stream

/-!
# Chunks do not matter

A pass of the loop feeds the machine on the stream and lets it take a step, or
it leaves the machine alone.  So all runs on one stream lead to the same replies
and the same store, provided they come to rest.  They do, except that a blank
line is consumed without an answer, and then nothing calls for the lines that
stand behind it in the buffer.
-/

namespace Gmker.Server

open Foundation

variable {client ready : GmClient} {events : GmEvents} {store : GmStore}

/-! ## Coming to rest -/

/-- Nothing in the buffer can be taken up. -/
structure Rests (client : GmClient) : Prop where
  line : client.pending = .none →
    10 ∉ client.input ∧ client.input.length < gmstoreInput
  payload : client.pending ≠ .none →
    client.input.length < client.pendingCount

/-- The next line is blank, and another line stands behind it in the
buffer. -/
def BlankAhead (client : GmClient) : Prop :=
  let raw := client.input.takeWhile (· != 10)
  let line := gmStripReturn raw
  client.pending = .none ∧ gmTokens [] line = [] ∧
    line.length < gmstoreLine ∧
    line.any (fun symbol => symbol < 32 || 126 < symbol) = false ∧
    10 ∈ client.input.drop (raw.length + 1)

instance (client : GmClient) : Decidable (BlankAhead client) :=
  inferInstanceAs (Decidable (_ ∧ _))

/-- How the work on a client without output ends: with an answer, at rest, or
with a blank line. -/
structure Worked (client after : GmClient) : Prop where
  live : after.live = true
  start : after.outputPos = 0
  shorter : after.input.length ≤ client.input.length
  rests : after.output = [] → ¬ BlankAhead client → Rests after

theorem gmInputConsume_shorter (count : Nat) (client : GmClient) :
    (gmInputConsume count client).input.length ≤ client.input.length := by
  change (client.input.drop count).length ≤ _
  rw [List.length_drop]
  exact Nat.sub_le _ _

theorem gmPendingWrite_worked {client caller : GmClient} (idle : caller.Idle)
    (store : GmStore) (waits : caller.pending ≠ .none)
    (shorter : caller.input.length ≤ client.input.length) :
    Worked client (gmPendingWrite caller store).1 := by
  by_cases short : caller.input.length < caller.pendingCount
  · rw [gmPendingWrite_short short]
    exact ⟨idle.live, idle.start, shorter,
      fun _ _ => ⟨fun quiet => absurd quiet waits, fun _ => short⟩⟩
  rw [gmPendingWrite_complete waits short idle.empty]
  generalize (caller.storePayload store).1 = error
  obtain ⟨live, start, _, replies, _⟩ :=
    GmClient.settled_answers error idle.start
  refine ⟨live.trans idle.live, start, Nat.le_trans ?_ shorter,
    fun empty => absurd empty replies⟩
  cases error with
  | none => exact gmInputConsume_shorter caller.pendingCount caller
  | some error => exact Nat.le_refl _

theorem gmOutputError_worked (live : client.live = true) (count : Nat) :
    Worked client (gmOutputError (ascii "ERR syntax")
      (gmInputConsume count client)) := by
  rw [gmOutputError_eq _ (by decide)]
  exact ⟨live, rfl, gmInputConsume_shorter count client,
    fun empty => by simp at empty⟩

theorem gmCommand_worked {client caller : GmClient} (idle : caller.Idle)
    (store : GmStore) (line : List UInt8)
    (shorter : caller.input.length ≤ client.input.length)
    (blank : gmTokens [] line = [] → ¬ BlankAhead client → Rests caller) :
    Worked client (gmFinish (gmCommand line caller store)).1 := by
  by_cases empty : gmTokens [] line = []
  · have nothing : gmCommand line caller store = (true, caller, store) := by
      rw [gmCommand, empty]
      rfl
    rw [nothing]
    exact ⟨idle.live, idle.start, shorter, fun _ => blank empty⟩
  rcases gmCommandParts_definite empty with atOnce | announces
  · obtain ⟨⟨stays, output, nonempty, same⟩, _⟩ := atOnce caller store idle
    rw [gmCommand, gmFinish_true stays, same]
    exact ⟨idle.live, idle.start, shorter, fun none' => absurd none' nonempty⟩
  · obtain ⟨kind, count, name, waits, same⟩ := announces
    have idleAfter : (caller.announced kind count name).Idle :=
      ⟨idle.live, idle.empty, idle.start⟩
    rw [gmCommand, same, gmFinish_true (gmPendingWrite_live idleAfter store)]
    exact gmPendingWrite_worked idleAfter store waits shorter

theorem not_mem_of_no_line {input : List UInt8}
    (none' : (input.takeWhile (· != 10)).length = input.length) :
    10 ∉ input := by
  have all := List.takeWhile_eq_self_iff.mp
    ((List.takeWhile_prefix _).eq_of_length none')
  intro newline
  have other := all 10 newline
  cases other

theorem gmProcessLine_worked (idle : client.Idle)
    (fits : client.input.length ≤ gmstoreInput) (quiet : client.pending = .none)
    (store : GmStore) : Worked client (gmProcessLine client store).1 := by
  rw [gmProcessLine]
  by_cases none' : (client.input.takeWhile (· != 10)).length =
      client.input.length
  · simp only [if_pos none']
    by_cases full : client.input.length = gmstoreInput
    · rw [if_pos full]
      exact gmOutputError_worked idle.live _
    · rw [if_neg full]
      have room : client.input.length < gmstoreInput :=
        Nat.lt_of_le_of_ne fits full
      exact ⟨idle.live, idle.start, Nat.le_refl _, fun _ _ =>
        ⟨fun _ => ⟨not_mem_of_no_line none', room⟩,
          fun waits => absurd quiet waits⟩⟩
  simp only [if_neg none']
  by_cases bad : gmstoreLine <
      (gmStripReturn (client.input.takeWhile (· != 10))).length + 1 ∨
      (gmStripReturn (client.input.takeWhile (· != 10))).any
        (fun symbol => symbol < 32 || 126 < symbol) = true
  · rw [if_pos bad]
    exact gmOutputError_worked idle.live _
  rw [if_neg bad]
  have accepted := not_or.mp bad
  have taken : (client.input.takeWhile (· != 10)).length <
      client.input.length :=
    Nat.lt_of_le_of_ne (List.takeWhile_prefix _).length_le none'
  apply gmCommand_worked
  · exact ⟨idle.live, idle.empty, idle.start⟩
  · exact gmInputConsume_shorter _ client
  · -- Behind a blank line the buffer holds no other line.
    intro blank clear
    refine ⟨fun _ => ⟨?_, ?_⟩, fun waits => absurd quiet waits⟩
    · intro behind
      exact clear ⟨quiet, blank, by omega, by simpa using accepted.2, behind⟩
    · change (client.input.drop _).length < _
      rw [List.length_drop]
      omega

theorem Worked.logReply {after : GmClient} (worked : Worked client after) :
    Worked client after.logReply := by
  rw [GmClient.logReply]
  split
  · exact worked
  · exact ⟨worked.live, worked.start, worked.shorter, fun empty clear =>
      ⟨(worked.rests empty clear).line, (worked.rests empty clear).payload⟩⟩

theorem gmProcessInput_worked (idle : client.Idle)
    (fits : client.input.length ≤ gmstoreInput) (store : GmStore) :
    Worked client (gmProcessInput client store).1 := by
  rw [gmProcessInput_idle idle]
  apply Worked.logReply
  by_cases quiet : client.pending = .none
  · rw [if_neg fun waits => waits quiet]
    exact gmProcessLine_worked idle fits quiet store
  · rw [if_pos quiet]
    exact gmPendingWrite_worked idle store quiet (Nat.le_refl _)

theorem Rests.stream (rests : Rests client) (idle : client.Idle)
    (store : GmStore) : gmStreamStep (client, store) = (client, store) := by
  have nothing : gmStreamWork client store = (client, store) := by
    by_cases quiet : client.pending = .none
    · obtain ⟨noNewline, room⟩ := rests.line quiet
      rw [gmStreamWork, if_neg fun waits => waits quiet]
      apply gmStreamLine_waits store _ room
      have all : (client.input.take gmstoreInput).takeWhile (· != 10) =
          client.input.take gmstoreInput := by
        rw [List.takeWhile_eq_self_iff]
        intro symbol member
        rw [bne_iff_ne]
        rintro rfl
        exact noNewline (List.mem_of_mem_take member)
      rw [NoLine, all]
    · rw [gmStreamWork, if_pos quiet,
        gmPendingWrite_short (rests.payload quiet)]
  rw [gmStreamStep]
  simp only [nothing, idle.logReply, idle.flushed]

/-! ## The passes of the loop -/

/-- Between two passes output is waiting or gone, and the input fits. -/
structure Buffered (client : GmClient) : Prop where
  output : (client.output = [] ∧ client.outputPos = 0) ∨
    client.outputPos < client.output.length
  input : client.input.length ≤ gmstoreInput

theorem lingers_of_stays (nothing : gmTakesUp events client = none)
    (stays : (gmClientPoll events client store).1.live = true) :
    Lingers client (gmClientPoll events client store).1 := by
  obtain ⟨held, lingers, same | closed⟩ := gmClientPoll_lingers nothing store
  · rw [same]
    exact lingers
  · rw [closed] at stays
    cases stays

/-- A pass in which no blank line hides another line. -/
def Unblocked (events : GmEvents) (client : GmClient) : Prop :=
  ∀ ready ∈ gmTakesUp events client, ¬ BlankAhead ready

/-- A pass feeds the machine on the stream and lets it take a step, or it does
nothing to it. -/
theorem gmClientPoll_feeds (buffered : Buffered client) (store : GmStore)
    (stays : (gmClientPoll events client store).1.live = true) :
    Buffered (gmClientPoll events client store).1 ∧ ∃ data,
      (gmClientPoll events client store).1.trace.received =
        client.trace.received ++ data ∧
      Joins gmStreamStep (gmStreamFeed (client.flushed, store) data)
        ((gmClientPoll events client store).1.flushed,
          (gmClientPoll events client store).2) := by
  cases takes : gmTakesUp events client with
  | none =>
    have ends := gmClientPoll_takesUp events client store
    rw [takes] at ends
    have lingers := lingers_of_stays takes stays
    refine ⟨⟨?_, ?_⟩, [], ?_, ?_⟩
    · rcases lingers.output with same | ⟨_, waits⟩
      · rw [same]
        exact buffered.output
      · exact .inr waits
    · exact Nat.le_trans
        (Nat.le_of_eq (congrArg (·.input.length) lingers.flushed))
        buffered.input
    · rw [List.append_nil]
      exact congrArg (·.trace.received) lingers.flushed
    · rw [lingers.flushed, show (gmClientPoll events client store).2 = store
        from ends, gmStreamFeed, GmClient.receive_nil]
      exact .refl _
  | some ready =>
    obtain ⟨idle, data, same, fits⟩ := gmTakesUp_feeds buffered.output takes
    have fits := fits buffered.input
    have worked := gmProcessInput_worked idle fits store
    rw [gmClientPoll_ready takes]
    refine ⟨⟨?_, Nat.le_trans worked.shorter fits⟩, data, ?_, ?_⟩
    · rw [worked.start]
      by_cases empty : (gmProcessInput ready store).1.output = []
      · exact .inl ⟨empty, rfl⟩
      · exact .inr (List.length_pos_iff.mpr empty)
    · rw [gmProcessInput_received, same]
      rfl
    · rw [gmStreamFeed, ← same, gmProcessInput_stream idle fits store]
      exact .once _

/-- A pass in which no blank line hides another one leaves a client at rest,
or with output to send. -/
theorem gmClientPoll_rests (buffered : Buffered client) (store : GmStore)
    (unblocked : Unblocked events client)
    (rests : client.output = [] → Rests client)
    (stays : (gmClientPoll events client store).1.live = true)
    (empty : (gmClientPoll events client store).1.output = []) :
    Rests (gmClientPoll events client store).1 := by
  cases takes : gmTakesUp events client with
  | none =>
    have lingers := lingers_of_stays takes stays
    rcases lingers.output with same | ⟨_, waits⟩
    · rw [same] at empty ⊢
      exact rests empty
    · rw [empty] at waits
      exact absurd waits (Nat.not_lt_zero _)
  | some ready =>
    obtain ⟨idle, _, _, fits⟩ := gmTakesUp_feeds buffered.output takes
    have fits := fits buffered.input
    rw [gmClientPoll_ready takes] at empty ⊢
    exact (gmProcessInput_worked idle fits store).rests empty
      (unblocked ready takes)

/-! ## Whole connections -/

/-- The passes of the loop over one client. -/
def gmPolls (events : List GmEvents) (state : GmClient × GmStore) :
    GmClient × GmStore :=
  events.foldl (fun state event => gmClientPoll event state.1 state.2) state

/-- In none of the passes a blank line hides another line. -/
def AllUnblocked : List GmEvents → GmClient × GmStore → Prop
  | [], _ => True
  | event :: events, state =>
    Unblocked event state.1 ∧
      AllUnblocked events (gmClientPoll event state.1 state.2)

instance (events : GmEvents) (client : GmClient) :
    Decidable (Unblocked events client) :=
  inferInstanceAs (Decidable (∀ ready ∈ gmTakesUp events client, _))

instance : (events : List GmEvents) → (state : GmClient × GmStore) →
    Decidable (AllUnblocked events state)
  | [], _ => isTrue trivial
  | event :: events, state =>
    match inferInstanceAs (Decidable (Unblocked event state.1)),
        instDecidableAllUnblocked events
          (gmClientPoll event state.1 state.2) with
    | isTrue now, isTrue later => isTrue ⟨now, later⟩
    | isFalse now, _ => isFalse fun all => now all.1
    | _, isFalse later => isFalse fun all => later all.2

theorem gmClientPoll_ended {event : GmEvents}
    (stays : (gmClientPoll event client store).1.live = true) :
    client.live = true := by
  by_contra ended
  have dead : client.live = false := by simpa using ended
  rw [gmClientPoll, if_pos dead] at stays
  exact ended stays

theorem gmPolls_ended {events : List GmEvents} {state : GmClient × GmStore}
    (stays : (gmPolls events state).1.live = true) : state.1.live = true := by
  induction events generalizing state with
  | nil => exact stays
  | cons event events induction =>
    exact gmClientPoll_ended (induction stays)

theorem gmPolls_feeds (events : List GmEvents) (state : GmClient × GmStore)
    (buffered : Buffered state.1)
    (stays : (gmPolls events state).1.live = true) :
    Buffered (gmPolls events state).1 ∧ ∃ data,
      (gmPolls events state).1.trace.received =
        state.1.trace.received ++ data ∧
      Joins gmStreamStep (gmStreamFeed (state.1.flushed, state.2) data)
        ((gmPolls events state).1.flushed, (gmPolls events state).2) := by
  induction events generalizing state with
  | nil =>
    refine ⟨buffered, [], (List.append_nil _).symm, ?_⟩
    rw [gmStreamFeed, GmClient.receive_nil]
    exact .refl _
  | cons event events induction =>
    have middleLive : (gmClientPoll event state.1 state.2).1.live = true :=
      gmPolls_ended stays
    obtain ⟨middle, data, received, first⟩ :=
      gmClientPoll_feeds buffered state.2 middleLive
    obtain ⟨after, more, later, second⟩ := induction _ middle stays
    refine ⟨after, data ++ more, ?_, ?_⟩
    · rw [← List.append_assoc, ← received]
      exact later
    · have live := gmClientPoll_ended middleLive
      have fed := gmStream.joins_feed more
        (show gmStream.Good (gmStreamFeed (state.1.flushed, state.2) data)
          from ⟨live, rfl, rfl⟩)
        (show gmStream.Good ((gmClientPoll event state.1 state.2).1.flushed,
          (gmClientPoll event state.1 state.2).2)
          from ⟨middleLive, rfl, rfl⟩) first
      have joined : gmStreamFeed (gmStreamFeed (state.1.flushed, state.2)
          data) more = gmStreamFeed (state.1.flushed, state.2)
            (data ++ more) := by
        simp only [gmStreamFeed, GmClient.receive, List.append_assoc]
      rw [← joined]
      exact fed.trans second

theorem gmPolls_rests {events : List GmEvents} {state : GmClient × GmStore}
    (buffered : Buffered state.1)
    (rests : state.1.output = [] → Rests state.1)
    (unblocked : AllUnblocked events state)
    (stays : (gmPolls events state).1.live = true)
    (empty : (gmPolls events state).1.output = []) :
    Rests (gmPolls events state).1 := by
  induction events generalizing state with
  | nil => exact rests empty
  | cons event events induction =>
    have middleLive : (gmClientPoll event state.1 state.2).1.live = true :=
      gmPolls_ended stays
    exact induction (gmClientPoll_feeds buffered state.2 middleLive).1
      (gmClientPoll_rests buffered state.2 unblocked.1 rests middleLive)
      unblocked.2 stays empty

theorem gmClientStart_buffered : Buffered gmClientStart := by
  rw [gmClientStart_eq]
  exact ⟨.inr (by simp), Nat.zero_le _⟩

theorem gmClientStart_output : gmClientStart.output ≠ [] := by
  rw [gmClientStart_eq]
  simp

/-- All output of a client was sent. -/
def AllSent (client : GmClient) : Prop :=
  client.output.length ≤ client.outputPos

instance (client : GmClient) : Decidable (AllSent client) :=
  inferInstanceAs (Decidable (_ ≤ _))

theorem Buffered.idle (buffered : Buffered client) (live : client.live = true)
    (sent : AllSent client) : client.Idle := by
  obtain ⟨empty, start⟩ :=
    buffered.output.resolve_right (Nat.not_lt.mpr sent)
  exact ⟨live, empty, start⟩

/-- As long as no blank line hides another line, no line is left lying in the
buffer, and the replies and the store depend on the stream alone. -/
theorem gmPolls_chunks (store : GmStore) :
    (∀ events, AllUnblocked events (gmClientStart, store) →
      let client := (gmPolls events (gmClientStart, store)).1
      client.live = true → AllSent client →
      ¬ (client.pending ≠ .none ∧
        client.input.length < client.pendingCount) →
      10 ∉ client.input) ∧
    (∀ first second, AllUnblocked first (gmClientStart, store) →
      AllUnblocked second (gmClientStart, store) →
      let left := gmPolls first (gmClientStart, store)
      let right := gmPolls second (gmClientStart, store)
      left.1.live = true → right.1.live = true →
      left.1.trace.received = right.1.trace.received →
      AllSent left.1 → AllSent right.1 →
      left.1.trace.sent = right.1.trace.sent ∧ left.2 = right.2) := by
  have resting : ∀ events, AllUnblocked events (gmClientStart, store) →
      (gmPolls events (gmClientStart, store)).1.live = true →
      AllSent (gmPolls events (gmClientStart, store)).1 →
      (gmPolls events (gmClientStart, store)).1.Idle ∧
        Rests (gmPolls events (gmClientStart, store)).1 := by
    intro events unblocked live sent
    have buffered :=
      (gmPolls_feeds events _ gmClientStart_buffered live).1
    have idle := buffered.idle live sent
    exact ⟨idle, gmPolls_rests gmClientStart_buffered
      (fun empty => absurd empty gmClientStart_output) unblocked live
      idle.empty⟩
  refine ⟨?_, ?_⟩
  · intro events unblocked client live sent complete
    obtain ⟨_, rests⟩ := resting events unblocked live sent
    have quiet : client.pending = .none := by
      by_contra waits
      exact complete ⟨waits, rests.payload waits⟩
    exact (rests.line quiet).1
  · intro first second firstClear secondClear left right leftLive rightLive
      same leftSent rightSent
    obtain ⟨leftIdle, leftRests⟩ := resting first firstClear leftLive leftSent
    obtain ⟨rightIdle, rightRests⟩ :=
      resting second secondClear rightLive rightSent
    obtain ⟨_, leftData, leftReceived, leftJoins⟩ :=
      gmPolls_feeds first (gmClientStart, store) gmClientStart_buffered leftLive
    obtain ⟨_, rightData, rightReceived, rightJoins⟩ :=
      gmPolls_feeds second (gmClientStart, store) gmClientStart_buffered
        rightLive
    have data : leftData = rightData := by
      apply List.append_cancel_left
      exact leftReceived.symm.trans (same.trans rightReceived)
    subst data
    rw [leftIdle.flushed] at leftJoins
    rw [rightIdle.flushed] at rightJoins
    have equal : left = right := (leftJoins.symm.trans rightJoins).eq_of_rest
      (leftRests.stream leftIdle left.2) (rightRests.stream rightIdle right.2)
    rw [equal]
    exact ⟨rfl, rfl⟩

/-- All output is taken by the socket. -/
def drainEvent : GmEvents := { writable := some [.bytes 4095] }

def chunkEvent (data : List UInt8) : GmEvents :=
  { readable := some (.bytes data) }

/-- A pipelined stream in one chunk. -/
def wholeEvents : List GmEvents :=
  [drainEvent, chunkEvent (ascii "WRITE /a 3\nabcPING\n"), drainEvent,
    drainEvent]

/-- The same stream in pieces, with replies that are drained slowly. -/
def brokenEvents : List GmEvents :=
  [{ writable := some [.bytes 3, .again] }, drainEvent,
    chunkEvent (ascii "WRITE /"), chunkEvent (ascii "a 3\nab"),
    { readable := some .again }, chunkEvent (ascii "cPI"), drainEvent,
    chunkEvent (ascii "NG\n"), { writable := some [.bytes 0, .bytes 0] },
    drainEvent]

theorem gmPolls_chunks_broken :
    (gmPolls wholeEvents (gmClientStart, emptyStore)).1.trace.sent =
        gmGreeting ++ 10 :: ascii "OK\nOK PONG\n" ∧
      (gmPolls wholeEvents (gmClientStart, emptyStore)).1.trace.sent =
        (gmPolls brokenEvents (gmClientStart, emptyStore)).1.trace.sent ∧
      (gmPolls wholeEvents (gmClientStart, emptyStore)).2 =
        (gmPolls brokenEvents (gmClientStart, emptyStore)).2 := by
  refine ⟨by decide +kernel, ?_⟩
  exact (gmPolls_chunks emptyStore).2 wholeEvents brokenEvents
    (by decide +kernel) (by decide +kernel) (by decide +kernel)
    (by decide +kernel) (by decide +kernel) (by decide +kernel)
    (by decide +kernel)

/-- A blank line hides the command behind it if both arrive together. -/
theorem gmPolls_blank_hides :
    let left := gmPolls [drainEvent, chunkEvent (ascii "\nPING\n")]
      (gmClientStart, emptyStore)
    let right := gmPolls
      [drainEvent, chunkEvent (ascii "\n"), chunkEvent (ascii "PING\n"),
        drainEvent] (gmClientStart, emptyStore)
    left.1.live = true ∧ right.1.live = true ∧
      left.1.trace.received = right.1.trace.received ∧
      AllSent left.1 ∧ AllSent right.1 ∧
      left.1.trace.sent = gmGreeting ++ [10] ∧
      right.1.trace.sent = gmGreeting ++ 10 :: ascii "OK PONG\n" ∧
      left.1.pending = .none ∧ left.1.input = ascii "PING\n" := by
  decide +kernel

end Gmker.Server
