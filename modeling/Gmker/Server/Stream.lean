import Gmker.Foundation.Feeding
import Gmker.Server.Requests
import Gmker.Server.StoreRuns

/-!
# The work on an unbounded stream

How much of a stream `gm_process_input` finds in the buffer depends on the
chunks.  Here the same work is done over the whole stream: a machine that sees
as many of the unread bytes as the buffer takes, and whose replies are sent at
once.  Its steps and the arrival of bytes can be exchanged: a line or a payload
that is complete stays the same when more bytes arrive, and a header without its
payload waits for them.
-/

namespace Gmker.Server

open Foundation

variable {client : GmClient}

/-- `gm_process_input` for a line of an unbounded stream: of the unread bytes it
sees as many as the buffer takes. -/
def gmStreamLine (client : GmClient) (store : GmStore) :
    GmClient × GmStore :=
  let window := client.input.take gmstoreInput
  let raw := window.takeWhile (· != 10)
  if raw.length = window.length then
    if window.length = gmstoreInput then
      (gmOutputError (ascii "ERR syntax")
        (gmInputConsume window.length client), store)
    else (client, store)
  else
    let line := gmStripReturn raw
    let client := gmInputConsume (raw.length + 1) client
    if gmstoreLine < line.length + 1 ∨
        line.any (fun symbol => symbol < 32 || 126 < symbol) then
      (gmOutputError (ascii "ERR syntax") client, store)
    else gmFinish (gmCommand line (client.logCommand line) store)

/-- The next thing to do with the stream. -/
def gmStreamWork (client : GmClient) (store : GmStore) :
    GmClient × GmStore :=
  if client.pending ≠ .none then gmPendingWrite client store
  else gmStreamLine client store

/-- A step of the machine on the stream: its replies are sent at once. -/
def gmStreamStep (state : GmClient × GmStore) : GmClient × GmStore :=
  ((gmStreamWork state.1 state.2).1.logReply.flushed,
    (gmStreamWork state.1 state.2).2)

/-- Bytes arrive. -/
def gmStreamFeed (state : GmClient × GmStore) (more : List UInt8) :
    GmClient × GmStore :=
  (state.1.receive more, state.2)

/-- On what fits the buffer, `gm_process_input` does the same work. -/
theorem gmProcessInput_stream (idle : client.Idle)
    (fits : client.input.length ≤ gmstoreInput) (store : GmStore) :
    ((gmProcessInput client store).1.flushed, (gmProcessInput client store).2) =
      gmStreamStep (client, store) := by
  have whole : client.input.take gmstoreInput = client.input :=
    List.take_of_length_le fits
  have line : gmProcessLine client store = gmStreamLine client store := by
    rw [gmProcessLine, gmStreamLine, whole]
  rw [gmProcessInput_idle idle, line]
  rfl

/-! ## What does not look at the input -/

section Receive

variable (more : List UInt8)

/-- A command was answered, and bytes arrived. -/
def withReceived (result : Bool × GmClient × GmStore) :
    Bool × GmClient × GmStore :=
  (result.1, result.2.1.receive more, result.2.2)

theorem gmOutputError_receive {text : List UInt8}
    (short : text.length < gmstoreOutput) (client : GmClient) :
    gmOutputError text (client.receive more) =
      (gmOutputError text client).receive more := by
  rw [gmOutputError_eq _ short, gmOutputError_eq _ short]
  rfl

theorem gmInputConsume_receive {count : Nat}
    (within : count ≤ client.input.length) :
    gmInputConsume count (client.receive more) =
      (gmInputConsume count client).receive more := by
  rw [gmInputConsume, GmClient.receive, gmInputConsume]
  simp only [List.drop_append_of_le_length within,
    List.take_append_of_le_length within, GmClient.receive]

/-- Bytes behind a payload that is complete do not matter to it. -/
theorem gmPendingWrite_receive (store : GmStore) (empty : client.output = [])
    (pending : client.pending ≠ .none)
    (enough : ¬ client.input.length < client.pendingCount) :
    gmPendingWrite (client.receive more) store =
      ((gmPendingWrite client store).1.receive more,
        (gmPendingWrite client store).2) := by
  have still : ¬ (client.receive more).input.length <
      (client.receive more).pendingCount := by
    change ¬ (client.input ++ more).length < client.pendingCount
    rw [List.length_append]
    omega
  have within := Nat.le_of_not_lt enough
  have again : (client.receive more).storePayload store =
      client.storePayload store := by
    rw [GmClient.storePayload, GmClient.storePayload, GmClient.receive]
    simp only [List.take_append_of_le_length within]
  rw [gmPendingWrite_complete pending enough empty,
    @gmPendingWrite_complete (client.receive more) store pending still empty,
    again]
  cases (client.storePayload store).1 with
  | some error => rfl
  | none =>
    rw [GmClient.settled, show gmInputConsume
      (client.receive more).pendingCount (client.receive more) = _ from
      gmInputConsume_receive more within]
    rfl

end Receive

/-! ## The kinds of lines -/

/-- A command that is answered as soon as its line is read, whatever stands
behind it. -/
def AtOnce (command : GmClient → GmStore → Bool × GmClient × GmStore) : Prop :=
  ∀ client store, client.Idle →
    Answered client (command client store) ∧
      ∀ more, command (client.receive more) store =
        withReceived more (command client store)

/-- Every line with a token is of one of these kinds. -/
def Definite (command : GmClient → GmStore → Bool × GmClient × GmStore) :
    Prop :=
  AtOnce command ∨ Announces command

theorem GmClient.Idle.receive (idle : client.Idle) (more : List UInt8) :
    (client.receive more).Idle :=
  ⟨idle.live, idle.empty, idle.start⟩

theorem Replies.atOnce
    {command : GmClient → GmStore → Bool × GmClient × GmStore}
    (replies : ∀ store, Replies fun client => command client store) :
    AtOnce command := by
  intro client store idle
  refine ⟨(replies store).answered idle, ?_⟩
  intro more
  obtain ⟨reply, after, _, _, same⟩ := replies store
  beta_reduce at same
  rw [same client idle, same _ (idle.receive more)]
  rfl

theorem gmCommandParts_definite {parts : List (List UInt8)}
    (some' : parts ≠ []) : Definite (gmCommandParts parts) := by
  obtain ⟨command, args, rfl⟩ := List.exists_cons_of_ne_nil some'
  exact (gmCommandParts_settles command args).imp Replies.atOnce And.right

/-! ## Steps and arrivals can be exchanged -/

theorem gmPendingWrite_live (idle : client.Idle) (store : GmStore) :
    (gmPendingWrite client store).1.live = true := by
  by_cases pending : client.pending = .none
  · rw [gmPendingWrite, if_pos pending]
    exact idle.live
  by_cases short : client.input.length < client.pendingCount
  · rw [gmPendingWrite_short short]
    exact idle.live
  rw [gmPendingWrite_complete pending short idle.empty]
  exact (GmClient.settled_answers _ idle.start).1.trans idle.live

/-- What was done before more bytes arrived is the same with them, or it has
led to waiting for them. -/
def Exchanges (store : GmStore) (more : List UInt8)
    (early late : GmClient × GmStore) : Prop :=
  late = (early.1.receive more, early.2) ∨
    ∃ waiting : GmClient, waiting.Idle ∧ early = (waiting, store) ∧
      late = gmStreamWork (waiting.receive more) store

/-- A line in the window is found again when more bytes arrive. -/
theorem window_line {input : List UInt8}
    (found : ((input.take gmstoreInput).takeWhile (· != 10)).length ≠
      (input.take gmstoreInput).length) (more : List UInt8) :
    ((input ++ more).take gmstoreInput).takeWhile (· != 10) =
      (input.take gmstoreInput).takeWhile (· != 10) := by
  rw [List.take_append, List.takeWhile_append, if_neg found]

theorem gmCommand_exchanges (line : List UInt8) (idle : client.Idle)
    (store : GmStore) (more : List UInt8) :
    Exchanges store more (gmFinish (gmCommand line client store))
      (gmFinish (gmCommand line (client.receive more) store)) := by
  by_cases blank : gmTokens [] line = []
  · have nothing : ∀ caller : GmClient,
        gmCommand line caller store = (true, caller, store) := by
      intro caller
      rw [gmCommand, blank]
      rfl
    left
    rw [nothing, nothing]
    rfl
  rcases gmCommandParts_definite blank with atOnce | announces
  · obtain ⟨answered, same⟩ := atOnce client store idle
    left
    have stays : (withReceived more
        (gmCommandParts (gmTokens [] line) client store)).1 = true :=
      answered.1
    rw [gmCommand, gmCommand, same more, gmFinish_true stays,
      gmFinish_true answered.1]
    rfl
  · obtain ⟨kind, count, name, waits, same⟩ := announces
    have idleAfter : (client.announced kind count name).Idle :=
      ⟨idle.live, idle.empty, idle.start⟩
    have finish : ∀ caller : GmClient,
        (caller.announced kind count name).Idle →
        gmFinish (gmCommand line caller store) =
          gmPendingWrite (caller.announced kind count name) store := by
      intro caller callerIdle
      rw [gmCommand, same, gmFinish_true (gmPendingWrite_live callerIdle store)]
    have idleLate : ((client.receive more).announced kind count name).Idle :=
      idleAfter.receive more
    by_cases short : client.input.length < count
    · right
      refine ⟨client.announced kind count name, idleAfter, ?_, ?_⟩
      · rw [finish client idleAfter]
        exact gmPendingWrite_short short
      · rw [finish _ idleLate, gmStreamWork, if_pos]
        · rfl
        · exact waits
    · left
      rw [finish client idleAfter, finish _ idleLate]
      exact gmPendingWrite_receive more store idleAfter.empty waits short

section Lines

variable {client : GmClient} (store : GmStore)

/-- No line ends in the window. -/
def NoLine (input : List UInt8) : Prop :=
  ((input.take gmstoreInput).takeWhile (· != 10)).length =
    (input.take gmstoreInput).length

theorem gmStreamLine_waits (noLine : NoLine client.input)
    (room : client.input.length < gmstoreInput) :
    gmStreamLine client store = (client, store) := by
  have notFull : ¬ (client.input.take gmstoreInput).length = gmstoreInput := by
    have shorter := List.length_take_le' gmstoreInput client.input
    omega
  rw [gmStreamLine]
  simp only [if_pos (show _ = _ from noLine), if_neg notFull]

theorem gmStreamLine_full (noLine : NoLine client.input)
    (full : gmstoreInput ≤ client.input.length) :
    gmStreamLine client store =
      (gmOutputError (ascii "ERR syntax")
        (gmInputConsume gmstoreInput client), store) := by
  have size : (client.input.take gmstoreInput).length = gmstoreInput :=
    List.length_take_of_le full
  rw [gmStreamLine]
  simp only [if_pos (show _ = _ from noLine), if_pos size]
  rw [size]

end Lines

theorem gmStreamLine_exchanges (idle : client.Idle)
    (quiet : client.pending = .none) (store : GmStore) (more : List UInt8) :
    Exchanges store more (gmStreamLine client store)
      (gmStreamLine (client.receive more) store) := by
  have refused : ∀ caller : GmClient,
      gmOutputError (ascii "ERR syntax") (caller.receive more) =
        (gmOutputError (ascii "ERR syntax") caller).receive more :=
    gmOutputError_receive more (by decide)
  have input : (client.receive more).input = client.input ++ more := rfl
  by_cases none' : NoLine client.input
  · rcases Nat.lt_or_ge client.input.length gmstoreInput with room | full
    · right
      refine ⟨client, idle, gmStreamLine_waits store none' room, ?_⟩
      exact (if_neg fun waits => waits quiet).symm
    · -- A full window does not change when more bytes arrive.
      have still : NoLine (client.receive more).input := by
        rw [NoLine, input, List.take_append_of_le_length full]
        exact none'
      have longer : gmstoreInput ≤ (client.receive more).input.length := by
        rw [input, List.length_append]
        omega
      left
      rw [gmStreamLine_full store still longer,
        gmStreamLine_full store none' full, gmInputConsume_receive more full,
        refused]
  · have windowed := List.length_take_le' gmstoreInput client.input
    have inside : ((client.input.take gmstoreInput).takeWhile
        (· != 10)).length < (client.input.take gmstoreInput).length :=
      Nat.lt_of_le_of_ne (List.takeWhile_prefix _).length_le none'
    have found : ¬ ((client.input.take gmstoreInput).takeWhile
        (· != 10)).length =
        ((client.input ++ more).take gmstoreInput).length := by
      rw [List.take_append, List.length_append]
      omega
    rw [gmStreamLine, gmStreamLine, input, window_line none' more]
    simp only [if_neg (show ¬ _ = _ from none'), if_neg found]
    rw [gmInputConsume_receive more (by omega)]
    generalize (client.input.take gmstoreInput).takeWhile (· != 10) = raw
    generalize gmStripReturn raw = line
    by_cases bad : gmstoreLine < line.length + 1 ∨
        line.any (fun symbol => symbol < 32 || 126 < symbol) = true
    · rw [if_pos bad, if_pos bad]
      left
      rw [refused]
    · rw [if_neg bad, if_neg bad]
      have caller :
          ((gmInputConsume (raw.length + 1) client).logCommand line).Idle :=
        ⟨idle.live, idle.empty, idle.start⟩
      exact gmCommand_exchanges line caller store more

theorem gmStreamWork_exchanges (idle : client.Idle) (store : GmStore)
    (more : List UInt8) :
    Exchanges store more (gmStreamWork client store)
      (gmStreamWork (client.receive more) store) := by
  by_cases quiet : client.pending = .none
  · have early : gmStreamWork client store = gmStreamLine client store :=
      if_neg fun waits => waits quiet
    have late : gmStreamWork (client.receive more) store =
        gmStreamLine (client.receive more) store :=
      if_neg fun waits => waits quiet
    rw [early, late]
    exact gmStreamLine_exchanges idle quiet store more
  · have early : gmStreamWork client store = gmPendingWrite client store :=
      if_pos quiet
    by_cases short : client.input.length < client.pendingCount
    · right
      refine ⟨client, idle, ?_, rfl⟩
      rw [early, gmPendingWrite_short short]
    · left
      have late : gmStreamWork (client.receive more) store =
          gmPendingWrite (client.receive more) store := if_pos quiet
      rw [early, late]
      exact gmPendingWrite_receive more store idle.empty quiet short

theorem GmClient.Idle.logReply (idle : client.Idle) :
    client.logReply = client := by
  rw [GmClient.logReply, if_pos idle.empty]

theorem GmClient.logReply_receive (client : GmClient) (more : List UInt8) :
    (client.receive more).logReply = client.logReply.receive more := by
  rw [GmClient.logReply, GmClient.logReply]
  change (if client.output = [] then _ else _) = _
  split <;> rfl

theorem gmStreamStep_late {state : GmClient × GmStore}
    (more : List UInt8) (idle : state.1.Idle) :
    Joins gmStreamStep (gmStreamFeed state more)
      (gmStreamFeed (gmStreamStep state) more) := by
  obtain ⟨client, store⟩ := state
  rcases gmStreamWork_exchanges idle store more with
    same | ⟨waiting, waitingIdle, early, late⟩
  · have exchanged : gmStreamStep (gmStreamFeed (client, store) more) =
        gmStreamFeed (gmStreamStep (client, store)) more := by
      rw [gmStreamStep, gmStreamFeed]
      simp only [same, GmClient.logReply_receive]
      rfl
    rw [← exchanged]
    exact .once _
  · have waits : gmStreamStep (client, store) = (waiting, store) := by
      rw [gmStreamStep]
      simp only [early, waitingIdle.logReply, waitingIdle.flushed]
    rw [waits]
    apply Joins.of_step_eq
    rw [gmStreamStep, gmStreamStep]
    simp only [gmStreamFeed, late]

/-! ## The machine on the stream -/

theorem gmCommand_live (idle : client.Idle) (store : GmStore)
    (line : List UInt8) :
    (gmFinish (gmCommand line client store)).1.live = true := by
  by_cases empty : gmTokens [] line = []
  · rw [gmCommand, empty]
    exact idle.live
  rcases gmCommandParts_definite empty with atOnce | announces
  · obtain ⟨⟨stays, output, _, same⟩, _⟩ := atOnce client store idle
    rw [gmCommand, gmFinish_true stays, same]
    exact idle.live
  · obtain ⟨kind, count, name, _, same⟩ := announces
    have live := gmPendingWrite_live
      (show (client.announced kind count name).Idle from
        ⟨idle.live, idle.empty, idle.start⟩) store
    rw [gmCommand, same, gmFinish_true live]
    exact live

theorem gmStreamWork_live (idle : client.Idle) (store : GmStore) :
    (gmStreamWork client store).1.live = true := by
  have refused : ∀ caller : GmClient, caller.live = true →
      (gmOutputError (ascii "ERR syntax") caller).live = true := by
    intro caller live
    rw [gmOutputError_eq caller (by decide)]
    exact live
  rw [gmStreamWork]
  split
  · exact gmPendingWrite_live idle store
  rw [gmStreamLine]
  simp only
  split
  · split
    · exact refused _ idle.live
    · exact idle.live
  split
  · exact refused _ idle.live
  · apply gmCommand_live
    exact ⟨idle.live, idle.empty, idle.start⟩

/-- The work on a stream of bytes, which may arrive at any time. -/
def gmStream : Feeding (GmClient × GmStore) UInt8 where
  step := gmStreamStep
  feed := gmStreamFeed
  Good state := state.1.Idle
  step_good idle := by
    refine ⟨?_, rfl, rfl⟩
    exact (GmClient.logReply_live _).trans (gmStreamWork_live idle _)
  feed_good more idle := idle.receive more
  late more idle := gmStreamStep_late more idle

end Gmker.Server
