import Gmker.Server.Confinement
import Gmker.Server.StoreMap

/-!
# A client among its requests

Where a connected client stands in a stream of requests, and how one call of
`gm_process_input` moves it on: it takes up a line, waits for a payload, or
stores it.
-/

namespace Gmker.Server

open Foundation Function

variable {client : GmClient} {more : List UInt8} {store : GmStore}
  {requests done todo : List GmRequest} {next : GmRequest}

/-! ## Where a client stands -/

/-- The trace after requests were served. -/
structure Served (done : List GmRequest) (trace : GmTrace) : Prop where
  consumed : trace.consumed = stream done
  commands : trace.commands = done.map GmRequest.line
  replies : trace.replies.length = done.length

/-- The trace when the header of one more request has been taken up. -/
structure TakenUp (done : List GmRequest) (next : GmRequest)
    (trace : GmTrace) : Prop where
  consumed : trace.consumed = stream done ++ (next.line ++ [10])
  commands : trace.commands = (done ++ [next]).map GmRequest.line
  replies : trace.replies.length = done.length

/-- A trace keeps to the frames of the requests. -/
inductive Framed (requests : List GmRequest) (trace : GmTrace) : Prop where
  | served (done todo : List GmRequest) (split : requests = done ++ todo)
      (served : Served done trace)
  | takenUp (done todo : List GmRequest) (next : GmRequest)
      (split : requests = done ++ next :: todo)
      (taken : TakenUp done next trace)

/-- Where a connected client stands among its requests. -/
inductive Phase (requests : List GmRequest) (client : GmClient) : Prop where
  | between (done todo : List GmRequest) (split : requests = done ++ todo)
      (served : Served done client.trace) (pending : client.pending = .none)
  | awaiting (done todo : List GmRequest) (next : GmRequest)
      (split : requests = done ++ next :: todo)
      (taken : TakenUp done next client.trace)
      (pending : client.pending ≠ .none)
      (count : client.pendingCount = next.payload.length)
      (path : ∃ name : GmName, client.pendingPath = name.text)
      (quiet : client.output = [])

/-- Everything sent to a client: the greeting, then the replies. -/
def said (trace : GmTrace) : List UInt8 :=
  gmGreeting ++ [10] ++ trace.replies.flatten

/-- A connected client whose requests are framed. -/
structure InStep (requests : List GmRequest) (client : GmClient) : Prop where
  live : client.live = true
  phase : Phase requests client
  received : client.trace.received = client.trace.consumed ++ client.input
  output : client.output = [] ∧ client.outputPos = 0 ∨
    client.outputPos < client.output.length
  sent : client.trace.sent ++ client.output.drop client.outputPos =
    said client.trace

/-- Nothing more can be done without new input. -/
def Settled (client : GmClient) : Prop :=
  client.output = [] →
    (client.pending = .none → 10 ∉ client.input) ∧
      (client.pending ≠ .none → client.input.length < client.pendingCount)

theorem Phase.framed (phase : Phase requests client) :
    Framed requests client.trace := by
  cases phase with
  | between done todo split served _ => exact .served done todo split served
  | awaiting done todo next split taken _ _ _ _ =>
    exact .takenUp done todo next split taken

theorem gmProcessLine_received (client : GmClient) (store : GmStore) :
    (gmProcessLine client store).1.trace.received = client.trace.received := by
  rw [gmProcessLine]
  split
  · split
    · rw [gmOutputError_eq _ (by decide)]
      rfl
    · rfl
  simp only
  split
  · rw [gmOutputError_eq _ (by decide)]
    rfl
  · rw [gmFinish_trace]
    generalize gmStripReturn (client.input.takeWhile (· != 10)) = line
    generalize (client.input.takeWhile (· != 10)).length + 1 = count
    exact (gmCommandParts_handles
      ((gmInputConsume count client).logCommand line) store
      (gmTokens [] line)).1.received

theorem gmProcessInput_received (client : GmClient) (store : GmStore) :
    (gmProcessInput client store).1.trace.received = client.trace.received := by
  have logged : ∀ after : GmClient,
      after.logReply.trace.received = after.trace.received := by
    intro after
    rw [GmClient.logReply]
    split <;> rfl
  rw [gmProcessInput]
  split
  · rfl
  · rw [logged]
    split
    · exact (gmPendingWrite_kept client store).received
    · exact gmProcessLine_received client store

/-- A connected client with nothing left to send. -/
structure AtRest (client : GmClient) : Prop where
  live : client.live = true
  empty : client.output = []
  start : client.outputPos = 0
  received : client.trace.received = client.trace.consumed ++ client.input
  sent : client.trace.sent = said client.trace

theorem AtRest.idle (rest : AtRest client) : client.Idle :=
  ⟨rest.live, rest.empty, rest.start⟩

theorem InStep.atRest (inStep : InStep requests client)
    (empty : client.output = []) : AtRest client := by
  have start : client.outputPos = 0 := by
    rcases inStep.output with ⟨_, start⟩ | waiting
    · exact start
    · simp [empty] at waiting
  have sent := inStep.sent
  rw [empty, List.drop_nil, List.append_nil] at sent
  exact ⟨inStep.live, empty, start, inStep.received, sent⟩

/-- Output that was sent to its end is gone. -/
theorem InStep.empty_of_sent (inStep : InStep requests client)
    (sent : client.outputPos = client.output.length) : client.output = [] := by
  rcases inStep.output with ⟨empty, _⟩ | waiting
  · exact empty
  · omega

theorem AtRest.inStep (rest : AtRest client) (phase : Phase requests client) :
    InStep requests client := by
  refine ⟨rest.live, phase, rest.received, .inl ⟨rest.empty, rest.start⟩, ?_⟩
  rw [rest.empty, List.drop_nil, List.append_nil]
  exact rest.sent

/-- A client whose output is the reply to a request. -/
structure Replying (done : List GmRequest) (client : GmClient) : Prop where
  live : client.live = true
  pending : client.pending = .none
  nonempty : client.output ≠ []
  start : client.outputPos = 0
  consumed : client.trace.consumed = stream done
  commands : client.trace.commands = done.map GmRequest.line
  replies : client.trace.replies.length + 1 = done.length
  received : client.trace.received = client.trace.consumed ++ client.input
  sent : client.trace.sent = said client.trace

/-- A reply on record brings the client back between two requests. -/
theorem Replying.inStep (replying : Replying done client)
    (split : requests = done ++ todo) :
    InStep requests client.logReply ∧ Settled client.logReply := by
  have logged : client.logReply =
      { client with
        trace :=
          { client.trace with
            replies := client.trace.replies ++ [client.output] } } :=
    if_neg replying.nonempty
  rw [logged]
  constructor
  · refine ⟨replying.live, ?_, replying.received, .inr ?_, ?_⟩
    · refine .between done todo split ⟨replying.consumed, replying.commands, ?_⟩
        replying.pending
      simpa using replying.replies
    · have some := List.length_pos_of_ne_nil replying.nonempty
      simpa [replying.start] using some
    · simp [replying.start, replying.sent, said]
  · intro empty
    exact absurd empty replying.nonempty

/-- The stream cut behind a header. -/
theorem stream_split (done todo : List GmRequest) (next : GmRequest) :
    stream (done ++ next :: todo) =
      stream done ++ (next.line ++ [10]) ++ (next.payload ++ stream todo) := by
  simp [stream, GmRequest.bytes]

theorem stream_append_singleton (done : List GmRequest) (next : GmRequest) :
    stream (done ++ [next]) =
      stream done ++ (next.line ++ [10]) ++ next.payload := by
  have none : stream [] = [] := rfl
  rw [stream_split, none, List.append_nil]

/-- The input behind a header is the beginning of payload and requests to
come. -/
theorem TakenUp.input_within (taken : TakenUp done next client.trace)
    (rest : AtRest client) (split : requests = done ++ next :: todo)
    (within : client.trace.received <+: stream requests) :
    client.input <+: next.payload ++ stream todo := by
  rw [rest.received, taken.consumed, split, stream_split] at within
  exact (List.prefix_append_right_inj _).mp within

/-! ## One call of `gm_process_input` -/

/-- The payload that a command brings, behind its name. -/
def GmCommand.payload : GmCommand → Option (GmName × List UInt8)
  | .store _ name payload => some (name, payload)
  | _ => none

/-- A payload that is complete in the input has a place to go. -/
def Accommodates (store : GmStore) (client : GmClient) : Prop :=
  ∀ brought ∈ (gmCompletes client).bind GmCommand.payload,
    brought.2 ≠ [] → Storable store brought.1 brought.2.length

instance (store : GmStore) (client : GmClient) :
    Decidable (Accommodates store client) :=
  inferInstanceAs (Decidable (∀ brought ∈ _, _))

/-- `gm_pending_write` for a header that was taken up: it goes on waiting, or
it stores the payload, or it fails with an empty one. -/
theorem gmPendingWrite_inStep (rest : AtRest client)
    (split : requests = done ++ next :: todo)
    (taken : TakenUp done next client.trace) (pending : client.pending ≠ .none)
    (count : client.pendingCount = next.payload.length) {name : GmName}
    (path : client.pendingPath = name.text)
    (within : client.trace.received <+: stream requests)
    (fits : Accommodates store client) :
    InStep requests (gmPendingWrite client store).1.logReply ∧
      Settled (gmPendingWrite client store).1.logReply := by
  by_cases short : client.input.length < client.pendingCount
  · have silent : client.logReply = client := if_pos rest.empty
    rw [gmPendingWrite_short short, silent]
    refine ⟨rest.inStep (.awaiting done todo next split taken pending count
      ⟨name, path⟩ rest.empty), ?_⟩
    intro _
    exact ⟨fun none => absurd none pending, fun _ => short⟩
  have served : requests = done ++ [next] ++ todo := by simpa using split
  have commands := taken.commands
  have replies : client.trace.replies.length + 1 = (done ++ [next]).length := by
    simpa using taken.replies
  -- The input begins with the payload.
  have front : client.input.take client.pendingCount = next.payload := by
    have inside := taken.input_within rest split within
    obtain ⟨more, whole⟩ : next.payload <+: client.input :=
      List.prefix_of_prefix_length_le (List.prefix_append _ _) inside
        (by omega)
    rw [count, ← whole, List.take_left]
  have completes : gmCompletes client =
      some (.store (client.pending = .append) name next.payload) := by
    rw [gmCompletes, if_neg rest.idle.sent, if_pos pending, gmPayloadOf,
      if_neg short, path, gmNameOf_text, front]
  have stores := gmStorePayload_stores (client.pending = .append) name
    next.payload store
  rw [← path, ← front] at stores
  change (client.storePayload store).1 = none ↔ _ at stores
  rw [gmPendingWrite_complete pending short rest.empty]
  have replied := fun error =>
    (@GmClient.settled_answers client error rest.start).2.2.2.1
  cases outcome : (client.storePayload store).1 with
  | some error =>
    have noPayload : next.payload = [] := by
      by_contra some'
      have able := fits (name, next.payload) (by rw [completes]; rfl) some'
      cases outcome.symm.trans (stores.mpr (front ▸ able))
    have consumed : client.trace.consumed = stream (done ++ [next]) := by
      rw [stream_append_singleton, noPayload, List.append_nil]
      exact taken.consumed
    exact Replying.inStep ⟨rest.live, rfl, replied _, rfl, consumed,
      commands, replies, rest.received, rest.sent⟩ served
  | none =>
    have consumed : (gmInputConsume client.pendingCount client).trace.consumed
        = stream (done ++ [next]) := by
      rw [stream_append_singleton, ← front, ← taken.consumed]
      rfl
    have received : client.trace.received =
        (gmInputConsume client.pendingCount client).trace.consumed ++
          (gmInputConsume client.pendingCount client).input := by
      rw [rest.received]
      simp [gmInputConsume]
    exact Replying.inStep ⟨rest.live, rfl, replied _, rest.start, consumed,
      commands, replies, received, rest.sent⟩ served

theorem AtRest.takeLine (rest : AtRest client) (next : GmRequest) :
    AtRest (client.takeLine next) := by
  refine ⟨rest.live, rest.empty, rest.start, ?_, rest.sent⟩
  simp [GmClient.takeLine, GmClient.logCommand, gmInputConsume, rest.received]

theorem Served.takeLine (served : Served done client.trace)
    (input : client.input = next.line ++ 10 :: more) :
    TakenUp done next (client.takeLine next).trace := by
  refine ⟨?_, ?_, served.replies⟩
  · simp [GmClient.takeLine, GmClient.logCommand, gmInputConsume, input,
      served.consumed, List.take_append]
  · simp [GmClient.takeLine, GmClient.logCommand, gmInputConsume,
      served.commands]

/-- The answer to a request without payload. -/
theorem Answered.inStep {result : Bool × GmClient × GmStore}
    (answered : Answered client result) (rest : AtRest client)
    (split : requests = done ++ next :: todo)
    (taken : TakenUp done next client.trace) (pending : client.pending = .none)
    (noPayload : next.payload = []) :
    InStep requests result.2.1.logReply ∧ Settled result.2.1.logReply := by
  obtain ⟨_, output, nonempty, after⟩ := answered
  have served : requests = done ++ [next] ++ todo := by simpa using split
  have consumed : client.trace.consumed = stream (done ++ [next]) := by
    rw [stream_append_singleton, noPayload, List.append_nil]
    exact taken.consumed
  rw [after]
  exact Replying.inStep ⟨rest.live, pending, nonempty, rest.start, consumed,
    taken.commands, by simpa using taken.replies, rest.received, rest.sent⟩
    served

theorem gmProcessLine_wait (store : GmStore) (noNewline : 10 ∉ client.input)
    (short : client.input.length < gmstoreLine) :
    gmProcessLine client store = (client, store) := by
  have whole : client.input.takeWhile (· != 10) = client.input := by
    rw [List.takeWhile_eq_self_iff]
    intro symbol member
    rw [bne_iff_ne]
    rintro rfl
    exact noNewline member
  have room : client.input.length ≠ gmstoreInput := by
    intro full
    rw [full] at short
    exact absurd short (by decide)
  rw [gmProcessLine, whole]
  simp only [if_true, if_neg room]

/-- What the line of a request completes. -/
theorem gmCompletes_line (idle : client.Idle) (quiet : client.pending = .none)
    (input : client.input = next.line ++ 10 :: more) :
    gmCompletes client = (gmLineOf (gmTokens [] next.line)).completes
      (client.takeLine next).input := by
  have longer : ¬ next.line.length = (next.line ++ 10 :: more).length := by
    rw [List.length_append, List.length_cons]
    omega
  rw [gmCompletes, if_neg idle.sent, if_neg (not_not_intro quiet),
    gmCommandAhead, input, takeWhile_line]
  simp only [if_neg longer, gmStripReturn_line, if_neg next.accepted]
  rw [← input]
  rfl

theorem gmLineOf_store (append : Bool) (name : GmName) {count : List UInt8}
    {size : Nat} (number : gmNumber count = some size)
    (small : size ≤ gmstoreBlock) :
    gmLineOf [storeWord append, name.text, count] =
      .header append name size := by
  have few : ¬ gmstoreBlock < size := Nat.not_lt.mpr small
  cases append <;>
    simp [gmLineOf, gmNameOf_text, gmNamedLine, gmNamedLine.gmHeaderLine,
      storeWord, storeWords, number, few]

/-- The line of the next request is taken up. -/
theorem gmProcessLine_takes (rest : AtRest client)
    (split : requests = done ++ next :: todo)
    (served : Served done client.trace) (pending : client.pending = .none)
    (input : client.input = next.line ++ 10 :: more) (named : next.Named)
    (within : client.trace.received <+: stream requests)
    (fits : Accommodates store client) :
    InStep requests (gmProcessLine client store).1.logReply ∧
      Settled (gmProcessLine client store).1.logReply := by
  have taken := served.takeLine input
  have ready := rest.takeLine next
  have tokens := gmTokens_tokens next.accepted
  have completes := gmCompletes_line rest.idle pending input
  have form := next.form
  rw [gmProcessLine_request store input, gmCommand]
  rw [GmRequest.Named] at named
  generalize gmTokens [] next.line = parts
    at form completes named tokens ⊢
  generalize sent : next.payload = payload at form named
  cases form with
  | plain command args notWrite notAppend =>
    have replies := (gmCommandParts_settles command args).resolve_right
      fun storing => storing.1.elim notWrite notAppend
    have answered := (replies store).answered ready.idle
    rw [gmFinish_true answered.1]
    exact answered.inStep ready split taken pending sent
  | store append path count _ nonempty digits small size =>
    rcases tokens.nameOf (show path ∈ [storeWord append, path, count] by simp)
      with ⟨valid, name, _, rfl⟩ | ⟨invalid, _⟩
    · have number := gmNumber_digits nonempty digits
        (Nat.le_trans small (by decide))
      let caller := (client.takeLine next).awaits append name
        (decimalValue count)
      have parts : gmCommandParts [storeWord append, name.text, count]
          (client.takeLine next) store =
            ((gmPendingWrite caller store).1.live,
              gmPendingWrite caller store) :=
        gmCommandParts_store _ store nonempty digits small valid name.short
      have waits : caller.pending ≠ .none := by
        cases append <;> simp [caller, GmClient.awaits, storePending]
      have waiting : AtRest caller :=
        ⟨ready.live, ready.empty, ready.start, ready.received, ready.sent⟩
      have same : gmCompletes caller = gmCompletes client := by
        rw [completes, gmLineOf_store append name number small, gmCompletes,
          if_neg waiting.idle.sent, if_pos waits]
        cases append <;> rfl
      have step := gmPendingWrite_inStep waiting split taken waits
        (by rw [sent, size]; rfl) rfl within (by rwa [Accommodates, same])
      have stays := step.1.live
      rw [GmClient.logReply_live] at stays
      rw [parts, gmFinish_true stays]
      exact step
    · have noPayload : payload = [] := by
        by_contra some'
        have valid := named some'
        change gmNameValid path = true at valid
        rw [invalid] at valid
        cases valid
      have answered : Answered (client.takeLine next)
          (gmCommandParts [storeWord append, path, count]
            (client.takeLine next) store) := by
        rw [gmCommandParts_refused _ store invalid]
        exact (gmAnswer_replies (by decide) store).answered ready.idle
      rw [gmFinish_true answered.1]
      exact answered.inStep ready split taken pending (sent.trans noPayload)

theorem gmProcessLine_inStep (named : ∀ request ∈ requests, request.Named)
    (rest : AtRest client) (split : requests = done ++ todo)
    (served : Served done client.trace) (pending : client.pending = .none)
    (within : client.trace.received <+: stream requests)
    (fits : Accommodates store client) :
    InStep requests (gmProcessLine client store).1.logReply ∧
      Settled (gmProcessLine client store).1.logReply := by
  have inputWithin : client.input <+: stream todo := by
    have whole : stream (done ++ todo) = stream done ++ stream todo :=
      List.flatMap_append
    rw [rest.received, served.consumed, split, whole] at within
    exact (List.prefix_append_right_inj _).mp within
  by_cases newline : 10 ∈ client.input
  · cases todo with
    | nil =>
      rw [List.prefix_nil.mp inputWithin] at newline
      cases newline
    | cons next todo =>
      have first : stream (next :: todo) =
          next.line ++ 10 :: (next.payload ++ stream todo) := by
        simp [stream, GmRequest.bytes]
      rw [first] at inputWithin
      obtain ⟨more, input, _⟩ :=
        line_of_newline inputWithin newline next.no_newline
      have isNamed := named next (by simp [split])
      exact gmProcessLine_takes rest split served pending input isNamed
        within fits
  · have silent : client.logReply = client := if_pos rest.empty
    rw [gmProcessLine_wait store newline
      (short_of_no_newline inputWithin newline), silent]
    refine ⟨rest.inStep (.between done todo split served pending), ?_⟩
    intro _
    exact ⟨fun _ => newline, fun waits => absurd pending waits⟩

theorem gmProcessInput_inStep (named : ∀ request ∈ requests, request.Named)
    (inStep : InStep requests client)
    (within : client.trace.received <+: stream requests)
    (fits : Accommodates store client) :
    InStep requests (gmProcessInput client store).1 ∧
      Settled (gmProcessInput client store).1 := by
  rw [gmProcessInput]
  by_cases unsent : client.output.length ≠ client.outputPos
  · rw [if_pos unsent]
    refine ⟨inStep, ?_⟩
    intro empty
    have start := (inStep.atRest empty).start
    rw [empty, start] at unsent
    exact absurd rfl unsent
  have rest := inStep.atRest (inStep.empty_of_sent (by omega))
  rw [if_neg unsent]
  cases inStep.phase with
  | between done todo split served pending =>
    rw [if_neg (not_not_intro pending)]
    exact gmProcessLine_inStep named rest split served pending within fits
  | awaiting done todo next split taken pending count path quiet =>
    obtain ⟨name, isName⟩ := path
    rw [if_pos pending]
    exact gmPendingWrite_inStep rest split taken pending count isName within
      fits

end Gmker.Server
