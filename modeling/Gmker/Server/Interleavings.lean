import Gmker.Server.StoreRuns

/-!
# Interleavings of complete commands

Clients come and go and send complete commands, each with the payload that it
announces, and take the reply before they send the next one.  As long as every
payload has a place to go, the server completes exactly the commands that were
sent.
-/

namespace Gmker.Server

open Foundation Function

variable {count : Nat} {store : GmStore} {client : GmClient} {server : GmServer}
  {slot : Fin gmstoreClients}

/-! ## Messages -/

/-- The size of the payload that a line announces. -/
def gmAnnounced (parts : List (List UInt8)) : Nat :=
  if parts.length = 3 ∧
      (parts.getD 0 [] = ascii "WRITE" ∨ parts.getD 0 [] = ascii "APPEND") then
    (gmNumber (parts.getD 2 [])).getD 0
  else 0

/-- A complete command as a client may send it. -/
structure GmMessage where
  line : List UInt8
  carriageReturn : Bool := false
  payload : List UInt8 := []
  accepted : ¬ (gmstoreLine < line.length + 1 ∨
    line.any (fun symbol => symbol < 32 || 126 < symbol))
  asks : gmTokens [] line ≠ []
  size : payload.length = gmAnnounced (gmTokens [] line)

namespace GmMessage

/-- The line as it is sent, up to the newline. -/
def raw (message : GmMessage) : List UInt8 :=
  message.line ++ if message.carriageReturn then [13] else []

def bytes (message : GmMessage) : List UInt8 :=
  message.raw ++ 10 :: message.payload

/-- What the message asks the map for. -/
def meaning (message : GmMessage) : GmCommand :=
  match gmLineOf (gmTokens [] message.line) with
  | .blank => .refused .malformed
  | .command command => command
  | .header append name _ => .store append name message.payload

/-- A payload is sent only to a place that can take it. -/
def Fits (message : GmMessage) (store : GmStore) : Prop :=
  message.payload ≠ [] → ∃ append name count,
    gmLineOf (gmTokens [] message.line) = .header append name count ∧
      PathFree store.fs.tree store.root name

variable (message : GmMessage)

theorem printable {symbol : UInt8} (member : symbol ∈ message.line) :
    32 ≤ symbol := by
  by_contra low
  refine message.accepted (.inr (List.any_eq_true.mpr ⟨symbol, member, ?_⟩))
  simp [UInt8.not_le.mp low]

theorem no_newline : 10 ∉ message.raw := by
  intro member
  rcases List.mem_append.mp member with inLine | inEnd
  · exact absurd (message.printable inLine) (by decide)
  · split at inEnd
    · exact absurd (List.mem_singleton.mp inEnd) (by decide)
    · cases inEnd

theorem takeWhile_bytes (rest : List UInt8) :
    (message.bytes ++ rest).takeWhile (· != 10) = message.raw := by
  rw [bytes, List.append_assoc, List.takeWhile_append_of_pos]
  · simp
  · intro symbol member
    rw [bne_iff_ne]
    rintro rfl
    exact message.no_newline member

theorem strip_raw : gmStripReturn message.raw = message.line := by
  unfold gmStripReturn raw
  cases message.carriageReturn with
  | true => simp
  | false =>
    simp only [Bool.false_eq_true, if_false, List.append_nil]
    split
    · rename_i ends
      have member := List.mem_of_getLast? ends
      exact absurd (message.printable member) (by decide)
    · rfl

end GmMessage

theorem gmHeaderLine_header {kind append : Bool} {name text : GmName}
    {number : List UInt8}
    (isHeader : gmNamedLine.gmHeaderLine kind text number =
      .header append name count) :
    gmNumber number = some count ∧ count ≤ gmstoreBlock := by
  unfold gmNamedLine.gmHeaderLine at isHeader
  split at isHeader
  · cases isHeader
  · rename_i size isNumber
    split at isHeader
    · cases isHeader
    · rename_i small
      cases isHeader
      exact ⟨isNumber, Nat.not_lt.mp small⟩

theorem gmNamedLine_header {command : List UInt8} {text name : GmName}
    {args : List (List UInt8)} {append : Bool}
    (isHeader : gmNamedLine command text args = .header append name count) :
    (command = ascii "WRITE" ∨ command = ascii "APPEND") ∧ args.length = 1 ∧
      gmNumber (args.getD 0 []) = some count ∧ count ≤ gmstoreBlock := by
  unfold gmNamedLine at isHeader
  split at isHeader
  · cases isHeader
  split at isHeader
  · split at isHeader
    · split at isHeader <;> cases isHeader
    · cases isHeader
  split at isHeader
  · rename_i isWrite
    exact ⟨.inl isWrite.1, isWrite.2, gmHeaderLine_header isHeader⟩
  split at isHeader
  · rename_i isAppend
    exact ⟨.inr isAppend.1, isAppend.2, gmHeaderLine_header isHeader⟩
  split at isHeader <;> cases isHeader

/-- Only a line without tokens is blank. -/
theorem gmLineOf_blank {parts : List (List UInt8)}
    (isBlank : gmLineOf parts = .blank) : parts = [] := by
  unfold gmLineOf at isBlank
  split at isBlank
  · cases isBlank
  split at isBlank
  · assumption
  exfalso
  split at isBlank
  · cases isBlank
  split at isBlank
  · cases isBlank
  rcases parts with _ | ⟨command, _ | ⟨text, args⟩⟩
  · cases isBlank
  · cases isBlank
  · simp only at isBlank
    split at isBlank
    · unfold gmNamedLine gmNamedLine.gmHeaderLine at isBlank
      grind
    · cases isBlank

/-- A header announces its payload, and not too much of it. -/
theorem gmLineOf_header {parts : List (List UInt8)} {append : Bool}
    {name : GmName} (isHeader : gmLineOf parts = .header append name count) :
    gmAnnounced parts = count ∧ count ≤ gmstoreBlock := by
  unfold gmLineOf at isHeader
  split at isHeader
  · cases isHeader
  split at isHeader
  · cases isHeader
  split at isHeader
  · cases isHeader
  split at isHeader
  · cases isHeader
  rcases parts with _ | ⟨command, _ | ⟨text, args⟩⟩
  · cases isHeader
  · cases isHeader
  · simp only at isHeader
    split at isHeader
    · obtain ⟨word, one, number, small⟩ := gmNamedLine_header isHeader
      obtain ⟨size, rfl⟩ := List.length_eq_one_iff.mp one
      exact ⟨(if_pos ⟨rfl, word⟩).trans
        (congrArg (Option.getD · 0) number), small⟩
    · cases isHeader

/-- A message whose payload has a place to go fits the input. -/
theorem GmMessage.bytes_short (message : GmMessage) (fits : message.Fits store) :
    message.bytes.length ≤ gmstoreInput := by
  have payload : message.payload.length ≤ 1024 := by
    by_cases empty : message.payload = []
    · rw [empty]
      exact Nat.zero_le _
    · obtain ⟨_, _, count, isHeader, _⟩ := fits empty
      obtain ⟨announced, small⟩ := gmLineOf_header isHeader
      rw [message.size, announced]
      exact small
  have line : message.line.length ≤ 511 := by
    have short := (not_or.mp message.accepted).1
    have capacity : gmstoreLine = 512 := rfl
    omega
  have raw : message.raw.length ≤ 512 := by
    rw [GmMessage.raw, List.length_append]
    split <;> simp <;> omega
  rw [GmMessage.bytes, List.length_append, List.length_cons]
  have capacity : gmstoreInput = 4096 := rfl
  omega

/-! ## One message -/

/-- A connected client with nothing left to read or to send. -/
structure Quiet (client : GmClient) : Prop where
  live : client.live = true
  output : client.output = []
  start : client.outputPos = 0
  pending : client.pending = .none
  input : client.input = []

/-- A connected client with a reply to send. -/
structure Waiting (client : GmClient) : Prop where
  live : client.live = true
  output : client.output ≠ []
  fits : client.output.length ≤ gmstoreOutput
  start : client.outputPos = 0
  pending : client.pending = .none
  input : client.input = []

theorem Quiet.idle (quiet : Quiet client) : client.Idle :=
  ⟨quiet.live, quiet.output, quiet.start⟩

theorem Waiting.logReply (waiting : Waiting client) :
    Waiting client.logReply := by
  rw [GmClient.logReply, if_neg waiting.output]
  exact ⟨waiting.live, waiting.output, waiting.fits, waiting.start,
    waiting.pending, waiting.input⟩

theorem Quiet.logReply (quiet : Quiet client) : client.logReply = client := by
  rw [GmClient.logReply, if_pos quiet.output]

/-- A payload with a place to go is stored, and an empty one leaves nothing. -/
theorem gmPendingWrite_waiting (idle : client.Idle) (sound : store.Sound)
    (awaited : client.pending ≠ .none) {name : GmName}
    (path : client.pendingPath = name.text)
    (whole : client.input.length = client.pendingCount)
    (free : client.input ≠ [] → PathFree store.fs.tree store.root name) :
    Waiting (gmPendingWrite client store).1 := by
  have enough : ¬ client.input.length < client.pendingCount := by omega
  obtain ⟨error, fs, stored, _, _, outcome⟩ :=
    gmStorePayload_object name sound.reliable sound.rootDir
      (client.pending = .append) (client.input.take client.pendingCount)
  rw [← path] at stored
  change client.storePayload store = (error, fs) at stored
  rw [gmPendingWrite_complete awaited enough idle.empty, stored]
  obtain ⟨live, start, pending, output, fits⟩ :=
    GmClient.settled_answers error idle.start
  refine ⟨live.trans idle.live, output, fits, start, pending, ?_⟩
  rcases outcome with ⟨failed, _, _, blocked⟩ | ⟨rfl, _⟩
  · obtain ⟨error, rfl⟩ := Option.ne_none_iff_exists'.mp failed
    by_contra some'
    exact blocked (free some')
  · exact List.drop_eq_nil_of_le (Nat.le_of_eq whole)

/-- A quiet client's message is taken up as a whole. -/
theorem gmProcessInput_message (quiet : Quiet client) (sound : store.Sound)
    (message : GmMessage) (fits : message.Fits store) :
    gmCompletes (client.receive message.bytes) = some message.meaning ∧
      Waiting (gmProcessInput (client.receive message.bytes) store).1 := by
  have input : (client.receive message.bytes).input = message.bytes := by
    rw [GmClient.receive, quiet.input, List.nil_append]
  have raw : message.bytes.takeWhile (· != 10) = message.raw := by
    have cut := message.takeWhile_bytes []
    rwa [List.append_nil] at cut
  have longer : ¬ message.raw.length = message.bytes.length := by
    rw [GmMessage.bytes, List.length_append, List.length_cons]
    omega
  have rest : message.bytes.drop (message.raw.length + 1) = message.payload := by
    rw [GmMessage.bytes, ← List.drop_drop, List.drop_left]
    rfl
  have received : (client.receive message.bytes).Idle :=
    ⟨quiet.live, quiet.output, quiet.start⟩
  have noPending : ¬ (client.receive message.bytes).pending ≠ .none :=
    not_not_intro quiet.pending
  generalize called : (gmInputConsume (message.raw.length + 1)
    (client.receive message.bytes)).logCommand message.line = caller
  have idle : caller.Idle := by
    rw [← called]
    exact ⟨quiet.live, quiet.output, quiet.start⟩
  have callerQuiet : caller.pending = .none := by
    rw [← called]
    exact quiet.pending
  have callerInput : caller.input = message.payload := by
    rw [← called, ← rest]
    change (client.receive message.bytes).input.drop _ = _
    rw [input]
  have process : gmProcessInput (client.receive message.bytes) store =
      ((gmFinish (gmCommand message.line caller store)).1.logReply,
        (gmFinish (gmCommand message.line caller store)).2) := by
    rw [gmProcessInput_idle received, if_neg noPending, gmProcessLine, input, raw]
    simp only [if_neg longer, message.strip_raw, if_neg message.accepted, called]
  have completes : gmCompletes (client.receive message.bytes) =
      (gmLineOf (gmTokens [] message.line)).completes message.payload := by
    rw [gmCompletes, if_neg received.sent, if_neg noPending, gmCommandAhead,
      input, raw]
    simp only [if_neg longer, message.strip_raw, if_neg message.accepted, rest]
  have done := gmCommandParts_done idle sound (gmTokens_tokens message.accepted)
  rw [completes, process, GmMessage.meaning, gmCommand]
  cases meaning : gmLineOf (gmTokens [] message.line) with
  | blank => exact absurd (gmLineOf_blank meaning) message.asks
  | command command =>
    rw [meaning] at done
    have answered : AnsweredAs command caller store
      (gmCommandParts (gmTokens [] message.line) caller store) := done
    have noPayload : message.payload = [] := by
      by_contra some'
      obtain ⟨append, name, count, isHeader, _⟩ := fits some'
      rw [meaning] at isHeader
      cases isHeader
    refine ⟨rfl, Waiting.logReply ?_⟩
    rw [gmFinish_true answered.stays]
    obtain ⟨output, same⟩ := answered.only
    have replied := answered.replied
    have bounded := answered.fits
    rw [same] at replied bounded ⊢
    exact ⟨idle.live, replied, bounded, idle.start, callerQuiet,
      callerInput.trans noPayload⟩
  | header append name count =>
    rw [meaning] at done
    have taken : gmCommandParts (gmTokens [] message.line) caller store =
        ((gmPendingWrite (caller.awaits append name count) store).1.live,
          gmPendingWrite (caller.awaits append name count) store) := done
    have size : message.payload.length = count := by
      rw [message.size]
      exact (gmLineOf_header meaning).1
    refine ⟨?_, Waiting.logReply ?_⟩
    · simp only [GmLine.completes, gmPayloadOf, gmNameOf_text, size,
        lt_self_iff_false, if_false]
      rw [← size, List.take_length]
    · have awaits : (caller.awaits append name count).Idle :=
        ⟨idle.live, idle.empty, idle.start⟩
      have awaited : (caller.awaits append name count).pending ≠ .none := by
        cases append <;> simp [GmClient.awaits, storePending]
      have free : message.payload ≠ [] →
          PathFree store.fs.tree store.root name := by
        intro some'
        obtain ⟨_, other, _, isHeader, free⟩ := fits some'
        rw [meaning] at isHeader
        cases isHeader
        exact free
      have waiting := gmPendingWrite_waiting awaits sound awaited rfl
        (show caller.input.length = count by rw [callerInput]; exact size)
        (show caller.input ≠ [] → _ by rw [callerInput]; exact free)
      rw [taken, gmFinish_true waiting.live]
      exact waiting

/-! ## Taking a reply -/

/-- A client that takes everything that waits for it. -/
def takeReplies : GmEvents := { writable := some [.bytes 65535] }

theorem gmTakesUp_reply (waiting : Waiting client) :
    ∃ ready, gmTakesUp takeReplies client = some ready ∧ Quiet ready := by
  have more : client.outputPos < client.output.length := by
    rw [waiting.start]
    exact List.length_pos_iff.mpr waiting.output
  have all : ¬ (client.send 65536).outputPos <
      (client.send 65536).output.length := by
    have fits := waiting.fits
    have capacity : gmstoreOutput = 16384 := rfl
    simp only [GmClient.send, List.length_take, List.length_drop]
    omega
  refine ⟨{ client.send 65536 with output := [], outputPos := 0 }, ?_, ?_⟩
  · rw [gmTakesUp, if_neg (by simp [waiting.live]), if_neg (by simp [takeReplies]),
      if_pos more]
    change gmDrained [.bytes 65535] client = _
    rw [gmDrained, if_pos more]
    change gmDrained [] (client.send 65536) = _
    rw [gmDrained, if_neg all]
  · exact ⟨waiting.live, rfl, rfl, waiting.pending, waiting.input⟩

theorem gmProcessInput_quiet (quiet : Quiet client) (store : GmStore) :
    gmCompletes client = none ∧ gmProcessInput client store = (client, store) := by
  have noPending : ¬ client.pending ≠ .none := not_not_intro quiet.pending
  constructor
  · rw [gmCompletes, if_neg quiet.idle.sent, if_neg noPending, quiet.input]
    rfl
  · rw [gmProcessInput_idle quiet.idle, if_neg noPending, gmProcessLine,
      quiet.input]
    simp only [List.takeWhile_nil, if_true, List.length_nil]
    rw [if_neg (by decide), quiet.logReply]

/-! ## Interleavings -/

/-- What clients do: connect, leave, or exchange a message for its reply. -/
inductive GmAction where
  | connect (slot : Fin gmstoreClients)
  | leave (slot : Fin gmstoreClients)
  | send (slot : Fin gmstoreClients) (message : GmMessage)

/-- The steps of the server for an action. -/
def GmAction.steps : GmAction → List GmServerStep
  | .connect slot => [.accept, .client slot takeReplies]
  | .leave slot => [.client slot { hangup := true }]
  | .send slot message =>
    [.client slot { readable := some (.bytes message.bytes) },
      .client slot takeReplies]

/-- The command that is sent with an action. -/
def GmAction.sent : GmAction → List (Fin gmstoreClients × GmCommand)
  | .connect _ => []
  | .leave _ => []
  | .send slot message => [(slot, message.meaning)]

/-- A connection gets the first free entry; commands come from connected clients
and bring a payload only if it has a place to go. -/
def GmAction.Meets (server : GmServer) : GmAction → Prop
  | .connect slot =>
    (List.finRange gmstoreClients).find?
      (fun slot => !(server.clients slot).live) = some slot
  | .leave _ => True
  | .send slot message =>
    (server.clients slot).live = true ∧ message.Fits server.store

/-- Every action meets its condition when it is its turn. -/
def AllMeet : List GmAction → GmServer → Prop
  | [], _ => True
  | action :: actions, server =>
    action.Meets server ∧ AllMeet actions (gmServe action.steps server)

/-- Every client is quiet or gone. -/
def AllQuiet (server : GmServer) : Prop :=
  ∀ slot, (server.clients slot).live = true → Quiet (server.clients slot)

/-- The server between actions. -/
structure Resting (server : GmServer) : Prop where
  order : InOrder server
  quiet : AllQuiet server

theorem GmAction.steps_ours (action : GmAction) :
    ∀ step ∈ action.steps, step.Ours := by
  cases action <;> simp [GmAction.steps, GmServerStep.Ours]

theorem AllQuiet.served (quiet : AllQuiet server) {after : GmServer}
    (others : after.clients = update server.clients slot client)
    (own : client.live = true → Quiet client) : AllQuiet after := by
  unfold AllQuiet
  rw [others]
  exact (forall_update_iff server.clients fun _ client => client.live = true →
    Quiet client).mpr ⟨own, fun other _ => quiet other⟩

theorem gmServerStep_clients (server : GmServer) (slot : Fin gmstoreClients)
    (events : GmEvents) :
    (gmServerStep server (.client slot events)).clients = update server.clients
      slot (gmClientPoll events (server.clients slot) server.store).1 := rfl

/-- A client gets a reply and takes it, and nothing else happens. -/
theorem gmServe_exchange (quiet : AllQuiet server) {first : GmServerStep}
    (others : (gmServerStep server first).clients =
      update server.clients slot client) (waiting : Waiting client) :
    AllQuiet (gmServe [first, .client slot takeReplies] server) ∧
      gmServedRun [first, .client slot takeReplies] server =
        gmServedBy server first := by
  have own : (gmServerStep server first).clients slot = client := by
    rw [others, update_self]
  obtain ⟨ready, takes, ended⟩ := gmTakesUp_reply waiting
  obtain ⟨completes, processed⟩ :=
    gmProcessInput_quiet ended (gmServerStep server first).store
  rw [← own] at takes
  have last : (gmServe [first, .client slot takeReplies] server).clients =
      update server.clients slot ready := by
    refine (gmServerStep_clients _ slot takeReplies).trans ?_
    rw [gmClientPoll_ready takes, processed, others, update_idem]
  constructor
  · exact quiet.served last fun _ => ended
  · change _ ++ (gmServedBy _ (.client slot takeReplies) ++ []) = _
    simp [gmServedBy, takes, completes]

theorem gmServedRun_append (first second : List GmServerStep)
    (server : GmServer) :
    gmServedRun (first ++ second) server =
      gmServedRun first server ++ gmServedRun second (gmServe first server) := by
  induction first generalizing server with
  | nil => rfl
  | cons step first induction =>
    rw [List.cons_append, gmServedRun, gmServedRun, induction,
      List.append_assoc]
    rfl

theorem gmClientPoll_hangup (client : GmClient) (store : GmStore) :
    (gmClientPoll { hangup := true } client store).1.live = false := by
  cases live : client.live with
  | false => simp [gmClientPoll, live]
  | true => simp [gmClientPoll, live, gmClientClose, gmClientReset]

theorem gmServe_leave (rest : Resting server) (slot : Fin gmstoreClients) :
    AllQuiet (gmServe (GmAction.leave slot).steps server) ∧
      gmServedRun (GmAction.leave slot).steps server = [] := by
  constructor
  · refine rest.quiet.served (gmServerStep_clients server slot _) ?_
    intro live
    rw [gmClientPoll_hangup] at live
    cases live
  · have nothing : gmTakesUp { hangup := true } (server.clients slot) =
        none := by
      unfold gmTakesUp
      split <;> rfl
    simp [GmAction.steps, gmServedRun, gmServedBy, nothing]

theorem gmServe_connect (rest : Resting server)
    (meets : (GmAction.connect slot).Meets server) :
    AllQuiet (gmServe (GmAction.connect slot).steps server) ∧
      gmServedRun (GmAction.connect slot).steps server = [] := by
  have added : (gmServerStep server .accept).clients =
      update server.clients slot gmClientStart := by
    change (gmClientAdd server).clients = _
    rw [gmClientAdd, meets]
  exact gmServe_exchange rest.quiet added
    ⟨rfl, by decide, by decide, rfl, rfl, rfl⟩

theorem gmServe_send (rest : Resting server) {message : GmMessage}
    (meets : (GmAction.send slot message).Meets server) :
    AllQuiet (gmServe (GmAction.send slot message).steps server) ∧
      ∃ reply, gmServedRun (GmAction.send slot message).steps server =
        [(slot, message.meaning, reply)] := by
  obtain ⟨live, fits⟩ := meets
  have quiet := rest.quiet slot live
  obtain ⟨completes, waiting⟩ :=
    gmProcessInput_message quiet rest.order.sound message fits
  have takes : gmTakesUp { readable := some (.bytes message.bytes) }
      (server.clients slot) =
        some ((server.clients slot).receive message.bytes) := by
    have short := message.bytes_short fits
    have room : ¬ (server.clients slot).input.length = gmstoreInput := by
      rw [quiet.input]
      decide
    rw [gmTakesUp, if_neg (by simp [live]), if_neg Bool.false_ne_true,
      if_neg (by simp [quiet.output, quiet.start])]
    change gmReceived (.bytes message.bytes) (server.clients slot) = _
    rw [gmReceived, if_neg room, quiet.input]
    simp only [List.length_nil, Nat.sub_zero,
      List.take_of_length_le short]
    rw [if_neg (by simp [GmMessage.bytes])]
  have others : (gmServerStep server (.client slot
      { readable := some (.bytes message.bytes) })).clients =
      update server.clients slot (gmProcessInput
        ((server.clients slot).receive message.bytes) server.store).1 := by
    rw [gmServerStep_clients, gmClientPoll_ready takes]
  obtain ⟨after, served⟩ := gmServe_exchange rest.quiet others waiting
  simp only [gmServedBy, takes, completes] at served
  exact ⟨after, _, served⟩

/-- The server completes the command of an action, and no other. -/
theorem gmServe_action (rest : Resting server) {action : GmAction}
    (meets : action.Meets server) :
    Resting (gmServe action.steps server) ∧
      (gmServedRun action.steps server).map
        (fun served => (served.1, served.2.1)) = action.sent := by
  have order := (gmServe_refines action.steps server rest.order
    action.steps_ours).1
  cases action with
  | leave slot =>
    obtain ⟨quiet, served⟩ := gmServe_leave rest slot
    rw [served]
    exact ⟨⟨order, quiet⟩, rfl⟩
  | connect slot =>
    obtain ⟨quiet, served⟩ := gmServe_connect rest meets
    rw [served]
    exact ⟨⟨order, quiet⟩, rfl⟩
  | send slot message =>
    obtain ⟨quiet, reply, served⟩ := gmServe_send rest meets
    rw [served]
    exact ⟨⟨order, quiet⟩, rfl⟩

theorem gmServe_actions (actions : List GmAction) (rest : Resting server)
    (meet : AllMeet actions server) :
    Resting (gmServe (actions.flatMap GmAction.steps) server) ∧
      (gmServedRun (actions.flatMap GmAction.steps) server).map
        (fun served => (served.1, served.2.1)) =
          actions.flatMap GmAction.sent := by
  induction actions generalizing server with
  | nil => exact ⟨rest, rfl⟩
  | cons action actions induction =>
    obtain ⟨middle, first⟩ := gmServe_action rest meet.1
    obtain ⟨after, others⟩ := induction middle meet.2
    have run : gmServe ((action :: actions).flatMap GmAction.steps) server =
        gmServe (actions.flatMap GmAction.steps)
          (gmServe action.steps server) := by
      rw [List.flatMap_cons, gmServe, gmServe, gmServe, List.foldl_append]
    rw [run]
    refine ⟨after, ?_⟩
    rw [List.flatMap_cons, List.flatMap_cons, gmServedRun_append,
      List.map_append, first, others]

/-- Whatever the clients send, the commands that the server completes are
answered as the map answers them; and as long as every payload has a place to
go, these are exactly the commands that were sent. -/
theorem gmServe_answers_commands (store : GmStore) (sound : store.Sound) :
    (∀ steps : List GmServerStep, (∀ step ∈ steps, step.Ours) →
      MapRun (gmObjects store) (gmServedRun steps { store := store })
        (gmObjects (gmServe steps { store := store }).store)) ∧
    (∀ actions : List GmAction, AllMeet actions { store := store } →
      (gmServedRun (actions.flatMap GmAction.steps) { store := store }).map
        (fun served => (served.1, served.2.1)) =
          actions.flatMap GmAction.sent) := by
  refine ⟨fun steps ours => gmServe_commands sound steps ours, ?_⟩
  intro actions meet
  have rest : Resting { store := store } := by
    refine ⟨⟨sound, fun _ => ⟨.inl ⟨rfl, rfl⟩, fun waits => absurd rfl waits⟩⟩,
      ?_⟩
    intro slot live
    cases live
  exact (gmServe_actions actions rest meet).2

def putMessage : GmMessage where
  line := ascii "WRITE /d/a 3"
  payload := ascii "abc"
  accepted := by decide
  asks := by decide
  size := by decide

def extendMessage : GmMessage where
  line := ascii "APPEND /d/a 2"
  carriageReturn := true
  payload := ascii "de"
  accepted := by decide
  asks := by decide
  size := by decide

def readMessage : GmMessage where
  line := ascii "READ /d/a 1 9"
  accepted := by decide
  asks := by decide
  size := by decide

def statMessage : GmMessage where
  line := ascii "STAT /d/a"
  accepted := by decide
  asks := by decide
  size := by decide

/-- A name below a regular file. -/
def belowMessage : GmMessage where
  line := ascii "WRITE /d/a/b 1"
  payload := ascii "x"
  accepted := by decide
  asks := by decide
  size := by decide

instance gmstoreClients_neZero : NeZero gmstoreClients := ⟨by decide⟩

/-- Two clients that work on one object. -/
def sharedActions : List GmAction :=
  [ .connect 0, .connect 1, .send 0 putMessage, .send 1 extendMessage,
    .send 0 readMessage, .leave 0, .send 1 statMessage ]

def sharedName : GmName := ⟨ascii "/d/a", by decide, by decide, by decide⟩

theorem gmServe_answers_commands_shared :
    (gmServedRun (sharedActions.flatMap GmAction.steps)
        { store := emptyStore }).map (fun served => (served.1, served.2.1)) =
      sharedActions.flatMap GmAction.sent ∧
    (gmServedRun (sharedActions.flatMap GmAction.steps)
        { store := emptyStore }).map (fun served => served.2.2) =
      [ ascii "OK" ++ [10], ascii "OK" ++ [10],
        ascii "OK 4" ++ 10 :: ascii "bcde", ascii "OK 5" ++ [10] ] := by
  refine ⟨?_, by decide +kernel⟩
  apply (gmServe_answers_commands emptyStore ⟨fun _ => rfl, rfl⟩).2
  refine ⟨?_, ?_, ⟨?_, ?_⟩, ⟨?_, ?_⟩, ⟨?_, ?_⟩, trivial, ⟨?_, ?_⟩, trivial⟩
  · change _ = _
    decide +kernel
  · change _ = _
    decide +kernel
  · decide +kernel
  · exact fun _ => ⟨false, sharedName, 3, by decide +kernel, by decide +kernel⟩
  · decide +kernel
  · exact fun _ => ⟨true, sharedName, 2, by decide +kernel, by decide +kernel⟩
  · decide +kernel
  · exact fun payload => absurd rfl payload
  · decide +kernel
  · exact fun payload => absurd rfl payload

/-- The payload of a refused `WRITE` spoils the command behind it: the object is
there, but `STAT` is answered with an error. -/
theorem gmServe_answers_wrong_command :
    let actions : List GmAction :=
      [ .connect 0, .send 0 putMessage, .send 0 belowMessage,
        .send 0 statMessage ]
    let server := gmServe (actions.flatMap GmAction.steps)
      { store := emptyStore }
    (gmServedRun (actions.flatMap GmAction.steps)
        { store := emptyStore }).map (fun served => served.2.2) =
      [ ascii "OK" ++ [10], ascii "ERR path" ++ [10],
        ascii "ERR syntax" ++ [10] ] ∧
    (server.clients 0).trace.received = putMessage.bytes ++
      belowMessage.bytes ++ statMessage.bytes ∧
    (server.store.fs.tree.lookup [ascii "d", ascii "a"]) =
      some (.file (ascii "abc")) := by
  decide +kernel

end Gmker.Server
