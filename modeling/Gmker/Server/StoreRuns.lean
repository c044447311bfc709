import Gmker.Server.StoreMap

/-!
# Runs of the store server

A pass of the poll loop over a client moves bytes between its buffers and the
sockets and then calls `gm_process_input` at most once.  So every run completes
its commands one after the other, and the replies are those of the map.
-/

namespace Gmker.Server

open Foundation Function

variable {client ready : GmClient}

/-! ## What a pass hands to `gm_process_input` -/

/-- The client behind the sending loop of `gm_client_write`. -/
def gmDrained : List GmSend → GmClient → Option GmClient
  | sends, client =>
    if client.outputPos < client.output.length then
      match sends with
      | .bytes more :: sends => gmDrained sends (client.send (more + 1))
      | .again :: _ => none
      | .failed :: _ => none
      | [] => none
    else some { client with output := [], outputPos := 0 }

/-- Bytes reach the input. -/
def GmClient.receive (client : GmClient) (data : List UInt8) : GmClient :=
  { client with
    input := client.input ++ data
    trace :=
      { client.trace with received := client.trace.received ++ data } }

/-- The client behind the call of `recv` in `gm_client_read`. -/
def gmReceived (recv : GmRecv) (client : GmClient) : Option GmClient :=
  if client.input.length = gmstoreInput then some client
  else
    match recv with
    | .failed => none
    | .again => some client
    | .bytes data =>
      let data := data.take (gmstoreInput - client.input.length)
      if data = [] then none else some (client.receive data)

/-- The client for which a pass of the loop calls `gm_process_input`. -/
def gmTakesUp (events : GmEvents) (client : GmClient) : Option GmClient :=
  if client.live = false then none
  else if events.hangup then none
  else if client.outputPos < client.output.length then
    events.writable.bind fun sends => gmDrained sends client
  else events.readable.bind fun recv => gmReceived recv client

/-- How a pass ends, given the client that it takes up. -/
def PassEnds (ready : Option GmClient) (store : GmStore)
    (result : GmClient × GmStore) : Prop :=
  match ready with
  | some ready => result = gmProcessInput ready store
  | none => result.2 = store

theorem gmClientWrite_drained (sends : List GmSend) (client : GmClient)
    (store : GmStore) :
    PassEnds (gmDrained sends client) store
      (gmClientWrite sends client store) := by
  induction sends generalizing client with
  | nil =>
    unfold gmDrained gmClientWrite
    split
    · rfl
    · rfl
  | cons send sends induction =>
    unfold gmDrained gmClientWrite
    split
    · cases send with
      | again => rfl
      | failed => rfl
      | bytes more => exact induction (client.send (more + 1))
    · rfl

theorem gmClientRead_received (recv : GmRecv) (client : GmClient)
    (store : GmStore) :
    PassEnds (gmReceived recv client) store
      (gmClientRead recv client store) := by
  unfold gmReceived gmClientRead
  split
  · rfl
  · cases recv with
    | failed => rfl
    | again => rfl
    | bytes data =>
      simp only
      split <;> rfl

/-- A pass of the loop calls `gm_process_input`, or it leaves the store
alone. -/
theorem gmClientPoll_takesUp (events : GmEvents) (client : GmClient)
    (store : GmStore) :
    PassEnds (gmTakesUp events client) store
      (gmClientPoll events client store) := by
  unfold gmTakesUp gmClientPoll
  split
  · rfl
  split
  · rfl
  split
  · cases events.writable with
    | none => rfl
    | some sends => exact gmClientWrite_drained sends client store
  · cases events.readable with
    | none => rfl
    | some recv => exact gmClientRead_received recv client store

theorem gmClientPoll_ready {events : GmEvents}
    (takes : gmTakesUp events client = some ready) (store : GmStore) :
    gmClientPoll events client store = gmProcessInput ready store := by
  have pass := gmClientPoll_takesUp events client store
  rw [takes] at pass
  exact pass

/-! ## Clients stay proper -/

/-- The output is taken to be sent. -/
def GmClient.flushed (client : GmClient) : GmClient :=
  { client with
    output := []
    outputPos := 0
    trace :=
      { client.trace with
        sent := client.trace.sent ++ client.output.drop client.outputPos } }

theorem GmClient.Idle.flushed (idle : client.Idle) :
    client.flushed = client := by
  rw [GmClient.flushed, idle.empty, List.drop_nil, List.append_nil,
    ← idle.empty, ← idle.start]

theorem GmClient.send_flushed (client : GmClient) (count : Nat) :
    (client.send count).flushed = client.flushed := by
  have whole := List.prefix_iff_eq_append.mp
    (List.take_prefix count (client.output.drop client.outputPos))
  rw [List.drop_drop] at whole
  simp only [GmClient.flushed, GmClient.send, List.append_assoc, whole]

theorem GmClient.drained_flushed
    (drained : ¬ client.outputPos < client.output.length) :
    { client with output := [], outputPos := 0 } = client.flushed := by
  rw [GmClient.flushed, List.drop_of_length_le (by omega), List.append_nil]

theorem GmClient.receive_nil (client : GmClient) :
    client.receive [] = client := by
  rw [GmClient.receive, List.append_nil, List.append_nil]

theorem gmDrained_flushed {sends : List GmSend}
    (drained : gmDrained sends client = some ready) :
    ready = client.flushed := by
  fun_induction gmDrained sends client with
  | case1 client _ more sends induction =>
    rw [induction drained, GmClient.send_flushed]
  | case2 => cases drained
  | case3 => cases drained
  | case4 => cases drained
  | case5 client sends ended =>
    cases drained
    exact GmClient.drained_flushed ended

theorem gmReceived_feeds {recv : GmRecv}
    (received : gmReceived recv client = some ready) :
    ∃ data, ready = client.receive data ∧
      (client.input.length ≤ gmstoreInput →
        ready.input.length ≤ gmstoreInput) := by
  have same : ∃ data, client = client.receive data ∧
      (client.input.length ≤ gmstoreInput →
        client.input.length ≤ gmstoreInput) :=
    ⟨[], client.receive_nil.symm, id⟩
  revert received
  fun_cases gmReceived recv client <;> rintro ⟨⟩
  case case1 => exact same
  case case3 => exact same
  case case5 =>
    refine ⟨_, rfl, fun fits => ?_⟩
    change (client.input ++ _).length ≤ _
    rw [List.length_append, List.length_take]
    omega

/-- The client that a pass takes up is the one before, with its output sent and
what has arrived. -/
theorem gmTakesUp_feeds {events : GmEvents}
    (output : (client.output = [] ∧ client.outputPos = 0) ∨
      client.outputPos < client.output.length)
    (takes : gmTakesUp events client = some ready) :
    ready.Idle ∧ ∃ data, ready = client.flushed.receive data ∧
      (client.input.length ≤ gmstoreInput →
        ready.input.length ≤ gmstoreInput) := by
  unfold gmTakesUp at takes
  split at takes
  · cases takes
  rename_i connected
  have live : client.live = true := by simpa using connected
  split at takes
  · cases takes
  split at takes
  · obtain ⟨sends, _, drained⟩ := Option.bind_eq_some_iff.mp takes
    rw [gmDrained_flushed drained]
    exact ⟨⟨live, rfl, rfl⟩, [], client.flushed.receive_nil.symm, id⟩
  · rename_i sent
    obtain ⟨empty, start⟩ := output.resolve_right sent
    have idle : client.Idle := ⟨live, empty, start⟩
    obtain ⟨recv, _, received⟩ := Option.bind_eq_some_iff.mp takes
    obtain ⟨data, rfl, fits⟩ := gmReceived_feeds received
    rw [idle.flushed]
    exact ⟨⟨live, empty, start⟩, data, rfl, fits⟩

theorem gmTakesUp_received {events : GmEvents}
    (takes : gmTakesUp events client = some ready) :
    client.trace.received <+: ready.trace.received := by
  unfold gmTakesUp at takes
  split at takes
  · cases takes
  split at takes
  · cases takes
  split at takes
  · obtain ⟨sends, _, drained⟩ := Option.bind_eq_some_iff.mp takes
    rw [gmDrained_flushed drained]
    exact List.prefix_refl _
  · obtain ⟨recv, _, received⟩ := Option.bind_eq_some_iff.mp takes
    obtain ⟨data, rfl, _⟩ := gmReceived_feeds received
    exact List.prefix_append _ _

/-- The client that is taken up is connected and has nothing left to send. -/
theorem gmTakesUp_ready {events : GmEvents} (proper : Proper client)
    (takes : gmTakesUp events client = some ready) :
    ready.Idle ∧ Proper ready := by
  obtain ⟨idle, data, rfl, _⟩ := gmTakesUp_feeds proper.output takes
  exact ⟨idle, .inl ⟨idle.empty, idle.start⟩, proper.path⟩

/-- What a pass that takes nothing up does to a client. -/
structure Lingers (client after : GmClient) : Prop where
  flushed : after.flushed = client.flushed
  output : after = client ∨ client.outputPos < client.output.length ∧
    after.outputPos < after.output.length

theorem Lingers.refl (client : GmClient) : Lingers client client :=
  ⟨rfl, .inl rfl⟩

/-- The client lingers, or its connection ends. -/
def LingersOn (client after : GmClient) : Prop :=
  ∃ held, Lingers client held ∧ (after = held ∨ after = gmClientClose held)

theorem gmClientWrite_lingers {sends : List GmSend}
    (stuck : gmDrained sends client = none) (store : GmStore) :
    LingersOn client (gmClientWrite sends client store).1 := by
  fun_induction gmDrained sends client with
  | case1 client waiting more sends induction =>
    rw [gmClientWrite, if_pos waiting]
    obtain ⟨held, lingers, ends⟩ := induction stuck
    refine ⟨held, ⟨lingers.flushed.trans (client.send_flushed _),
      .inr ⟨waiting, ?_⟩⟩, ends⟩
    rcases lingers.output with rfl | ⟨_, waits⟩
    · by_contra ended
      unfold gmDrained at stuck
      rw [if_neg ended] at stuck
      cases stuck
    · exact waits
  | case2 client waiting sends =>
    rw [gmClientWrite, if_pos waiting]
    exact ⟨client, .refl client, .inl rfl⟩
  | case3 client waiting sends =>
    rw [gmClientWrite, if_pos waiting]
    exact ⟨client, .refl client, .inr rfl⟩
  | case4 client waiting =>
    rw [gmClientWrite, if_pos waiting]
    exact ⟨client, .refl client, .inl rfl⟩
  | case5 => cases stuck

/-- A pass that takes nothing up ends the connection or changes little. -/
theorem gmClientPoll_lingers {events : GmEvents}
    (nothing : gmTakesUp events client = none) (store : GmStore) :
    LingersOn client (gmClientPoll events client store).1 := by
  have stays : LingersOn client client := ⟨client, .refl client, .inl rfl⟩
  have ends : LingersOn client (gmClientClose client) :=
    ⟨client, .refl client, .inr rfl⟩
  revert nothing
  rw [gmTakesUp]
  fun_cases gmClientPoll events client store
  case case1 => exact fun _ => stays
  case case2 => exact fun _ => ends
  case case3 => exact fun _ => stays
  case case4 connected noHangup waiting sends writable =>
    rw [if_neg connected, if_neg noHangup, if_pos waiting, writable]
    exact fun stuck => gmClientWrite_lingers stuck store
  case case5 => exact fun _ => stays
  case case6 connected noHangup sent recv readable =>
    rw [if_neg connected, if_neg noHangup, if_neg sent, readable]
    change gmReceived recv client = none → _
    unfold gmReceived
    fun_cases gmClientRead recv client store
    case case1 full =>
      rw [if_pos full]
      exact nofun
    case case2 => exact fun _ => ends
    case case3 room =>
      rw [if_neg room]
      exact nofun
    case case4 => exact fun _ => ends
    case case5 room _ _ more =>
      rw [if_neg room]
      simp only
      rw [if_neg more]
      exact nofun

theorem gmClientClose_proper (client : GmClient) :
    Proper (gmClientClose client) :=
  ⟨.inl ⟨rfl, rfl⟩, fun waits => absurd rfl waits⟩

theorem Lingers.proper {after : GmClient} (lingers : Lingers client after)
    (proper : Proper client) : Proper after := by
  have flushed := lingers.flushed
  simp only [GmClient.flushed, GmClient.mk.injEq] at flushed
  obtain ⟨_, _, _, _, pending, _, path, _⟩ := flushed
  refine ⟨?_, ?_⟩
  · rcases lingers.output with rfl | ⟨_, waits⟩
    · exact proper.output
    · exact .inr waits
  · rw [pending, path]
    exact proper.path

/-- A pass that takes nothing up leaves a proper client. -/
theorem gmClientPoll_waiting {events : GmEvents} (proper : Proper client)
    (nothing : gmTakesUp events client = none) (store : GmStore) :
    Proper (gmClientPoll events client store).1 := by
  obtain ⟨held, lingers, same | closed⟩ := gmClientPoll_lingers nothing store
  · rw [same]
    exact lingers.proper proper
  · rw [closed]
    exact gmClientClose_proper held

/-! ## The run -/

theorem gmProcessInput_processed {store : GmStore} (idle : client.Idle)
    (proper : Proper client) (sound : store.Sound) :
    Processed client store (gmProcessInput client store).1
      (gmProcessInput client store).2 := by
  have completes : gmCompletes client =
      if client.pending ≠ .none then
        gmPayloadOf (client.pending = .append) client.pendingPath
          client.pendingCount client.input
      else gmCommandAhead client.input := if_neg idle.sent
  rw [gmProcessInput_idle idle]
  by_cases waiting : client.pending ≠ .none
  · obtain ⟨name, path⟩ := proper.path waiting
    obtain ⟨after, _, afterSound, answers⟩ :=
      gmPendingWrite_processed idle sound waiting path
    rw [if_pos waiting] at completes ⊢
    refine ⟨GmClient.logReply_proper after, afterSound, ?_⟩
    rw [completes, GmClient.logReply_output, path]
    exact answers
  · have quiet : client.pending = .none := by simpa using waiting
    obtain ⟨after, afterSound, answers⟩ :=
      gmProcessLine_processed idle sound quiet
    rw [if_neg waiting] at completes ⊢
    refine ⟨GmClient.logReply_proper after, afterSound, ?_⟩
    rw [completes, GmClient.logReply_output]
    exact answers

/-- A completed command with the client that sent it and the reply. -/
abbrev GmServed := Fin gmstoreClients × GmCommand × List UInt8

/-- The command that a step of the server completes, if any. -/
def gmServedBy (server : GmServer) : GmServerStep → List GmServed
  | .client slot events =>
    match gmTakesUp events (server.clients slot) with
    | none => []
    | some ready =>
      match gmCompletes ready with
      | none => []
      | some command =>
        [(slot, command, (gmProcessInput ready server.store).1.output)]
  | .accept => []
  | .outside _ => []

/-- The commands completed along a run, in the order of their completion. -/
def gmServedRun : List GmServerStep → GmServer → List GmServed
  | [], _ => []
  | step :: steps, server =>
    gmServedBy server step ++ gmServedRun steps (gmServerStep server step)

/-- Nobody else changes the files. -/
def GmServerStep.Ours : GmServerStep → Prop
  | .outside _ => False
  | .accept => True
  | .client _ _ => True

/-- A server whose store is sound and whose clients are proper. -/
structure InOrder (server : GmServer) : Prop where
  sound : server.store.Sound
  proper : ∀ slot, Proper (server.clients slot)

theorem gmClientStart_proper : Proper gmClientStart :=
  ⟨.inr (by decide), fun waits => absurd rfl waits⟩

theorem gmClientAdd_inOrder {server : GmServer} (order : InOrder server) :
    InOrder (gmClientAdd server) ∧ (gmClientAdd server).store = server.store := by
  unfold gmClientAdd
  split
  · exact ⟨order, rfl⟩
  · refine ⟨⟨order.sound, ?_⟩, rfl⟩
    exact (forall_update_iff _ fun _ => Proper).mpr
      ⟨gmClientStart_proper, fun other _ => order.proper other⟩

/-- A step of the server makes the steps of the map that it completes. -/
theorem gmServerStep_refines {server : GmServer} (order : InOrder server)
    {step : GmServerStep} (ours : step.Ours) :
    InOrder (gmServerStep server step) ∧
      MapRun (gmObjects server.store) (gmServedBy server step)
        (gmObjects (gmServerStep server step).store) := by
  cases step with
  | outside fs => exact ours.elim
  | accept =>
    obtain ⟨after, store⟩ := gmClientAdd_inOrder order
    refine ⟨after, ?_⟩
    change MapRun _ [] (gmObjects (gmClientAdd server).store)
    rw [store]
    exact .nil _
  | client slot events =>
    obtain ⟨after, sound, run⟩ : Proper (gmClientPoll events
          (server.clients slot) server.store).1 ∧
        (gmClientPoll events (server.clients slot) server.store).2.Sound ∧
        MapRun (gmObjects server.store) (gmServedBy server
          (.client slot events)) (gmObjects (gmClientPoll events
            (server.clients slot) server.store).2) := by
      rw [gmServedBy]
      cases takes : gmTakesUp events (server.clients slot) with
      | none =>
        have pass := gmClientPoll_takesUp events (server.clients slot)
          server.store
        rw [takes] at pass
        have store : (gmClientPoll events (server.clients slot)
          server.store).2 = server.store := pass
        rw [store]
        exact ⟨gmClientPoll_waiting (order.proper slot) takes _,
          order.sound, .nil _⟩
      | some ready =>
        obtain ⟨idle, proper⟩ := gmTakesUp_ready (order.proper slot) takes
        obtain ⟨after, sound, answers⟩ :=
          gmProcessInput_processed idle proper order.sound
        rw [gmClientPoll_ready takes]
        refine ⟨after, sound, ?_⟩
        cases completes : gmCompletes ready with
        | none =>
          rw [completes] at answers
          have same : gmObjects (gmProcessInput ready server.store).2 =
            gmObjects server.store := answers
          simp only [completes, same]
          exact .nil _
        | some command =>
          rw [completes] at answers
          simp only [completes]
          exact .cons answers (.nil _)
    refine ⟨⟨sound, ?_⟩, run⟩
    exact (forall_update_iff _ fun _ => Proper).mpr
      ⟨after, fun other _ => order.proper other⟩

theorem gmServe_refines (steps : List GmServerStep) (server : GmServer)
    (order : InOrder server) (ours : ∀ step ∈ steps, step.Ours) :
    InOrder (gmServe steps server) ∧
      MapRun (gmObjects server.store) (gmServedRun steps server)
        (gmObjects (gmServe steps server).store) := by
  induction steps generalizing server with
  | nil => exact ⟨order, .nil _⟩
  | cons step steps induction =>
    obtain ⟨middle, first⟩ :=
      gmServerStep_refines order (ours step List.mem_cons_self)
    obtain ⟨after, rest⟩ := induction (gmServerStep server step) middle
      (fun later member => ours later (List.mem_cons_of_mem _ member))
    exact ⟨after, first.append rest⟩

/-- The commands of a run from a server without clients. -/
theorem gmServe_commands {store : GmStore} (sound : store.Sound)
    (steps : List GmServerStep) (ours : ∀ step ∈ steps, step.Ours) :
    MapRun (gmObjects store) (gmServedRun steps { store := store })
      (gmObjects (gmServe steps { store := store }).store) := by
  have order : InOrder { store := store } :=
    ⟨sound, fun _ => ⟨.inl ⟨rfl, rfl⟩, fun waits => absurd rfl waits⟩⟩
  exact (gmServe_refines steps { store := store } order ours).2

end Gmker.Server
