import Gmker.Server.Phases
import Gmker.Server.StoreRuns

/-!
# Framing of requests

As long as every payload has a place to go when it is complete, the server takes
exactly the lines of the requests for commands, consumes every payload with its
header, and gives one reply to each request, however the bytes come in and the
replies go out.
-/

namespace Gmker.Server

open Foundation Function

variable {client : GmClient} {requests : List GmRequest}

/-- The invariant of one client. -/
def Keeps (requests : List GmRequest) (client : GmClient) : Prop :=
  client.trace.received <+: stream requests →
    Framed requests client.trace ∧ client.trace.sent <+: said client.trace ∧
      (client.live = true → InStep requests client ∧ Settled client)

theorem InStep.keeps (inStep : InStep requests client)
    (settled : Settled client) :
    Framed requests client.trace ∧ client.trace.sent <+: said client.trace ∧
      (client.live = true → InStep requests client ∧ Settled client) :=
  ⟨inStep.phase.framed, ⟨_, inStep.sent⟩, fun _ => ⟨inStep, settled⟩⟩

theorem Keeps.close (keeps : Keeps requests client) :
    Keeps requests (gmClientClose client) := by
  intro within
  obtain ⟨framed, sent, _⟩ := keeps within
  refine ⟨framed, sent, ?_⟩
  intro live
  cases live

theorem Lingers.inStep {held : GmClient} (lingers : Lingers client held)
    (inStep : InStep requests client) : InStep requests held := by
  rcases lingers.output with rfl | ⟨waited, waits⟩
  · exact inStep
  have flushed := lingers.flushed
  simp only [GmClient.flushed, GmClient.mk.injEq, GmTrace.mk.injEq] at flushed
  obtain ⟨live, input, _, _, pending, _, _, received, consumed, commands,
    replies, sent⟩ := flushed
  cases inStep.phase with
  | awaiting done todo next split taken _ _ _ quiet => simp [quiet] at waited
  | between done todo split served quiet =>
    refine ⟨live.trans inStep.live, .between done todo split ?_
      (pending.trans quiet), ?_, .inr waits, ?_⟩
    · exact ⟨consumed.trans served.consumed, commands.trans served.commands,
        (congrArg _ replies).trans served.replies⟩
    · rw [received, consumed, input]
      exact inStep.received
    · rw [sent, inStep.sent, said, said, replies]

theorem Lingers.keeps {held : GmClient} (lingers : Lingers client held)
    (live : client.live = true) (keeps : Keeps requests client) :
    Keeps requests held := by
  intro within
  have received : held.trace.received = client.trace.received :=
    congrArg (·.trace.received) lingers.flushed
  obtain ⟨inStep, settled⟩ := (keeps (received ▸ within)).2.2 live
  apply (lingers.inStep inStep).keeps
  rcases lingers.output with rfl | ⟨_, waits⟩
  · exact settled
  · intro empty
    simp [empty] at waits

/-- Sending the output and receiving bytes keeps a client in step. -/
theorem InStep.feeds (inStep : InStep requests client) (data : List UInt8) :
    InStep requests (client.flushed.receive data) := by
  refine ⟨inStep.live, ?_, ?_, .inl ⟨rfl, rfl⟩, ?_⟩
  · cases inStep.phase with
    | between done todo split served pending =>
      exact .between done todo split
        ⟨served.consumed, served.commands, served.replies⟩ pending
    | awaiting done todo next split taken pending count path quiet =>
      exact .awaiting done todo next split
        ⟨taken.consumed, taken.commands, taken.replies⟩ pending count path rfl
  · change client.trace.received ++ data =
      client.trace.consumed ++ (client.input ++ data)
    rw [inStep.received, List.append_assoc]
  · change (client.trace.sent ++ client.output.drop client.outputPos) ++ [] =
      said client.trace
    rw [List.append_nil, inStep.sent]

/-- A pass of the loop keeps the invariant if the payload that it completes has
a place to go. -/
theorem gmClientPoll_keeps (named : ∀ request ∈ requests, request.Named)
    (events : GmEvents) (store : GmStore) (keeps : Keeps requests client)
    (fits : ∀ ready ∈ gmTakesUp events client, Accommodates store ready) :
    Keeps requests (gmClientPoll events client store).1 := by
  by_cases dead : client.live = false
  · rw [gmClientPoll, if_pos dead]
    exact keeps
  have live : client.live = true := by simpa using dead
  cases takes : gmTakesUp events client with
  | none =>
    obtain ⟨held, lingers, same | closed⟩ := gmClientPoll_lingers takes store
    · rw [same]
      exact lingers.keeps live keeps
    · rw [closed]
      exact (lingers.keeps live keeps).close
  | some ready =>
    rw [gmClientPoll_ready takes]
    intro within
    rw [gmProcessInput_received] at within
    obtain ⟨inStep, _⟩ :=
      (keeps ((gmTakesUp_received takes).trans within)).2.2 live
    obtain ⟨_, data, rfl, _⟩ := gmTakesUp_feeds inStep.output takes
    obtain ⟨after, settled⟩ := gmProcessInput_inStep named (inStep.feeds data)
      within (fits _ takes)
    exact after.keeps settled

theorem Served.none : Served [] {} := ⟨rfl, rfl, rfl⟩

theorem gmClientStart_eq :
    gmClientStart = { live := true, output := gmGreeting ++ [10] } := by
  rw [gmClientStart, gmOutputLine_room (by decide)]
  rfl

theorem gmClientStart_keeps (requests : List GmRequest) :
    Keeps requests gmClientStart := by
  rw [gmClientStart_eq]
  intro _
  apply InStep.keeps
  · exact ⟨rfl, .between [] requests rfl .none rfl, rfl, .inr (by decide), rfl⟩
  · intro empty
    exact absurd empty (by decide)

/-- The client that a step takes up, if it is the one in the slot. -/
def gmTakenUp (slot : Fin gmstoreClients) (server : GmServer) :
    GmServerStep → Option GmClient
  | .client polled events =>
    if polled = slot then gmTakesUp events (server.clients slot) else none
  | .accept => none
  | .outside _ => none

/-- Along a run, every payload that a client completes has a place to go at that
moment. -/
def PayloadsFit (slot : Fin gmstoreClients) :
    List GmServerStep → GmServer → Prop
  | [], _ => True
  | step :: steps, server =>
    (∀ ready ∈ gmTakenUp slot server step, Accommodates server.store ready) ∧
      PayloadsFit slot steps (gmServerStep server step)

/-- A step of the server keeps the invariant of a client. -/
theorem gmServerStep_keeps (named : ∀ request ∈ requests, request.Named)
    (step : GmServerStep) {server : GmServer} (slot : Fin gmstoreClients)
    (keeps : Keeps requests (server.clients slot))
    (fits : ∀ ready ∈ gmTakenUp slot server step,
      Accommodates server.store ready) :
    Keeps requests ((gmServerStep server step).clients slot) := by
  cases step with
  | accept =>
    rw [gmServerStep, gmClientAdd]
    split
    · exact keeps
    · rename_i free _
      by_cases here : slot = free
      · subst here
        simp only [update_self]
        exact gmClientStart_keeps requests
      · simp only [update_of_ne here]
        exact keeps
  | client polled events =>
    rw [gmServerStep]
    by_cases here : slot = polled
    · subst here
      simp only [update_self]
      rw [gmTakenUp, if_pos rfl] at fits
      exact gmClientPoll_keeps named events server.store keeps fits
    · simp only [update_of_ne here]
      exact keeps
  | outside fs => exact keeps

theorem gmServe_keeps (named : ∀ request ∈ requests, request.Named)
    (steps : List GmServerStep) (server : GmServer) (slot : Fin gmstoreClients)
    (keeps : Keeps requests (server.clients slot))
    (fit : PayloadsFit slot steps server) :
    Keeps requests ((gmServe steps server).clients slot) := by
  induction steps generalizing server with
  | nil => exact keeps
  | cons step steps induction =>
    exact induction (gmServerStep server step)
      (gmServerStep_keeps named step slot keeps fit.1) fit.2

/-- When everything was received and sent, everything was served. -/
theorem InStep.all_served (inStep : InStep requests client)
    (settled : Settled client) (all : client.trace.received = stream requests)
    (drained : client.outputPos = client.output.length) :
    Served requests client.trace ∧ client.trace.sent = said client.trace := by
  have empty := inStep.empty_of_sent drained
  have rest := inStep.atRest empty
  refine ⟨?_, rest.sent⟩
  obtain ⟨noLine, short⟩ := settled empty
  cases inStep.phase with
  | between done todo split served pending =>
    have input : client.input = stream todo := by
      rw [rest.received, served.consumed, split, stream, stream,
        List.flatMap_append] at all
      exact List.append_cancel_left all
    cases todo with
    | nil =>
      rw [split, List.append_nil]
      exact served
    | cons next todo =>
      have newline : 10 ∈ client.input := by
        simp [input, stream, GmRequest.bytes]
      exact absurd newline (noLine pending)
  | awaiting done todo next split taken pending count path quiet =>
    have input : client.input = next.payload ++ stream todo := by
      rw [rest.received, taken.consumed, split, stream_split] at all
      exact List.append_cancel_left all
    have waits := short pending
    rw [count, input, List.length_append] at waits
    omega

/-- In every run of the server in which a client's bytes are requests and every
payload has a place to go when it is complete, lines and payloads are never
confused: the commands are the lines of the requests in their order, what was
consumed are whole requests, and every request gets one reply. -/
theorem gmServe_framed (requests : List GmRequest)
    (named : ∀ request ∈ requests, request.Named) (store : GmStore)
    (steps : List GmServerStep) (slot : Fin gmstoreClients)
    (within : ((gmServe steps { store := store }).clients
      slot).trace.received <+: stream requests)
    (fit : PayloadsFit slot steps { store := store }) :
    let client := (gmServe steps { store := store }).clients slot
    Framed requests client.trace ∧ client.trace.sent <+: said client.trace ∧
      (client.live = true →
        client.trace.received = client.trace.consumed ++ client.input ∧
        (client.trace.received = stream requests →
          client.outputPos = client.output.length →
            Served requests client.trace ∧
              client.trace.sent = said client.trace)) := by
  have start : Keeps requests
      ((GmServer.mk store fun _ => {}).clients slot) := by
    intro _
    refine ⟨.served [] requests rfl .none, List.nil_prefix, ?_⟩
    intro live
    cases live
  obtain ⟨framed, sent, connected⟩ :=
    gmServe_keeps named steps _ slot start fit within
  refine ⟨framed, sent, ?_⟩
  intro live
  obtain ⟨inStep, settled⟩ := connected live
  exact ⟨inStep.received, inStep.all_served settled⟩

theorem pingForm {line path : List UInt8}
    (tokens : gmTokens [] line = [storeWord false, path, ascii "5"]) :
    GmForm (gmTokens [] line) (ascii "PING\n") := by
  rw [tokens]
  exact .store false path (ascii "5") _ (by decide)
    (List.all_eq_true.mp (by decide)) (by decide) (by decide)

theorem printable_of_all {line : List UInt8}
    (all : line.all (fun symbol => 32 ≤ symbol && symbol ≤ 126) = true)
    (symbol : UInt8) (member : symbol ∈ line) :
    32 ≤ symbol ∧ symbol ≤ 126 := by
  simpa using List.all_eq_true.mp all symbol member

def storeRequest : GmRequest where
  line := ascii "WRITE /a 5"
  payload := ascii "PING\n"
  short := by decide
  printable := printable_of_all (by decide)
  form := pingForm (by decide : _ = [_, ascii "/a", _])

def climbRequest : GmRequest where
  line := ascii "WRITE /a/../b 5"
  payload := ascii "PING\n"
  short := by decide
  printable := printable_of_all (by decide)
  form := pingForm (by decide : _ = [_, ascii "/a/../b", _])

/-- A client that sends some bytes and takes every reply. -/
def sendAll (bytes : List UInt8) (replies : Nat) : List GmServerStep :=
  [.accept, .client 0 { writable := some [.bytes 4095] },
    .client 0 { readable := some (.bytes bytes) }] ++
    List.replicate replies (.client 0 { writable := some [.bytes 4095] })

theorem gmServe_framed_store :
    Served [storeRequest]
      ((gmServe (sendAll (ascii "WRITE /a 5\nPING\n") 1)
        { store := emptyStore }).clients 0).trace := by
  have named : ∀ request ∈ [storeRequest], request.Named := by
    intro request member
    rw [List.mem_singleton.mp member]
    intro _
    decide +kernel
  have fit : PayloadsFit 0 (sendAll (ascii "WRITE /a 5\nPING\n") 1)
      { store := emptyStore } := by
    refine ⟨?_, ?_, ?_, ?_, trivial⟩ <;> decide +kernel
  exact ((gmServe_framed [storeRequest] named emptyStore _ 0
    (by decide +kernel) fit).2.2 (by decide +kernel)).2 (by decide +kernel)
    (by decide +kernel) |>.1

/-- A name that the server refuses leaves its payload in the input, where it is
taken for a command. -/
theorem gmServe_executes_payload :
    let client := (gmServe (sendAll (ascii "WRITE /a/../b 5\nPING\n") 2)
      { store := emptyStore }).clients 0
    client.trace.received = stream [climbRequest] ∧
      client.trace.commands = [climbRequest.line, ascii "PING"] ∧
      client.trace.replies = [ascii "ERR path\n", ascii "OK PONG\n"] := by
  decide +kernel

end Gmker.Server
