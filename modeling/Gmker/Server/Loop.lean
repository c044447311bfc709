import Gmker.Server.Commands

/-!
# The poll loop of the store server

`gm_process_input`, the handlers of socket events, and the loop of `main`.  A
run of the server is any sequence of accepted connections, socket events, and
changes that others make to the file system.
-/

namespace Gmker.Server

open Foundation

/-- Put the answer to a command on record. -/
def GmClient.logReply (client : GmClient) : GmClient :=
  if client.output = [] then client
  else
    { client with
      trace :=
        { client.trace with
          replies := client.trace.replies ++ [client.output] } }

/-- Put the start of a command on record. -/
def GmClient.logCommand (client : GmClient) (line : List UInt8) : GmClient :=
  { client with
    trace :=
      { client.trace with commands := client.trace.commands ++ [line] } }

/-- The line up to a newline, without a carriage return at its end. -/
def gmStripReturn (raw : List UInt8) : List UInt8 :=
  if raw.getLast? = some 13 then raw.dropLast else raw

/-- A client whose command fails is disconnected. -/
def gmFinish : Bool × GmClient × GmStore → GmClient × GmStore
  | (false, client, store) => (gmClientClose client, store)
  | (true, client, store) => (client, store)

/-- The part of `gm_process_input` that takes a line from the input. -/
def gmProcessLine (client : GmClient) (store : GmStore) :
    GmClient × GmStore :=
  let raw := client.input.takeWhile (· != 10)
  if raw.length = client.input.length then
    if client.input.length = gmstoreInput then
      (gmOutputError (ascii "ERR syntax")
        (gmInputConsume client.input.length client), store)
    else (client, store)
  else
    let line := gmStripReturn raw
    let client := gmInputConsume (raw.length + 1) client
    if gmstoreLine < line.length + 1 ∨
        line.any (fun symbol => symbol < 32 || 126 < symbol) then
      (gmOutputError (ascii "ERR syntax") client, store)
    else gmFinish (gmCommand line (client.logCommand line) store)

/-- `gm_process_input`.  It returns whether the client is still connected. -/
def gmProcessInput (client : GmClient) (store : GmStore) :
    GmClient × GmStore :=
  if client.output.length ≠ client.outputPos then (client, store)
  else
    let (client, store) :=
      if client.pending ≠ .none then gmPendingWrite client store
      else gmProcessLine client store
    (client.logReply, store)

/-- How a call of `recv` ends. -/
inductive GmRecv where
  | bytes (data : List UInt8)
  | again
  | failed

/-- `gm_client_read`. -/
def gmClientRead (recv : GmRecv) (client : GmClient) (store : GmStore) :
    GmClient × GmStore :=
  if client.input.length = gmstoreInput then gmProcessInput client store
  else
    match recv with
    | .failed => (gmClientClose client, store)
    | .again => gmProcessInput client store
    | .bytes data =>
      let data := data.take (gmstoreInput - client.input.length)
      -- No data means that the peer has closed the connection.
      if data = [] then (gmClientClose client, store)
      else
        gmProcessInput
          { client with
            input := client.input ++ data
            trace :=
              { client.trace with
                received := client.trace.received ++ data } } store

/-- How a call of `send` ends; it takes one byte more than the number says. -/
inductive GmSend where
  | bytes (more : Nat)
  | again
  | failed

/-- Bytes leave the output. -/
def GmClient.send (client : GmClient) (count : Nat) : GmClient :=
  let data := (client.output.drop client.outputPos).take count
  { client with
    outputPos := client.outputPos + data.length
    trace := { client.trace with sent := client.trace.sent ++ data } }

/-- `gm_client_write`; past the given outcomes the socket takes nothing. -/
def gmClientWrite : List GmSend → GmClient → GmStore → GmClient × GmStore
  | sends, client, store =>
    if client.outputPos < client.output.length then
      match sends with
      | [] => (client, store)
      | .again :: _ => (client, store)
      | .failed :: _ => (gmClientClose client, store)
      | .bytes more :: sends =>
        gmClientWrite sends (client.send (more + 1)) store
    else gmProcessInput { client with output := [], outputPos := 0 } store

/-- The greeting. -/
def gmGreeting : List UInt8 := ascii "GMSTORE 2.0"

/-- What `gm_client_add` does to a free entry. -/
def gmClientStart : GmClient :=
  match gmOutputLine gmGreeting { live := true } with
  | (true, client) => client
  | (false, client) => gmClientClose client

/-- The server. -/
structure GmServer where
  store : GmStore
  clients : Fin gmstoreClients → GmClient := fun _ => {}

/-- `gm_client_add`: the connection gets the first free entry, if any. -/
def gmClientAdd (server : GmServer) : GmServer :=
  match (List.finRange gmstoreClients).find?
      (fun slot => !(server.clients slot).live) with
  | none => server
  | some slot =>
    { server with
      clients := Function.update server.clients slot gmClientStart }

/-- What `poll` reports for a client. -/
structure GmEvents where
  hangup : Bool := false
  writable : Option (List GmSend) := none
  readable : Option GmRecv := none

/-- The handling of one client in the loop of `main`.  `poll` is asked for one
direction only: for room while output is waiting, and for input otherwise. -/
def gmClientPoll (events : GmEvents) (client : GmClient) (store : GmStore) :
    GmClient × GmStore :=
  if client.live = false then (client, store)
  else if events.hangup then (gmClientClose client, store)
  else if client.outputPos < client.output.length then
    match events.writable with
    | none => (client, store)
    | some sends => gmClientWrite sends client store
  else
    match events.readable with
    | none => (client, store)
    | some recv => gmClientRead recv client store

/-- The steps of the server, and the changes others make to the files. -/
inductive GmServerStep where
  | accept
  | client (slot : Fin gmstoreClients) (events : GmEvents)
  | outside (fs : FileSystem)

def gmServerStep (server : GmServer) : GmServerStep → GmServer
  | .accept => gmClientAdd server
  | .client slot events =>
    let (client, store) :=
      gmClientPoll events (server.clients slot) server.store
    { store := store
      clients := Function.update server.clients slot client }
  | .outside fs => { server with store := server.store.withFs fs }

/-- A run of the server. -/
def gmServe (steps : List GmServerStep) (server : GmServer) : GmServer :=
  steps.foldl gmServerStep server

end Gmker.Server
