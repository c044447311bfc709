import Gmker.Server.Files

/-!
# Clients and commands of the store server

The buffers that `gmstored.c` keeps for a client, and `gm_command` with
everything it answers.  The trace of a client records what has passed between
it and the server; no code reads it.
-/

namespace Gmker.Server

open Foundation

inductive GmPending where
  | none
  | write
  | append
  deriving DecidableEq, Repr

/-- What has passed between the server and one client. -/
structure GmTrace where
  received : List UInt8 := []
  consumed : List UInt8 := []
  commands : List (List UInt8) := []
  replies : List (List UInt8) := []
  sent : List UInt8 := []
  deriving DecidableEq, Repr

/-- A client; `live` stands for a descriptor that is not negative. -/
structure GmClient where
  live : Bool := false
  input : List UInt8 := []
  output : List UInt8 := []
  outputPos : Nat := 0
  pending : GmPending := .none
  pendingCount : Nat := 0
  pendingPath : List UInt8 := []
  trace : GmTrace := {}
  deriving DecidableEq, Repr

/-- `gm_client_reset`, which keeps the trace. -/
def gmClientReset (client : GmClient) : GmClient := { trace := client.trace }

/-- `gm_client_close`. -/
def gmClientClose (client : GmClient) : GmClient := gmClientReset client

/-- `gm_output_add`. -/
def gmOutputAdd (data : List UInt8) (client : GmClient) : Bool × GmClient :=
  if gmstoreOutput < client.output.length + data.length then (false, client)
  else (true, { client with output := client.output ++ data })

/-- `gm_output_line`. -/
def gmOutputLine (text : List UInt8) (client : GmClient) : Bool × GmClient :=
  match gmOutputAdd text client with
  | (false, client) => (false, client)
  | (true, client) => gmOutputAdd [10] client

/-- `gm_output_error`. -/
def gmOutputError (text : List UInt8) (client : GmClient) : GmClient :=
  match gmOutputLine text { client with output := [], outputPos := 0 } with
  | (true, client) => client
  | (false, client) => gmClientClose client

/-- `gm_input_consume`. -/
def gmInputConsume (count : Nat) (client : GmClient) : GmClient :=
  { client with
    input := client.input.drop count
    trace :=
      { client.trace with
        consumed := client.trace.consumed ++ client.input.take count } }

/-- `gm_text2`. -/
def gmText2 (cap : Nat) (left right : List UInt8) : Option (List UInt8) :=
  if cap < left.length + right.length + 1 then none else some (left ++ right)

abbrev longMax : Nat := 9223372036854775807
abbrev ulongMax : Nat := 18446744073709551615

/-- The characters that `strtoul` skips. -/
def isSpace (symbol : UInt8) : Bool :=
  symbol = 32 || (9 ≤ symbol && symbol ≤ 13)

def isDigit (symbol : UInt8) : Bool := 48 ≤ symbol && symbol ≤ 57

/-- The value of a row of digits. -/
def decimalValue (digits : List UInt8) : Nat :=
  digits.foldl (fun value digit => value * 10 + (digit.toNat - 48)) 0

/-- `gm_number`: `strtoul` takes a sign and wraps negative values, and nothing
may be left behind the digits. -/
def gmNumber (text : List UInt8) : Option Nat :=
  let body := text.dropWhile isSpace
  let negative : Bool := body.head? = some 45
  let digits := if negative ∨ body.head? = some 43 then body.tail else body
  if digits = [] ∨ digits.any (fun symbol => !isDigit symbol) then none
  else if ulongMax < decimalValue digits then none
  else
    some (if negative then (ulongMax + 1 - decimalValue digits) % (ulongMax + 1)
      else decimalValue digits)

/-- The digits that `sprintf` writes for a number. -/
def decimalText (value : Nat) : List UInt8 :=
  (Nat.toDigits 10 value).map fun digit => UInt8.ofNat digit.toNat

/-- The tokens of `strtok(line," \t")`, with the characters of the token that is
being read. -/
def gmTokens : List UInt8 → List UInt8 → List (List UInt8)
  | part, [] => if part = [] then [] else [part]
  | part, symbol :: rest =>
    if symbol = 32 ∨ symbol = 9 then
      if part = [] then gmTokens [] rest else part :: gmTokens [] rest
    else gmTokens (part ++ [symbol]) rest

/-- The loop of `gm_list_collect` over the entries ahead of the descriptor.
`collect` is the call for a subdirectory; the count says how many entries were
read. -/
def gmListEntries
    (collect : TreePath → List UInt8 → GmClient → FileSystem →
      Bool × GmClient × FileSystem)
    (dir : TreePath) (rel : List UInt8) :
    List Name → GmClient → FileSystem → Bool × Nat × GmClient × FileSystem
  | [], client, fs => (true, 0, client, fs)
  | name :: names, client, fs =>
    let proceed (client : GmClient) (fs : FileSystem) :=
      let (done, read, client, fs) :=
        gmListEntries collect dir rel names client fs
      (done, read + 1, client, fs)
    match fs.fstatat false dir name with
    | (.error _, fs) => proceed client fs
    | (.ok node, fs) =>
      match (gmText2 gmstorePath rel [47]).bind fun stem =>
        gmText2 gmstorePath stem name with
      | none => proceed client fs
      | some child =>
        match node with
        | .link _ => proceed client fs
        | .dir =>
          match fs.openat gmDirFlags dir name with
          | (.error _, fs) => (false, 1, client, fs)
          | (.ok next, fs) =>
            match collect next.path child client fs with
            | (false, client, fs) => (false, 1, client, fs)
            | (true, client, fs) => proceed client fs
        | .file _ =>
          match gmText2 (gmstorePath + 8) (ascii "ITEM ") child with
          | none => (false, 1, client, fs)
          | some item =>
            match gmOutputLine item client with
            | (false, client) => (false, 1, client, fs)
            | (true, client) => proceed client fs

/-- `gm_list_collect` through a descriptor that lies behind some names, and the
names behind it afterwards: those that were read and, since `readdir` reads
ahead and the end of a directory may be a place of its own, whatever the host
adds to them.  Every level makes the relative name longer, so its bound also
bounds the depth. -/
def gmListCollect :
    Nat → (Name → Bool) → TreePath → List UInt8 → GmClient → FileSystem →
      Bool × (Name → Bool) × GmClient × FileSystem
  | 0, passed, _, _, client, fs => (false, passed, client, fs)
  | depth + 1, passed, dir, rel, client, fs =>
    match fs.plainCall with
    | (false, fs) => (false, passed, client, fs)
    | (true, fs) =>
      match fs.plainCall with
      | (false, fs) => (false, passed, client, fs)
      | (true, fs) =>
        let ahead := (fs.tree.order dir).filter fun name => !passed name
        let (done, read, client, fs) :=
          gmListEntries
            (fun next child client fs =>
              let (done, _, client, fs) :=
                gmListCollect depth (fun _ => false) next child client fs
              (done, client, fs))
            dir rel ahead client fs
        (done, fun name => passed name || (ahead.take read).contains name ||
          fs.passes fs.calls name, client, fs)

def GmWriteError.text : GmWriteError → List UInt8
  | .path => ascii "ERR path"
  | .write => ascii "ERR write"

def GmDeleted.text : GmDeleted → List UInt8
  | .missing => ascii "ERR missing"
  | .delete => ascii "ERR delete"
  | .done => ascii "OK"

/-- `gm_pending_write`.  It returns whether the client is still connected. -/
def gmPendingWrite (client : GmClient) (store : GmStore) :
    GmClient × GmStore :=
  if client.pending = .none then (client, store)
  else if client.input.length < client.pendingCount then (client, store)
  else
    match gmStorePayload (client.pending = .append) client.pendingPath
        (client.input.take client.pendingCount) store.root store.fs with
    | (some error, fs) =>
      ({ gmOutputError error.text client with pending := .none },
        store.withFs fs)
    | (none, fs) =>
      match gmOutputLine (ascii "OK")
          { gmInputConsume client.pendingCount client with
            pending := .none
            pendingCount := 0
            pendingPath := [] } with
      | (true, client) => (client, store.withFs fs)
      | (false, client) => (gmClientClose client, store.withFs fs)

/-- Answer a command with one line. -/
def gmAnswer (text : List UInt8) (client : GmClient) (store : GmStore) :
    Bool × GmClient × GmStore :=
  let (done, client) := gmOutputLine text client
  (done, client, store)

/-- The branch `LIST` of `gm_command`. -/
def gmCommandList (client : GmClient) (store : GmStore) :
    Bool × GmClient × GmStore :=
  let (collected, passed, client, fs) :=
    gmListCollect gmstorePath store.passed store.root []
      { client with output := [], outputPos := 0 } store.fs
  let store := { store with fs := fs, passed := passed }
  let (done, client) :=
    if collected then gmOutputLine (ascii "OK END") client
    else (false, client)
  if done then (true, client, store)
  else
    let client := gmOutputError (ascii "ERR list") client
    (client.live, client, store)

/-- The branch `STAT` of `gm_command`. -/
def gmCommandStat (name : List UInt8) (client : GmClient) (store : GmStore) :
    Bool × GmClient × GmStore :=
  match gmOpenRegular name store.root store.fs with
  | (none, fs) => gmAnswer (ascii "ERR missing") client (store.withFs fs)
  | (some (_, size), fs) =>
    gmAnswer (ascii "OK " ++ decimalText (size % (ulongMax + 1))) client
      (store.withFs fs)

/-- The branch `READ` of `gm_command`. -/
def gmCommandRead (name offset count : List UInt8) (client : GmClient)
    (store : GmStore) : Bool × GmClient × GmStore :=
  match gmNumber offset, gmNumber count with
  | some offset, some count =>
    if gmstoreBlock < count ∨ longMax < offset then
      gmAnswer (ascii "ERR read") client store
    else
      match gmReadBlock name offset count store.root store.fs with
      | (none, fs) => gmAnswer (ascii "ERR read") client (store.withFs fs)
      | (some data, fs) =>
        match gmOutputLine (ascii "OK " ++ decimalText data.length)
            client with
        | (false, client) => (false, client, store.withFs fs)
        | (true, client) =>
          let (done, client) := gmOutputAdd data client
          (done, client, store.withFs fs)
  | _, _ => gmAnswer (ascii "ERR read") client store

/-- The branches `WRITE` and `APPEND` of `gm_command`. -/
def gmCommandWrite (kind : GmPending) (name count : List UInt8)
    (client : GmClient) (store : GmStore) : Bool × GmClient × GmStore :=
  match gmNumber count with
  | none => gmAnswer (ascii "ERR size") client store
  | some count =>
    if gmstoreBlock < count then gmAnswer (ascii "ERR size") client store
    else if gmstorePath < name.length + 1 then
      gmAnswer (ascii "ERR path") client store
    else
      let (client, store) := gmPendingWrite
        { client with
          pending := kind, pendingCount := count, pendingPath := name } store
      (client.live, client, store)

/-- The branch `DEL` of `gm_command`. -/
def gmCommandDel (name : List UInt8) (client : GmClient) (store : GmStore) :
    Bool × GmClient × GmStore :=
  let (deleted, store) := gmDelete name store
  gmAnswer deleted.text client store

/-- The branches of `gm_command` behind the test of the name. -/
def gmCommandNamed (command name : List UInt8) (args : List (List UInt8))
    (client : GmClient) (store : GmStore) : Bool × GmClient × GmStore :=
  if command = ascii "STAT" ∧ args.length = 0 then
    gmCommandStat name client store
  else if command = ascii "READ" ∧ args.length = 2 then
    gmCommandRead name (args.getD 0 []) (args.getD 1 []) client store
  else if command = ascii "WRITE" ∧ args.length = 1 then
    gmCommandWrite .write name (args.getD 0 []) client store
  else if command = ascii "APPEND" ∧ args.length = 1 then
    gmCommandWrite .append name (args.getD 0 []) client store
  else if command = ascii "DEL" ∧ args.length = 0 then
    gmCommandDel name client store
  else gmAnswer (ascii "ERR syntax") client store

/-- `gm_command` on the tokens of a line. -/
def gmCommandParts (parts : List (List UInt8)) (client : GmClient)
    (store : GmStore) : Bool × GmClient × GmStore :=
  if 4 < parts.length then gmAnswer (ascii "ERR syntax") client store
  else if parts = [] then (true, client, store)
  else if parts = [ascii "PING"] then
    gmAnswer (ascii "OK PONG") client store
  else if parts = [ascii "LIST"] then gmCommandList client store
  else
    match parts with
    | command :: name :: args =>
      if gmNameValid name then gmCommandNamed command name args client store
      else gmAnswer (ascii "ERR path") client store
    | _ => gmAnswer (ascii "ERR path") client store

/-- `gm_command`. -/
def gmCommand (line : List UInt8) (client : GmClient) (store : GmStore) :
    Bool × GmClient × GmStore :=
  gmCommandParts (gmTokens [] line) client store

end Gmker.Server
