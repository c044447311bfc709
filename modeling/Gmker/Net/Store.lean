import Gmker.Net.Tcp

/-!
# The GMSTORE client

Request building, reply parsing and the `gm_store_*` operations of
`tcpstore.c`.  A path or line argument is a C string: a list of bytes that ends
at its first NUL, if it has one.
-/

namespace Gmker.Net

/-- The scan of `gm_store_path` over the characters after the first. -/
def gmStorePathScan : List UInt8 → Bool
  | [] => true
  | symbol :: rest =>
    if symbol = 32 ∨ symbol = 10 ∨ symbol = 13 ∨ symbol = 9 then false
    else if symbol = 46 ∧ rest.head? = some 46 then false
    else gmStorePathScan rest

/-- `gm_store_path`. -/
def gmStorePath (path : List UInt8) : Bool :=
  match cString path with
  | 47 :: next :: rest =>
    gmStorePathScan (next :: rest) && (rest.length + 2 < 192)
  | _ => false

/-- The digits `gm_store_dec` collects, least significant first. -/
def gmStoreDigits : Nat → UInt64 → List UInt8
  | 0, _ => []
  | fuel + 1, value =>
    if value = 0 then []
    else (48 + (value % 10).toUInt8) :: gmStoreDigits fuel (value / 10)

/-- `gm_store_dec`.  A 64-bit number has at most twenty digits. -/
def gmStoreDec (value : UInt64) : List UInt8 :=
  if value = 0 then [48] else (gmStoreDigits 20 value).reverse

/-- `gm_store_line`. -/
def gmStoreLine (op : List UInt8) (path : Option (List UInt8))
    (number : Option UInt64) : List UInt8 :=
  op ++ (path.map fun path => 32 :: cString path).getD [] ++
    (number.map fun value => 32 :: gmStoreDec value).getD [] ++ [10]

/-- The request of `gm_store_read`: the trailing newline of the line becomes
the blank before the length. -/
def gmStoreReadRequest (path : List UInt8) (offset : UInt64) (len : Nat) :
    List UInt8 :=
  (gmStoreLine (ascii "READ") (some path) (some offset)).dropLast ++
    [32] ++ gmStoreDec (UInt64.ofNat len) ++ [10]

/-- The request of `gm_store_write`. -/
def gmStoreWriteRequest (path data : List UInt8) (append : Bool) :
    List UInt8 :=
  ascii (if append then "APPEND" else "WRITE") ++ [32] ++ cString path ++
    [32] ++ gmStoreDec (UInt64.ofNat data.length) ++ [10] ++ data

/-- The outcome of draining the ring in `gm_store_wait_line`. -/
inductive GmDrained where
  | more (line : List UInt8)
  | line (line : List UInt8)
  | overflow
  deriving DecidableEq, Repr

/-- The end of a line: a carriage return before the newline is dropped. -/
def stripCr (line : List UInt8) : List UInt8 :=
  if line.getLast? = some 13 then line.dropLast else line

/-- The inner loop of `gm_store_wait_line`.  It takes one byte a turn, so as
many turns as there are bytes in the ring are enough. -/
def gmStoreDrain (cap : Nat) :
    Nat → List UInt8 → GmHost → GmDrained × GmHost
  | 0, line, host => (.more line, host)
  | fuel + 1, line, host =>
    if host.tcp.rxLen = 0 then (.more line, host)
    else
      match gmTcpRead 1 host with
      | ([], host) => (.more line, host)
      | (symbol :: _, host) =>
        if symbol = 10 then (.line (stripCr line), host)
        else if line.length + 1 < cap then
          gmStoreDrain cap fuel (line ++ [symbol]) host
        else (.overflow, host)

/-- The outer loop of `gm_store_wait_line`. -/
def gmStoreWaitLoop (cap start timeout : Nat) :
    Nat → List UInt8 → GmHost → Option (List UInt8) × GmHost
  | 0, _, host => (none, host)
  | fuel + 1, line, host =>
    if host.ticks - start < timeout then
      let host := gmPump host
      match gmStoreDrain cap host.tcp.rxLen line host with
      | (.line line, host) => (some line, host)
      | (.overflow, host) => (none, host)
      | (.more line, host) =>
        gmStoreWaitLoop cap start timeout fuel line host
    else (none, host)

/-- `gm_store_wait_line`. -/
def gmStoreWaitLine (cap timeout : Nat) (host : GmHost) :
    Option (List UInt8) × GmHost :=
  gmStoreWaitLoop cap host.ticks timeout timeout [] host

/-- `gm_store_ok`, given what `gm_store_wait_line` returned. -/
def gmStoreOk (line : Option (List UInt8)) : Bool :=
  (line.map fun line => gmStarts line (ascii "OK")).getD false

/-- The loop of `gm_store_number`. -/
def gmStoreNumberLoop : List UInt8 → UInt64 → Nat → Option UInt64
  | [], value, digits => if digits = 0 then none else some value
  | symbol :: rest, value, digits =>
    if 48 ≤ symbol ∧ symbol ≤ 57 then
      let digit := (symbol - 48).toUInt64
      if 1844674407370955161 < value ∨
          value = 1844674407370955161 ∧ 5 < digit then none
      else gmStoreNumberLoop rest (value * 10 + digit) (digits + 1)
    else if digits = 0 ∨ symbol ≠ 0 then none
    else some value

/-- `gm_store_number`. -/
def gmStoreNumber (text : List UInt8) : Option UInt64 :=
  gmStoreNumberLoop text 0 0

/-- The greeting of the server. -/
def gmGreeting : List UInt8 := ascii "GMSTORE 2.0"

/-- The host after the `gm_tcp_drop` of `gm_store_connect`. -/
def GmHost.startConnect (host : GmHost) : GmHost :=
  gmTcpDrop (host.record .connecting)

/-- `gm_store_connect`. -/
def gmStoreConnect (host : GmHost) : Bool × GmHost :=
  match gmTcpConnect host.config.storeIp host.config.storePort 300
      host.startConnect with
  | (false, host) => (false, host.record (.connected false))
  | (true, host) =>
    let (line, host) := gmStoreWaitLine 256 200 host
    let ok := (line.map fun line => gmStreq line gmGreeting).getD false
    let host := if ok then host else gmTcpClose host
    (ok, host.record (.connected ok))

/-- The beginning of every operation: forget buffered bytes, then send the
request. -/
def gmStoreRequest (request : List UInt8) (timeout : Nat) (host : GmHost) :
    Bool × GmHost :=
  gmTcpSend request timeout (gmTcpDrop host)

/-- A request and the first line after it, each awaited for the same time. -/
def gmStoreReply (request : List UInt8) (timeout : Nat) (host : GmHost) :
    Option (List UInt8) × GmHost :=
  match gmStoreRequest request timeout host with
  | (false, host) => (none, host)
  | (true, host) => gmStoreWaitLine 256 timeout host

/-- `gm_store_ping`. -/
def gmStorePing (host : GmHost) : Bool × GmHost :=
  match gmStoreReply (ascii "PING\n") 200 host with
  | (none, host) => (false, host)
  | (some line, host) => (gmStreq line (ascii "OK PONG"), host)

/-- The loop of `gm_store_list_prefix`, with the names printed so far.  A
server may send items forever, so the loop is bounded by fuel; `none` means
that it has not returned yet. -/
def gmStoreListLoop (start : Option (List UInt8)) :
    Nat → List (List UInt8) → GmHost →
      Option Bool × List (List UInt8) × GmHost
  | 0, printed, host => (none, printed, host)
  | fuel + 1, printed, host =>
    match gmStoreWaitLine 256 200 host with
    | (none, host) => (some false, printed, host)
    | (some line, host) =>
      if gmStreq line (ascii "OK END") then (some true, printed, host)
      else if gmStarts line (ascii "ITEM ") = false then
        (some false, printed, host)
      else
        let name := cString (line.drop 5)
        let wanted := (start.map fun start => gmStarts name start).getD true
        gmStoreListLoop start fuel
          (if wanted then printed ++ [name] else printed) host

/-- `gm_store_list_prefix`. -/
def gmStoreListPrefix (start : Option (List UInt8)) (fuel : Nat)
    (host : GmHost) : Option Bool × List (List UInt8) × GmHost :=
  match gmStoreRequest (ascii "LIST\n") 200 host with
  | (false, host) => (some false, [], host)
  | (true, host) => gmStoreListLoop start fuel [] host

/-- The number in a reply of the form `OK <number>`. -/
def gmStoreOkNumber (line : List UInt8) : Option UInt64 :=
  if gmStarts line (ascii "OK ") = false then none
  else gmStoreNumber (line.drop 3)

/-- `gm_store_size`. -/
def gmStoreSize (path : List UInt8) (host : GmHost) :
    Option UInt64 × GmHost :=
  if gmStorePath path = false then (none, host)
  else
    match gmStoreReply (gmStoreLine (ascii "STAT") (some path) none) 200
        host with
    | (none, host) => (none, host)
    | (some line, host) => (gmStoreOkNumber line, host)

/-- The data loop of `gm_store_read`. -/
def gmStoreReadLoop (count start : Nat) :
    Nat → List UInt8 → GmHost → List UInt8 × GmHost
  | 0, data, host => (data, host)
  | fuel + 1, data, host =>
    if data.length < count ∧ host.ticks - start < 300 then
      let (bytes, host) := gmTcpRead (count - data.length) (gmPump host)
      gmStoreReadLoop count start fuel (data ++ bytes) host
    else (data, host)

/-- `gm_store_read`. -/
def gmStoreRead (path : List UInt8) (offset : UInt64) (len : Nat)
    (host : GmHost) : Option (List UInt8) × GmHost :=
  if gmStorePath path = false ∨ gmStoreBlock < len then (none, host)
  else
    match gmStoreReply (gmStoreReadRequest path offset len) 200 host with
    | (none, host) => (none, host)
    | (some line, host) =>
      match gmStoreOkNumber line with
      | none => (none, host)
      | some count =>
        if len < count.toNat then (none, host)
        else
          let (data, host) :=
            gmStoreReadLoop count.toNat host.ticks 300 [] host
          if data.length ≠ count.toNat then (none, host)
          else (some data, host)

/-- `gm_store_write`. -/
def gmStoreWrite (path data : List UInt8) (append : Bool) (host : GmHost) :
    Bool × GmHost :=
  if gmStorePath path = false ∨ gmStoreBlock < data.length then (false, host)
  else
    let request := gmStoreWriteRequest path data append
    if 256 + gmStoreBlock < request.length ∨ gmTcpTxMax < request.length then
      (false, host)
    else
      let (line, host) := gmStoreReply request 300 host
      (gmStoreOk line, host)

/-- `gm_store_delete`. -/
def gmStoreDelete (path : List UInt8) (host : GmHost) : Bool × GmHost :=
  if gmStorePath path = false then (false, host)
  else
    let (line, host) :=
      gmStoreReply (gmStoreLine (ascii "DEL") (some path) none) 200 host
    (gmStoreOk line, host)

end Gmker.Net
