import Gmker.Programs.Launch

/-!
# The service gate

`gm_program_service` with all of its services.  What a service asks from the
rest of the kernel (console, network, store) is an outcome in `GmServiceEnv`,
and every such request is reported in the list of calls.
-/

namespace Gmker.Programs

abbrev gmSvcExit : UInt64 := 0
abbrev gmSvcWrite : UInt64 := 1
abbrev gmSvcPrintU64 : UInt64 := 2
abbrev gmSvcTicks : UInt64 := 3
abbrev gmSvcGateway : UInt64 := 4
abbrev gmSvcPing : UInt64 := 5
abbrev gmSvcStoreRead : UInt64 := 6
abbrev gmSvcStoreWrite : UInt64 := 7
abbrev gmSvcStoreAppend : UInt64 := 8
abbrev gmSvcResourceAcquire : UInt64 := 9
abbrev gmSvcResourceRelease : UInt64 := 10
abbrev gmSvcStoreStat : UInt64 := 11
abbrev gmSvcUdpExchange : UInt64 := 12

/-- The caller's memory and the outcomes of the kernel calls a service may
make. -/
structure GmServiceEnv where
  memory : UInt64 → UInt8
  ping : Bool
  udpExchange : UInt16
  tcpConnected : Bool
  storeConnect : Bool
  storeSize : Option UInt64
  storeRead : Option UInt16
  storeWrite : Bool

/-- A request to another part of the kernel, with the user addresses it
hands over. -/
inductive GmCall where
  | write (text : UInt64)
  | printU64 (value : UInt64)
  | copyOut (address : UInt64) (len : Nat)
  | ping (address timeout : UInt64)
  | udpExchange (address port tx txLen rx rxLen : UInt64)
  | storeConnect
  | storeSize (path : UInt64)
  | storeRead (path offset data len : UInt64)
  | storeWrite (path data len : UInt64) (append : Bool)
  deriving DecidableEq, Repr

/-- The exclusive resource whose transport a call uses. -/
def GmCall.transport : GmCall → Option GmResourceIndex
  | .udpExchange .. => some 1
  | .storeConnect | .storeSize _ | .storeRead .. | .storeWrite .. => some 0
  | _ => none

/-- `gm_user_range`. -/
def gmUserRange (addr len : UInt64) : Bool :=
  if addr < UInt64.ofNat gmProgramBase ∨ UInt64.ofNat gmProgramEnd ≤ addr then
    false
  else if UInt64.ofNat (gmProgramEnd - gmProgramBase) < len then false
  else
    let finish := addr + len
    if finish < addr ∨ UInt64.ofNat gmProgramEnd < finish then false
    else if addr < UInt64.ofNat gmProgramGuard ∧
        finish ≤ UInt64.ofNat gmProgramGuard then true
    else if UInt64.ofNat gmProgramStack ≤ addr ∧
        finish ≤ UInt64.ofNat gmProgramEnd then true
    else false

/-- The scan of `gm_user_string` from byte `position` on, `budget` bytes long. -/
def gmUserStringLoop (memory : UInt64 → UInt8) (addr : UInt64) :
    Nat → Nat → Option Nat
  | 0, _ => none
  | budget + 1, position =>
    let cursor := addr + UInt64.ofNat position
    if gmUserRange cursor 1 = false then none
    else if memory cursor = 0 then some position
    else gmUserStringLoop memory addr budget (position + 1)

/-- `gm_user_string`: the length of the string, if it is readable and ends
within `max` bytes. -/
def gmUserString (memory : UInt64 → UInt8) (addr : UInt64) (max : Nat) :
    Option Nat :=
  if gmUserRange addr 1 = false then none
  else gmUserStringLoop memory addr max 0

/-- `gm_program_yield` for the current application. -/
def gmProgramYield (frame : GmServiceFrame) (kernel : GmKernel) : GmKernel :=
  let slot := kernel.current
  gmProgramKernel (kernel.setApp slot
    { kernel.apps slot with context := frame, state := .ready })

/-- `!gm_tcp_connected() && !gm_store_connect()`, negated: a session exists or
could be opened.  The second component is the connection attempt. -/
def gmStoreSession (env : GmServiceEnv) : Bool × List GmCall :=
  if env.tcpConnected then (true, [])
  else (env.storeConnect, [.storeConnect])

/-- The `GM_SVC_STORE_STAT` branch: the value for `rax` and the calls made. -/
def gmServiceStoreStat (env : GmServiceEnv) (frame : GmServiceFrame) :
    UInt64 × List GmCall :=
  if gmUserString env.memory frame.rdi 191 = none ∨
      gmUserRange frame.rsi 8 = false then (0, [])
  else
    match gmStoreSession env with
    | (false, calls) => (0, calls)
    | (true, calls) =>
      match env.storeSize with
      | none => (0, calls ++ [.storeSize frame.rdi])
      | some _ => (1, calls ++ [.storeSize frame.rdi, .copyOut frame.rsi 8])

/-- The `GM_SVC_STORE_READ` branch. -/
def gmServiceStoreRead (env : GmServiceEnv) (frame : GmServiceFrame) :
    UInt64 × List GmCall :=
  match gmStoreSession env with
  | (false, calls) => (0, calls)
  | (true, calls) =>
    if gmUserString env.memory frame.rdi 191 = none ∨
        UInt64.ofNat gmStoreBlock < frame.rcx ∨
        gmUserRange frame.rdx frame.rcx = false then (0, calls)
    else
      ((env.storeRead.getD 0).toUInt64,
        calls ++ [.storeRead frame.rdi frame.rsi frame.rdx frame.rcx])

/-- The `GM_SVC_STORE_WRITE` and `GM_SVC_STORE_APPEND` branch. -/
def gmServiceStoreWrite (env : GmServiceEnv) (frame : GmServiceFrame) :
    UInt64 × List GmCall :=
  match gmStoreSession env with
  | (false, calls) => (0, calls)
  | (true, calls) =>
    if gmUserString env.memory frame.rdi 191 = none ∨
        UInt64.ofNat gmStoreBlock < frame.rdx ∨
        gmUserRange frame.rsi frame.rdx = false then (0, calls)
    else
      (env.storeWrite.toUInt64,
        calls ++ [.storeWrite frame.rdi frame.rsi frame.rdx
          (frame.rax == gmSvcStoreAppend)])

/-- The `GM_SVC_UDP_EXCHANGE` branch behind its ownership test. -/
def gmServiceUdpExchange (env : GmServiceEnv) (frame : GmServiceFrame) :
    UInt64 × List GmCall :=
  if frame.rsi = 0 ∨ 65535 < frame.rsi ∨ UInt64.ofNat gmUdpMax < frame.rcx ∨
      UInt64.ofNat gmUdpMax < frame.r9 ∨ gmUserRange frame.rdi 4 = false ∨
      (frame.rcx ≠ 0 ∧ gmUserRange frame.rdx frame.rcx = false) ∨
      (frame.r9 ≠ 0 ∧ gmUserRange frame.r8 frame.r9 = false) then (0, [])
  else
    (env.udpExchange.toUInt64,
      [.udpExchange frame.rdi frame.rsi frame.rdx frame.rcx frame.r8 frame.r9])

/-- A branch that first requires the caller to own a resource. -/
def gmServiceOwned (resource : Nat) (kernel : GmKernel)
    (body : UInt64 × List GmCall) : Except GmPanic (UInt64 × List GmCall) :=
  match gmResourceOwned kernel.current resource kernel with
  | .error panic => .error panic
  | .ok false => .ok (0, [])
  | .ok true => .ok body

/-- All services that answer at once and leave slots and resources alone. -/
def gmServiceAnswer (env : GmServiceEnv) (frame : GmServiceFrame)
    (kernel : GmKernel) : Except GmPanic (UInt64 × List GmCall) :=
  if frame.rax = gmSvcWrite then
    match gmUserString env.memory frame.rdi 1024 with
    | none => .ok (0, [])
    | some _ => .ok (1, [.write frame.rdi])
  else if frame.rax = gmSvcPrintU64 then .ok (1, [.printU64 frame.rdi])
  else if frame.rax = gmSvcTicks then .ok (UInt64.ofNat kernel.ticks, [])
  else if frame.rax = gmSvcGateway then
    if gmUserRange frame.rdi 4 = false then .ok (0, [])
    else .ok (1, [.copyOut frame.rdi 4])
  else if frame.rax = gmSvcPing then
    if gmUserRange frame.rdi 4 = false then .ok (0, [])
    else
      .ok (env.ping.toUInt64,
        [.ping frame.rdi (if 500 < frame.rsi then 500 else frame.rsi)])
  else if frame.rax = gmSvcUdpExchange then
    gmServiceOwned gmResourceUdp kernel (gmServiceUdpExchange env frame)
  else if frame.rax = gmSvcStoreStat then
    gmServiceOwned gmResourceTcp kernel (gmServiceStoreStat env frame)
  else if frame.rax = gmSvcStoreRead then
    gmServiceOwned gmResourceTcp kernel (gmServiceStoreRead env frame)
  else if frame.rax = gmSvcStoreWrite ∨ frame.rax = gmSvcStoreAppend then
    gmServiceOwned gmResourceTcp kernel (gmServiceStoreWrite env frame)
  else .ok (0, [])

/-- The return value of `gm_program_service`, the kernel it leaves and the
calls it made. -/
structure GmServiceOutcome where
  handled : Bool
  kernel : GmKernel
  calls : List GmCall

/-- `gm_program_service`. -/
def gmProgramService (env : GmServiceEnv) (frame : GmServiceFrame)
    (kernel : GmKernel) : Except GmPanic GmServiceOutcome :=
  let slot := kernel.current
  let app := kernel.apps slot
  if app.state ≠ .running ∨ fromUser frame.cs = false then
    .ok ⟨false, kernel, []⟩
  else if gmProgramMaxTicks ≤ app.runtimeTicks then
    match gmProgramFinish slot (-200) kernel with
    | .error panic => .error panic
    | .ok kernel => .ok ⟨true, kernel, []⟩
  else if frame.rax = gmSvcExit then
    match gmProgramFinish slot frame.rdi.toUInt32.toInt32.toInt kernel with
    | .error panic => .error panic
    | .ok kernel => .ok ⟨true, kernel, []⟩
  else if frame.rax = gmSvcResourceAcquire then
    match gmResourceAcquireService slot frame.rdi.toUInt32.toNat frame
        kernel with
    | .error panic => .error panic
    | .ok (.blocked, kernel) => .ok ⟨true, kernel, []⟩
    | .ok (.answered rax, kernel) =>
      .ok ⟨true, gmProgramYield { frame with rax := rax } kernel, []⟩
  else if frame.rax = gmSvcResourceRelease then
    match gmResourceReleaseApp slot frame.rdi.toUInt32.toNat kernel with
    | .error panic => .error panic
    | .ok (released, kernel) =>
      .ok ⟨true,
        gmProgramYield { frame with rax := released.toUInt64 } kernel, []⟩
  else
    match gmServiceAnswer env frame kernel with
    | .error panic => .error panic
    | .ok (rax, calls) =>
      .ok ⟨true, gmProgramYield { frame with rax := rax } kernel, calls⟩

/-- A caller with empty memory and a kernel below that grants nothing. -/
def idleServices : GmServiceEnv :=
  { memory := fun _ => 0
    ping := false
    udpExchange := 0
    tcpConnected := false
    storeConnect := false
    storeSize := none
    storeRead := none
    storeWrite := false }

end Gmker.Programs
