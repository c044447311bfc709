import Gmker.Programs.ResourceManager

/-!
# Starting, scheduling and ending applications

Program launch, the fixed periodic table, the round-robin dispatcher and the
termination paths of `programs.c`.  Loading an image from the store is an
outcome supplied from outside: `load path` is the entry offset of a valid image
or `none` when `gm_program_load` fails.
-/

namespace Gmker.Programs

/-- The prefix `/programs/x86_64/` of `gm_program_path`. -/
def gmProgramPrefix : List UInt8 := ascii "/programs/x86_64/"

/-- `gm_program_path`: resolve a program name to its store path. -/
def gmProgramPath (name : List UInt8) : Option (List UInt8) :=
  match name with
  | [] => none
  | first :: _ =>
    let len := name.length
    if first = 47 then
      if 192 ≤ len ∨ gmStarts name gmProgramPrefix = false then none
      else some name
    else if 192 ≤ gmProgramPrefix.length + len + 4 then none
    else if len < 3 ∨ gmStreq (name.drop (len - 3)) (ascii ".gm") = false then
      some (gmProgramPrefix ++ name ++ ascii ".gm")
    else some (gmProgramPrefix ++ name)

/-- The results `GM_START_BUSY`, `GM_START_OK` and `GM_START_ERROR`. -/
inductive GmStartResult where
  | busy
  | ok (slot : GmSlot)
  | error
  deriving DecidableEq, Repr

/-- The slot search at the head of `gm_program_start_path`. -/
def gmFreeSlot (kernel : GmKernel) : Option GmSlot :=
  (List.finRange gmAppMax).find? fun slot =>
    (kernel.apps slot).state == .free

/-- The context a launched program starts from. -/
def gmStartContext (argLen entry : Nat) : GmServiceFrame :=
  { rdi := UInt64.ofNat gmProgramArg
    rsi := UInt64.ofNat argLen
    rip := UInt64.ofNat (gmProgramBase + entry)
    cs := 0x23
    rflags := 0x202
    rsp := UInt64.ofNat (gmProgramStack + gmProgramStackSize - 8)
    ss := 0x1b }

/-- `gm_program_start_path`. -/
def gmProgramStartPath (load : List UInt8 → Option Nat) (path : List UInt8)
    (args : Option (List UInt8)) (periodicId : Nat) (kernel : GmKernel) :
    GmStartResult × GmKernel :=
  match gmFreeSlot kernel with
  | none => (.busy, kernel)
  | some slot =>
    let kernel := gmProgramActivate slot kernel
    match load path with
    | none => (.error, gmProgramKernel kernel)
    | some entry =>
      let argLen := (args.getD []).length
      if gmProgramArgSize - 16 ≤ argLen then
        (.error, gmProgramKernel kernel)
      else
        (.ok slot,
          (gmProgramKernel (kernel.setApp slot
            { kernel.apps slot with
              context := gmStartContext argLen entry
              runtimeTicks := 0
              result := -1
              ownedResource := gmResourceNone
              waitingResource := gmResourceNone
              periodicId := periodicId
              state := .ready })).record (.started slot periodicId kernel.ticks))

/-- `gm_program_run`: the shell's `run` command. -/
def gmProgramRun (load : List UInt8 → Option Nat) (name : List UInt8)
    (args : Option (List UInt8)) (kernel : GmKernel) : Bool × GmKernel :=
  match gmProgramPath name with
  | none => (false, kernel)
  | some path => (true, (gmProgramStartPath load path args 0 kernel).2)

/-- The first inactive entry of the periodic table. -/
def gmFreePeriodic (kernel : GmKernel) : Option GmPeriodicIndex :=
  (List.finRange gmPeriodicMax).find? fun index =>
    !(kernel.periodics index).active

/-- `gm_periodic_add`. -/
def gmPeriodicAdd (seconds count : Nat) (name : List UInt8)
    (args : Option (List UInt8)) (kernel : GmKernel) : Bool × GmKernel :=
  if seconds = 0 ∨ count = 0 ∨ (2 ^ 64 - 1) / gmTickHz < seconds then
    (false, kernel)
  else
    match gmProgramPath name with
    | none => (false, kernel)
    | some path =>
      if gmPeriodicArgsMax ≤ (args.getD []).length then (false, kernel)
      else
        match gmFreePeriodic kernel with
        | none => (false, kernel)
        | some index =>
          let interval := seconds * gmTickHz
          let now := kernel.ticks
          if 2 ^ 64 - 1 - interval < now then (false, kernel)
          else
            (true,
              (kernel.setPeriodic index
                { intervalTicks := interval
                  nextTick := now + interval
                  remaining := count
                  slot := gmAppMax
                  active := true
                  name := path
                  args := args.getD [] }).record
                (.scheduled index interval count now))

/-- `gm_periodic_cancel`. -/
def gmPeriodicCancel (id : Nat) (kernel : GmKernel) : Bool × GmKernel :=
  if within : id < gmPeriodicMax then
    let periodic := kernel.periodics ⟨id, within⟩
    if periodic.active then
      (true, (kernel.setPeriodic ⟨id, within⟩
        { periodic with active := false }).record (.cancelled ⟨id, within⟩))
    else (false, kernel)
  else (false, kernel)

/-- The application an entry follows is still alive: its slot is in use and
was last started on behalf of this entry. -/
def gmPeriodicBusy (index : GmPeriodicIndex) (kernel : GmKernel) : Bool :=
  if within : (kernel.periodics index).slot < gmAppMax then
    let app := kernel.apps ⟨(kernel.periodics index).slot, within⟩
    app.periodicId == index.val + 1 && app.state != .free
  else false

/-- The tail of the loop body of `gm_periodic_poll`: launch when due. -/
def gmPeriodicLaunch (now : Nat) (load : List UInt8 → Option Nat)
    (index : GmPeriodicIndex) (kernel : GmKernel) : GmKernel :=
  let periodic := kernel.periodics index
  if now < periodic.nextTick then kernel
  else
    match gmProgramStartPath load periodic.name (some periodic.args)
        (index.val + 1) kernel with
    | (.busy, kernel) => kernel
    | (.error, kernel) =>
      (kernel.setPeriodic index
        { periodic with nextTick := now + periodic.intervalTicks }).record
        (.launchError index)
    | (.ok slot, kernel) =>
      kernel.setPeriodic index
        { periodic with
          slot := slot.val
          remaining := (periodic.remaining + (2 ^ 32 - 1)) % 2 ^ 32
          nextTick := now + periodic.intervalTicks }

/-- The loop body of `gm_periodic_poll` for one entry. -/
def gmPeriodicPollEntry (now : Nat) (load : List UInt8 → Option Nat)
    (index : GmPeriodicIndex) (kernel : GmKernel) : GmKernel :=
  let periodic := kernel.periodics index
  if periodic.active = false then kernel
  else if periodic.slot < gmAppMax then
    if gmPeriodicBusy index kernel then kernel
    else if periodic.remaining = 0 then
      (kernel.setPeriodic index
        { periodic with slot := gmAppMax, active := false }).record
        (.completed index)
    else
      gmPeriodicLaunch now load index
        (kernel.setPeriodic index { periodic with slot := gmAppMax })
  else gmPeriodicLaunch now load index kernel

/-- `gm_periodic_poll`.  The tick is read once, before the loop, so ticks that
pass while an image loads count as steps after the poll. -/
def gmPeriodicPoll (load : GmPeriodicIndex → List UInt8 → Option Nat)
    (kernel : GmKernel) : GmKernel :=
  (List.finRange gmPeriodicMax).foldl
    (fun polled index =>
      gmPeriodicPollEntry kernel.ticks (load index) index polled) kernel

/-- The slot `gm_program_schedule` picks: the first READY one from
`gm_program_next` on, in circular order. -/
def gmNextReady (kernel : GmKernel) : Option GmSlot :=
  ((List.range gmAppMax).map fun offset =>
    (⟨(kernel.programNext + offset) % gmAppMax,
      Nat.mod_lt _ (by decide)⟩ : GmSlot)).find? fun slot =>
    (kernel.apps slot).state == .ready

/-- `gm_program_schedule` up to the switch into ring 3. -/
def gmProgramSchedule (kernel : GmKernel) : Bool × GmKernel :=
  match gmNextReady kernel with
  | none => (false, kernel)
  | some slot =>
    let kernel := gmProgramActivate slot
      { kernel with programNext := (slot.val + 1) % gmAppMax }
    (true, (kernel.setApp slot
      { kernel.apps slot with state := .running }).record (.dispatched slot))

/-- The common end of every application: record the result, reclaim what it
owns and free the slot. -/
def terminateApp (slot : GmSlot) (result : Int) (kernel : GmKernel) :
    Except GmPanic GmKernel :=
  match gmResourceReclaim slot (kernel.setApp slot
      { kernel.apps slot with result := result }) with
  | .error panic => .error panic
  | .ok kernel =>
    .ok ((kernel.setApp slot
      { kernel.apps slot with state := .free }).record
        (.terminated slot result))

/-- `gm_program_finish`. -/
def gmProgramFinish (slot : GmSlot) (result : Int) (kernel : GmKernel) :
    Except GmPanic GmKernel :=
  match terminateApp slot result kernel with
  | .error panic => .error panic
  | .ok kernel => .ok (gmProgramKernel kernel)

/-- A trap taken from ring 3: both low bits of the saved code segment are set. -/
def fromUser (cs : UInt64) : Bool := cs &&& 3 == 3

/-- `gm_program_fault`.  The flag is the function's return value. -/
def gmProgramFault (vector : Nat) (cs : UInt64) (kernel : GmKernel) :
    Except GmPanic (Bool × GmKernel) :=
  let slot := kernel.current
  if (kernel.apps slot).state ≠ .running ∨ fromUser cs = false then
    .ok (false, kernel)
  else
    match terminateApp slot (-100 - vector) (gmProgramKernel kernel) with
    | .error panic => .error panic
    | .ok kernel => .ok (true, kernel)

/-- `gm_program_preempt`. -/
def gmProgramPreempt (frame : GmServiceFrame) (kernel : GmKernel) :
    Except GmPanic (Bool × GmKernel) :=
  let slot := kernel.current
  let app := kernel.apps slot
  if app.state ≠ .running ∨ fromUser frame.cs = false then
    .ok (false, kernel)
  else
    let app := { app with runtimeTicks := app.runtimeTicks + 1 }
    if gmProgramMaxTicks ≤ app.runtimeTicks then
      match terminateApp slot (-200)
          (gmProgramKernel (kernel.setApp slot app)) with
      | .error panic => .error panic
      | .ok kernel => .ok (true, kernel)
    else
      .ok (true, gmProgramKernel (kernel.setApp slot
        { app with context := frame, state := .ready }))

/-- `gm_isr_timer`: count the tick, then preempt. -/
def gmIsrTimer (frame : GmServiceFrame) (kernel : GmKernel) :
    Except GmPanic (Bool × GmKernel) :=
  gmProgramPreempt frame { kernel with ticks := kernel.ticks + 1 }

end Gmker.Programs
