import Gmker.Programs.Kernel

/-!
# The flow of control between the kernel loop and ring 3

`kernel_main` polls and dispatches; `gm_program_schedule` enters ring 3 and the
loop goes on when a trap handler returns to it.  So the entries of the kernel
are not taken in any order: shell commands, polls and the dispatcher run in the
loop, services, faults and preempting ticks come from ring 3, and a tick taken
while the kernel executes carries the kernel's code segment.

For every slot the machine notes what each step did to it.  These notes are
read off the states around the step and are never used by the code.
-/

namespace Gmker.Programs

/-- Who executes: the kernel loop, or the application that was dispatched. -/
inductive GmMode where
  | loop
  | user (slot : GmSlot)
  deriving DecidableEq, Repr

/-- The entries that can happen in a mode. -/
def gmEnabled : GmMode → GmStep → Bool
  | .loop, .run .. => true
  | .loop, .periodicAdd .. => true
  | .loop, .periodicCancel .. => true
  | .loop, .periodicPoll .. => true
  | .loop, .schedule => true
  | .loop, .timer frame => !fromUser frame.cs
  | .user _, .service _ frame => fromUser frame.cs
  | .user _, .fault _ cs => fromUser cs
  | .user _, .timer frame => fromUser frame.cs
  | _, _ => false

/-- A trap handler returned 1: control goes back to the kernel loop. -/
def gmTrapHandled (step : GmStep) (kernel : GmKernel) : Bool :=
  match step with
  | .service env frame =>
    match gmProgramService env frame kernel with
    | .ok outcome => outcome.handled
    | .error _ => false
  | .fault vector cs =>
    match gmProgramFault vector cs kernel with
    | .ok (handled, _) => handled
    | .error _ => false
  | .timer frame =>
    match gmIsrTimer frame kernel with
    | .ok (handled, _) => handled
    | .error _ => false
  | _ => false

/-- Where control is after a step. -/
def gmNextMode (step : GmStep) (kernel : GmKernel) : GmMode → GmMode
  | .user slot => if gmTrapHandled step kernel then .loop else .user slot
  | .loop =>
    match step, gmNextReady kernel with
    | .schedule, some slot => .user slot
    | _, _ => .loop

/-! ## What a step does to a slot -/

/-- What one step does to one slot. -/
inductive GmChange where
  | kept
  | launched (context : GmServiceFrame)
  | dispatched (context : GmServiceFrame)
  | preempted (frame : GmServiceFrame)
  | answered (frame : GmServiceFrame) (result : UInt64)
  | blocked (frame : GmServiceFrame)
  | granted
  | ended
  | expired
  deriving DecidableEq, Repr

/-- The value a service that does not block leaves in `rax`. -/
def gmServiceResult (env : GmServiceEnv) (frame : GmServiceFrame)
    (kernel : GmKernel) : UInt64 :=
  if frame.rax = gmSvcResourceAcquire then
    match gmResourceAcquireService kernel.current frame.rdi.toUInt32.toNat
        frame kernel with
    | .ok (.answered rax, _) => rax
    | _ => 0
  else if frame.rax = gmSvcResourceRelease then
    match gmResourceReleaseApp kernel.current frame.rdi.toUInt32.toNat
        kernel with
    | .ok (released, _) => released.toUInt64
    | .error _ => 0
  else
    match gmServiceAnswer env frame kernel with
    | .ok (rax, _) => rax
    | .error _ => 0

/-- The trap of the running application, seen from its slot. -/
def gmTrapChange (step : GmStep) (kernel : GmKernel) : GmAppState → GmChange
  | .ready =>
    match step with
    | .service env frame => .answered frame (gmServiceResult env frame kernel)
    | .timer frame => .preempted frame
    | _ => .kept
  | .blocked =>
    match step with
    | .service _ frame => .blocked frame
    | _ => .kept
  | .free =>
    match step with
    | .timer _ => .expired
    | _ => .ended
  | .running => .kept

/-- What a step did to a slot, from the states before and after it. -/
def gmObserve (step : GmStep) (before after : GmKernel) (slot : GmSlot) :
    GmChange :=
  match (before.apps slot).state, (after.apps slot).state with
  | .free, .ready => .launched (after.apps slot).context
  | .ready, .running => .dispatched (after.apps slot).context
  | .blocked, .ready => .granted
  | .running, state => gmTrapChange step before state
  | _, _ => .kept

/-- The kernel with its flow of control and, newest first, the changes of every
slot. -/
structure GmMachine where
  kernel : GmKernel
  mode : GmMode := .loop
  changes : GmSlot → List GmChange := fun _ => []

/-- Why a machine stops: a panic, or an entry that cannot happen now. -/
inductive GmStop where
  | panicked (panic : GmPanic)
  | disabled
  deriving DecidableEq, Repr

def gmMachineStep (step : GmStep) (machine : GmMachine) :
    Except GmStop GmMachine :=
  if gmEnabled machine.mode step then
    match gmStep step machine.kernel with
    | .error panic => .error (.panicked panic)
    | .ok kernel =>
      .ok
        { kernel := kernel
          mode := gmNextMode step machine.kernel machine.mode
          changes := fun slot =>
            gmObserve step machine.kernel kernel slot ::
              machine.changes slot }
  else .error .disabled

/-- A run of the machine from the state left by `gm_programs_init`. -/
def gmMachineRun (steps : List GmStep) (machine : GmMachine) :
    Except GmStop GmMachine :=
  Foundation.runSteps gmMachineStep steps machine

def gmMachineInit (kernelCr3 : UInt64) (cr3 : GmSlot → UInt64) : GmMachine :=
  { kernel := gmProgramsInit kernelCr3 cr3 }

/-- The frame of an acquire that still waits for its grant. -/
def gmAwaited : List GmChange → Option GmServiceFrame
  | .kept :: earlier => gmAwaited earlier
  | .blocked frame :: _ => some frame
  | _ => none

/-- The context a slot is to be resumed with: the one prepared at its start,
or its last trap frame with the answer of that trap in `rax`. -/
def gmSaved : List GmChange → Option GmServiceFrame
  | .kept :: earlier => gmSaved earlier
  | .launched context :: _ => some context
  | .preempted frame :: _ => some frame
  | .answered frame result :: _ => some { frame with rax := result }
  | .granted :: earlier =>
    (gmAwaited earlier).map fun frame => { frame with rax := 1 }
  | _ => none

/-- The ring-3 ticks charged since the last launch. -/
def gmCharged : List GmChange → Nat
  | [] => 0
  | .launched _ :: _ => 0
  | .preempted _ :: earlier => gmCharged earlier + 1
  | .expired :: earlier => gmCharged earlier + 1
  | _ :: earlier => gmCharged earlier

end Gmker.Programs
