import Gmker.Foundation.Runs
import Gmker.Programs.Services

/-!
# Runs of the application kernel

One step is one entry into `programs.c`: a shell command, a pass of the kernel
loop, or a trap.  A run is any finite sequence of such steps, in any order and
with any data, from the state left by `gm_programs_init`.
-/

namespace Gmker.Programs

/-- The entries into the application kernel. -/
inductive GmStep where
  | run (load : List UInt8 → Option Nat) (name : List UInt8)
      (args : Option (List UInt8))
  | periodicAdd (seconds : UInt64) (count : UInt32) (name : List UInt8)
      (args : Option (List UInt8))
  | periodicCancel (id : UInt32)
  | periodicPoll (load : GmPeriodicIndex → List UInt8 → Option Nat)
  | schedule
  | service (env : GmServiceEnv) (frame : GmServiceFrame)
  | fault (vector : Nat) (cs : UInt64)
  | timer (frame : GmServiceFrame)

/-- `gm_programs_init`, given the address spaces created for the slots. -/
def gmProgramsInit (kernelCr3 : UInt64) (cr3 : GmSlot → UInt64) : GmKernel :=
  { programKernelCr3 := kernelCr3
    addressSpace := kernelCr3
    apps := fun slot => { cr3 := cr3 slot } }

/-- One entry into the kernel.  A fault or timer tick that is not taken from a
running application leaves slots and resources alone. -/
def gmStep : GmStep → GmKernel → Except GmPanic GmKernel
  | .run load name args, kernel => .ok (gmProgramRun load name args kernel).2
  | .periodicAdd seconds count name args, kernel =>
    .ok (gmPeriodicAdd seconds.toNat count.toNat name args kernel).2
  | .periodicCancel id, kernel => .ok (gmPeriodicCancel id.toNat kernel).2
  | .periodicPoll load, kernel => .ok (gmPeriodicPoll load kernel)
  | .schedule, kernel => .ok (gmProgramSchedule kernel).2
  | .service env frame, kernel =>
    (gmProgramService env frame kernel).map GmServiceOutcome.kernel
  | .fault vector cs, kernel => (gmProgramFault vector cs kernel).map Prod.snd
  | .timer frame, kernel => (gmIsrTimer frame kernel).map Prod.snd

/-- A whole run. -/
def gmRun (steps : List GmStep) (kernel : GmKernel) :
    Except GmPanic GmKernel :=
  Foundation.runSteps gmStep steps kernel

end Gmker.Programs
