import Mathlib.Logic.Function.Basic
import Gmker.Abi
import Gmker.Foundation.Ring

/-!
# Application slots, resources and periodic entries

The data of `programs.c`.  A pointer into `gm_apps` is a slot number, a
pointer into `gm_resources` is a resource index, and the `uint32_t` resource
identifiers stored in a slot are numbers with `0` for `GM_RESOURCE_NONE`.
Ticks are natural numbers: the 64-bit tick counter does not wrap.
-/

namespace Gmker.Programs

abbrev gmAppMax : Nat := 4
abbrev gmResourceNone : Nat := 0
abbrev gmResourceCount : Nat := 2
abbrev gmResourceBuckets : Nat := 60
abbrev gmResourceBucketTicks : Nat := 10 * gmTickHz
abbrev gmResourceWindowTicks : Nat := gmResourceBuckets * gmResourceBucketTicks
abbrev gmPeriodicMax : Nat := 4
abbrev gmPeriodicArgsMax : Nat := 256

abbrev GmSlot := Fin gmAppMax
abbrev GmResourceIndex := Fin gmResourceCount
abbrev GmPeriodicIndex := Fin gmPeriodicMax

/-- The slot states `GM_APP_FREE`, `GM_APP_READY`, `GM_APP_RUNNING` and
`GM_APP_BLOCKED`. -/
inductive GmAppState where
  | free
  | ready
  | running
  | blocked
  deriving DecidableEq, Repr

/-- `struct gm_service_frame`: the registers saved by a trap. -/
structure GmServiceFrame where
  rax : UInt64 := 0
  rbx : UInt64 := 0
  rcx : UInt64 := 0
  rdx : UInt64 := 0
  rsi : UInt64 := 0
  rdi : UInt64 := 0
  rbp : UInt64 := 0
  r8 : UInt64 := 0
  r9 : UInt64 := 0
  r10 : UInt64 := 0
  r11 : UInt64 := 0
  r12 : UInt64 := 0
  r13 : UInt64 := 0
  r14 : UInt64 := 0
  r15 : UInt64 := 0
  rip : UInt64 := 0
  cs : UInt64 := 0
  rflags : UInt64 := 0
  rsp : UInt64 := 0
  ss : UInt64 := 0
  deriving DecidableEq, Repr

/-- `struct gm_app_slot`. -/
structure GmAppSlot where
  resumeRsp : UInt64 := 0
  result : Int := 0
  state : GmAppState := .free
  runtimeTicks : Nat := 0
  cr3 : UInt64 := 0
  image : Nat := gmProgramBase
  arg : Nat := gmProgramArg
  stack : Nat := gmProgramStack
  context : GmServiceFrame := {}
  ownedResource : Nat := gmResourceNone
  waitingResource : Nat := gmResourceNone
  periodicId : Nat := 0

/-- `struct gm_resource`.  `owner` is the owning slot plus one, or zero. -/
structure GmResource where
  owner : Nat := 0
  wait : Nat → Nat := fun _ => 0
  waitHead : Nat := 0
  waitLen : Nat := 0
  acquiredTick : Nat := 0
  totalTicks : Nat := 0
  acquisitions : Nat := 0
  maxHold : Nat := 0
  recent : Nat → Nat := fun _ => 0

/-- The slots in the circular wait queue, oldest first. -/
def GmResource.waiters (resource : GmResource) : List Nat :=
  Foundation.ringContents gmAppMax resource.wait resource.waitHead
    resource.waitLen

/-- `struct gm_periodic`. -/
structure GmPeriodic where
  intervalTicks : Nat := 0
  nextTick : Nat := 0
  remaining : Nat := 0
  slot : Nat := 0
  active : Bool := false
  name : List UInt8 := []
  args : List UInt8 := []

/-- The fatal `gm_panic` exits of the resource manager. -/
inductive GmPanic where
  | resourceOwner
  | resourceWaiter
  | resourceWaitState
  | resourceReclaim
  | resourceWaitFull
  deriving DecidableEq, Repr

/-- What an observer of the kernel sees.  The code never reads this history. -/
inductive GmEvent where
  | acquired (slot : GmSlot) (resource : GmResourceIndex) (tick : Nat)
  | blocked (slot : GmSlot) (resource : GmResourceIndex)
  | granted (slot : GmSlot) (resource : GmResourceIndex) (tick : Nat)
  | released (slot : GmSlot) (resource : GmResourceIndex) (tick : Nat)
  | started (slot : GmSlot) (periodicId tick : Nat)
  | dispatched (slot : GmSlot)
  | terminated (slot : GmSlot) (result : Int)
  | scheduled (index : GmPeriodicIndex) (interval count tick : Nat)
  | cancelled (index : GmPeriodicIndex)
  | launchError (index : GmPeriodicIndex)
  | completed (index : GmPeriodicIndex)
  deriving DecidableEq, Repr

/-- The static variables of `programs.c`, the tick counter and the loaded
address space. -/
structure GmKernel where
  ticks : Nat := 0
  current : GmSlot := 0
  apps : GmSlot → GmAppSlot := fun _ => {}
  resources : GmResourceIndex → GmResource := fun _ => {}
  periodics : GmPeriodicIndex → GmPeriodic := fun _ => {}
  resourceEpochs : Nat → Nat := fun _ => 0
  programKernelCr3 : UInt64 := 0
  addressSpace : UInt64 := 0
  programNext : Nat := 0
  history : List GmEvent := []

namespace GmKernel

def setApp (kernel : GmKernel) (slot : GmSlot) (app : GmAppSlot) : GmKernel :=
  { kernel with apps := Function.update kernel.apps slot app }

def setResource (kernel : GmKernel) (index : GmResourceIndex)
    (resource : GmResource) : GmKernel :=
  { kernel with resources := Function.update kernel.resources index resource }

def setPeriodic (kernel : GmKernel) (index : GmPeriodicIndex)
    (periodic : GmPeriodic) : GmKernel :=
  { kernel with periodics := Function.update kernel.periodics index periodic }

def record (kernel : GmKernel) (event : GmEvent) : GmKernel :=
  { kernel with history := kernel.history ++ [event] }

end GmKernel

/-- The identifier stored in a slot for the resource with a given index. -/
def resourceId (index : GmResourceIndex) : Nat := index.val + 1

@[simp] theorem resourceId_inj {left right : GmResourceIndex} :
    resourceId left = resourceId right ↔ left = right := by
  simp [resourceId, Fin.ext_iff]

@[simp] theorem resourceId_ne_none (index : GmResourceIndex) :
    resourceId index ≠ gmResourceNone := by
  simp [resourceId]

/-- `gm_resource_get`. -/
def gmResourceGet (resource : Nat) : Option GmResourceIndex :=
  if within : resource ≠ 0 ∧ resource ≤ gmResourceCount then
    some ⟨resource - 1, by omega⟩
  else none

theorem gmResourceGet_eq_some {resource : Nat} {index : GmResourceIndex} :
    gmResourceGet resource = some index ↔ resource = resourceId index := by
  unfold gmResourceGet resourceId
  constructor
  · intro found
    split at found
    · cases found
      simp only
      omega
    · cases found
  · rintro rfl
    have bound := index.isLt
    simp only [Nat.add_sub_cancel]
    rw [dif_pos (by omega)]

theorem gmResourceGet_resourceId (index : GmResourceIndex) :
    gmResourceGet (resourceId index) = some index :=
  gmResourceGet_eq_some.mpr rfl

/-- `gm_program_activate`: run in the address space of an application. -/
def gmProgramActivate (slot : GmSlot) (kernel : GmKernel) : GmKernel :=
  { kernel with current := slot, addressSpace := (kernel.apps slot).cr3 }

/-- `gm_program_kernel`: return to the kernel address space. -/
def gmProgramKernel (kernel : GmKernel) : GmKernel :=
  { kernel with addressSpace := kernel.programKernelCr3 }

end Gmker.Programs
