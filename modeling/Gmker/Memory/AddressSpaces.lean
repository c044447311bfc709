import Gmker.Memory.Translation
import Gmker.Programs.Kernel

/-!
# The address spaces of the application slots

`gm_programs_init` builds one address space per slot and checks that two of
them are apart.  The kernel writes to an arena through its virtual addresses,
so these writes are translated by the tables that were just built.
-/

namespace Gmker.Memory

open Gmker.Programs
open Foundation (runSteps)

/-- A store by the kernel through a virtual address. -/
def storeWord (virt value : UInt64) (memory : GmMemory) :
    Except GmMemoryPanic GmMemory :=
  match x86Translate memory.words memory.cr3 virt with
  | none => .error .pageFault
  | some found =>
    if found.rights.writable then
      .ok { memory with
        words := Function.update memory.words (found.phys / 8) value }
    else .error .pageFault

/-- A load by the kernel through a virtual address. -/
def loadWord (virt : UInt64) (memory : GmMemory) :
    Except GmMemoryPanic UInt64 :=
  match x86Translate memory.words memory.cr3 virt with
  | none => .error .pageFault
  | some found => .ok (memory.words (found.phys / 8))

/-- The virtual addresses of consecutive words. -/
def wordsFrom (virt : Nat) (size : Nat) : List UInt64 :=
  (List.range (size / 8)).map fun index => UInt64.ofNat (virt + 8 * index)

def clearWord (virt : UInt64) (memory : GmMemory) :
    Except GmMemoryPanic GmMemory :=
  storeWord virt 0 memory

/-- `gm_memset` with value zero on words of the current address space. -/
def gmMemset (virt size : Nat) (memory : GmMemory) :
    Except GmMemoryPanic GmMemory :=
  runSteps clearWord (wordsFrom virt size) memory

/-- `gm_program_clear` in the current address space. -/
def gmProgramClear (memory : GmMemory) : Except GmMemoryPanic GmMemory := do
  let memory ← gmMemset gmProgramBase gmProgramImageMax memory
  let memory ← gmMemset gmProgramArg gmProgramArgSize memory
  gmMemset gmProgramStack gmProgramStackSize memory

/-- The values of `virt` in the loop of `gm_programs_init`. -/
def gmArenaPages : List UInt64 :=
  (List.range ((gmProgramEnd - gmProgramBase) / 4096)).map fun index =>
    UInt64.ofNat (gmProgramBase + 4096 * index)

/-- One turn of that loop. -/
def gmMapArenaPage (cr3 virt : UInt64) (memory : GmMemory) :
    Except GmMemoryPanic GmMemory := do
  if virt = UInt64.ofNat gmProgramGuard then return memory
  else
    let (phys, memory) ← gmPageAlloc memory
    let (mapped, memory) ← gmMapUserPageIn cr3 virt phys 0x002 memory
    if mapped then return memory else throw .programMap

/-- The address spaces made so far and the memory they lie in. -/
structure GmSpaces where
  memory : GmMemory
  cr3 : GmSlot → UInt64 := fun _ => 0

/-- One turn of the slot loop of `gm_programs_init`. -/
def gmSlotInit (kernelCr3 : UInt64) (slot : GmSlot) (spaces : GmSpaces) :
    Except GmMemoryPanic GmSpaces := do
  let (cr3, memory) ← gmAddressSpaceCreate spaces.memory
  let memory ← runSteps (gmMapArenaPage cr3) gmArenaPages memory
  let memory ← gmProgramClear (gmAddressSpaceSwitch cr3 memory)
  return { memory := gmAddressSpaceSwitch kernelCr3 memory
           cr3 := Function.update spaces.cr3 slot cr3 }

theorem zero_lt_gmAppMax : 0 < gmAppMax := by decide

theorem one_lt_gmAppMax : 1 < gmAppMax := by decide

/-- The two slots of the isolation check, `gm_apps[0]` and `gm_apps[1]`. -/
def firstSlot : GmSlot := ⟨0, zero_lt_gmAppMax⟩

def secondSlot : GmSlot := ⟨1, one_lt_gmAppMax⟩

/-- The address that the isolation check writes. -/
abbrev probe : UInt64 := UInt64.ofNat gmProgramBase

/-- `gm_program_isolation_check`. -/
def gmProgramIsolationCheck (kernelCr3 : UInt64) (cr3 : GmSlot → UInt64)
    (memory : GmMemory) : Except GmMemoryPanic GmMemory := do
  let memory ← storeWord probe 0x1122334455667788
    (gmAddressSpaceSwitch (cr3 firstSlot) memory)
  let memory := gmAddressSpaceSwitch (cr3 secondSlot) memory
  let before ← loadWord probe memory
  if before ≠ 0 then throw .programIsolation
  else
    let memory ← storeWord probe 0x8877665544332211 memory
    let memory := gmAddressSpaceSwitch (cr3 firstSlot) memory
    let first ← loadWord probe memory
    if first ≠ 0x1122334455667788 then throw .programIsolation
    else
      let memory := gmAddressSpaceSwitch (cr3 secondSlot) memory
      let second ← loadWord probe memory
      if second ≠ 0x8877665544332211 then throw .programIsolation
      else
        let memory ← gmProgramClear memory
        let memory ← gmProgramClear (gmAddressSpaceSwitch (cr3 firstSlot) memory)
        return gmAddressSpaceSwitch kernelCr3 memory

/-- `gm_programs_init`: the slots with their address spaces, and the memory
that holds them. -/
def gmProgramsInit (memory : GmMemory) :
    Except GmMemoryPanic (GmKernel × GmMemory) := do
  let spaces ← runSteps (gmSlotInit memory.cr3) (List.finRange gmAppMax)
    { memory := memory }
  let after ← gmProgramIsolationCheck memory.cr3 spaces.cr3 spaces.memory
  return (Programs.gmProgramsInit memory.cr3 spaces.cr3, after)

/-! ## The kernel before the applications -/

/-- What the drivers do to memory between `gm_memory_init` and
`gm_programs_init`: they take pages, store anywhere, and map device registers
into the kernel's address space. -/
inductive GmEarly where
  | pageAlloc
  | store (word : Nat) (value : UInt64)
  | mapPage (virt phys flags : UInt64)
  deriving DecidableEq, Repr

def gmEarlyStep : GmEarly → GmMemory → Except GmMemoryPanic GmMemory
  | .pageAlloc, memory => (gmPageAlloc memory).map Prod.snd
  | .store word value, memory =>
    .ok { memory with words := Function.update memory.words word value }
  | .mapPage virt phys flags, memory =>
    (gmMapPage virt phys flags memory).map Prod.snd

def gmEarlyRun (early : List GmEarly) (memory : GmMemory) :
    Except GmMemoryPanic GmMemory :=
  runSteps gmEarlyStep early memory

end Gmker.Memory
