import Gmker.Foundation.Outcomes
import Mathlib.Algebra.Group.Nat.Defs
import Mathlib.Logic.Function.Basic

/-!
# Physical memory and page tables

The memory functions of `core.c`.  Physical memory is a sequence of 64-bit
words; the word with number `n` lies at the physical address `8 * n`.  A
pointer into the direct map, as `gm_phys` makes it, is written as the physical
address it stands for: the boot loader maps all usable memory there.  Entries
are invalidated in the TLB where the code does so, which has no counterpart
here because translation always reads the tables.
-/

namespace Gmker.Memory

abbrev gmPageSize : UInt64 := 4096
abbrev gmPtePresent : UInt64 := 0x001
abbrev gmPteWrite : UInt64 := 0x002
abbrev gmPteUser : UInt64 := 0x004
abbrev gmAddrMask : UInt64 := 0x000ffffffffff000
abbrev gmMinPhys : UInt64 := 0x1000000
abbrev limineMemmapUsable : UInt64 := 0

/-- The `gm_panic` exits of the memory functions and of `gm_programs_init`, and
the panic of a page fault that the kernel itself takes. -/
inductive GmMemoryPanic where
  | noUsableMemory
  | outOfPages
  | programMap
  | programIsolation
  | pageFault
  deriving DecidableEq, Repr

abbrev GmWords := Nat → UInt64

/-- Physical memory, the static variables of the page allocator, the CR3
register and the console.  `handed` lists the pages that `gm_page_alloc` has
returned, newest first; the code never reads it. -/
structure GmMemory where
  words : GmWords
  pageNext : UInt64
  pageEnd : UInt64
  cr3 : UInt64
  console : String := ""
  handed : List UInt64 := []

/-! ## The page allocator -/

/-- `struct limine_memmap_entry`. -/
structure LimineMemmapEntry where
  base : UInt64
  length : UInt64
  type : UInt64
  deriving DecidableEq, Repr

/-- `gm_align_up`. -/
def gmAlignUp (value align : UInt64) : UInt64 :=
  (value + align - 1) &&& ~~~(align - 1)

/-- One entry of the loop in `gm_memory_init`: the best region so far. -/
def gmBestRegion (best : UInt64 × UInt64) (entry : LimineMemmapEntry) :
    UInt64 × UInt64 :=
  if entry.type ≠ limineMemmapUsable then best
  else if entry.base + entry.length ≤ gmMinPhys then best
  else
    let base := gmAlignUp
      (if entry.base < gmMinPhys then gmMinPhys else entry.base) gmPageSize
    if entry.base + entry.length ≤ base then best
    else if best.1 = 0 ∨ best.2 - best.1 < entry.base + entry.length - base then
      (base, (entry.base + entry.length) &&& ~~~(gmPageSize - 1))
    else best

/-- `gm_memory_init` on the machine that the boot loader left. -/
def gmMemoryInit (memmap : List LimineMemmapEntry) (words : GmWords)
    (cr3 : UInt64) : Except GmMemoryPanic GmMemory :=
  let best := memmap.foldl gmBestRegion (0, 0)
  if best.1 = 0 ∨ best.2 ≤ best.1 then .error .noUsableMemory
  else
    .ok
      { words := words
        pageNext := best.1
        pageEnd := best.2
        cr3 := cr3
        console := "memory " ++
          toString ((best.2 - best.1) / 1024 / 1024).toNat ++ " MiB\n" }

/-- Clear the words of a page, `gm_memset(gm_phys(page),0,GM_PAGE_SIZE)`. -/
def clearPage (page : UInt64) (words : GmWords) : GmWords := fun word =>
  if page.toNat / 8 ≤ word ∧ word < page.toNat / 8 + 512 then 0 else words word

/-- `gm_page_alloc`. -/
def gmPageAlloc (memory : GmMemory) :
    Except GmMemoryPanic (UInt64 × GmMemory) :=
  if memory.pageEnd < memory.pageNext + gmPageSize then .error .outOfPages
  else
    .ok (memory.pageNext,
      { memory with
        words := clearPage memory.pageNext memory.words
        pageNext := memory.pageNext + gmPageSize
        handed := memory.pageNext :: memory.handed })

/-! ## Page tables -/

/-- The word number of `table[index]`. -/
def entryWord (table index : UInt64) : Nat := table.toNat / 8 + index.toNat

def GmMemory.entry (memory : GmMemory) (table index : UInt64) : UInt64 :=
  memory.words (entryWord table index)

def GmMemory.setEntry (memory : GmMemory) (table index value : UInt64) :
    GmMemory :=
  { memory with
    words := Function.update memory.words (entryWord table index) value }

/-- `gm_table`. -/
def gmTable (entry : UInt64) : UInt64 := entry &&& gmAddrMask

/-- `gm_next_table`. -/
def gmNextTable (table index flags : UInt64) (memory : GmMemory) :
    Except GmMemoryPanic (UInt64 × GmMemory) := do
  if memory.entry table index &&& gmPtePresent = 0 then
    let (phys, memory) ← gmPageAlloc memory
    let memory := memory.setEntry table index
      (phys ||| gmPtePresent ||| gmPteWrite ||| flags)
    return (gmTable (memory.entry table index), memory)
  else
    let memory := memory.setEntry table index
      (memory.entry table index ||| flags)
    return (gmTable (memory.entry table index), memory)

/-- The index of an address in a table, `(virt>>shift)&0x1ff`. -/
def gmIndex (virt shift : UInt64) : UInt64 := (virt >>> shift) &&& 0x1ff

/-- `gm_map_page_flags`. -/
def gmMapPageFlags (cr3 virt phys flags : UInt64) (memory : GmMemory) :
    Except GmMemoryPanic (Bool × GmMemory) := do
  if virt &&& 0xfff ≠ 0 ∨ phys &&& 0xfff ≠ 0 then return (false, memory)
  else
    let (pdpt, memory) ← gmNextTable (gmTable cr3) (gmIndex virt 39)
      (flags &&& gmPteUser) memory
    let (pd, memory) ← gmNextTable pdpt (gmIndex virt 30)
      (flags &&& gmPteUser) memory
    let (pt, memory) ← gmNextTable pd (gmIndex virt 21)
      (flags &&& gmPteUser) memory
    if memory.entry pt (gmIndex virt 12) &&& gmPtePresent ≠ 0 then
      return (false, memory)
    else
      return (true, memory.setEntry pt (gmIndex virt 12)
        ((phys &&& gmAddrMask) ||| flags ||| gmPtePresent))

/-- `gm_map_page`. -/
def gmMapPage (virt phys flags : UInt64) (memory : GmMemory) :
    Except GmMemoryPanic (Bool × GmMemory) :=
  gmMapPageFlags memory.cr3 virt phys flags memory

/-- `gm_map_user_page_in`. -/
def gmMapUserPageIn (cr3 virt phys flags : UInt64) (memory : GmMemory) :
    Except GmMemoryPanic (Bool × GmMemory) :=
  gmMapPageFlags cr3 virt phys (flags ||| gmPteUser) memory

/-- One turn of the loop of `gm_address_space_create`. -/
def gmShareEntry (source target : UInt64) (memory : GmMemory)
    (index : UInt64) : GmMemory :=
  memory.setEntry target index (memory.entry source index &&& ~~~gmPteUser)

/-- The indices of the upper half of a top-level table. -/
def gmUpperIndices : List UInt64 :=
  (List.range 256).map fun index => UInt64.ofNat (256 + index)

/-- `gm_address_space_create`. -/
def gmAddressSpaceCreate (memory : GmMemory) :
    Except GmMemoryPanic (UInt64 × GmMemory) := do
  let source := memory.cr3
  let (phys, memory) ← gmPageAlloc memory
  return (phys,
    gmUpperIndices.foldl (gmShareEntry (gmTable source) phys) memory)

/-- `gm_address_space_switch`. -/
def gmAddressSpaceSwitch (cr3 : UInt64) (memory : GmMemory) : GmMemory :=
  { memory with cr3 := cr3 }

end Gmker.Memory
