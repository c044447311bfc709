import Gmker.Foundation.TableForest
import Gmker.Memory.Paging

/-!
# Address translation

The four-level walk of an x86_64 processor over the words of physical memory.
An address must be canonical, every entry on the way must be present, a
mapping may end early in a large page of 1 GiB or 2 MiB, and it carries a right
only if every entry on the way grants it.
-/

namespace Gmker.Memory

abbrev x86Huge : UInt64 := 0x080
abbrev x86NoExecute : UInt64 := 0x8000000000000000

/-- What the entries on the way allow. -/
structure X86Rights where
  writable : Bool := true
  user : Bool := true
  executable : Bool := true
  deriving DecidableEq, Repr

/-- A right survives an entry only if the entry grants it. -/
def X86Rights.through (rights : X86Rights) (entry : UInt64) : X86Rights :=
  { writable := rights.writable && decide (entry &&& gmPteWrite ≠ 0)
    user := rights.user && decide (entry &&& gmPteUser ≠ 0)
    executable := rights.executable && decide (entry &&& x86NoExecute = 0) }

/-- A physical address and the rights to it. -/
structure X86Translation where
  phys : Nat
  rights : X86Rights
  deriving DecidableEq, Repr

/-- The same mapping for the kernel only. -/
def X86Translation.supervisor (found : X86Translation) : X86Translation :=
  { found with rights := { found.rights with user := false } }

/-- The number of bytes that an entry at a level maps. -/
def x86Span (level : Nat) : Nat := 4096 * 512 ^ level

/-- The index of an address in a table at a level. -/
def x86Index (virt : UInt64) (level : Nat) : Fin 512 :=
  ⟨virt.toNat / x86Span level % 512, Nat.mod_lt _ (by decide)⟩

/-- The entries of the tables in memory. -/
def x86Entries (words : GmWords) (table : UInt64) (index : Fin 512) : UInt64 :=
  words (table.toNat / 8 + index)

/-- The mapping of a page, large or not, that an entry names. -/
def x86Leaf (virt entry : UInt64) (level : Nat) (rights : X86Rights) :
    X86Translation :=
  { phys := (gmTable entry).toNat / x86Span level * x86Span level +
      virt.toNat % x86Span level
    rights := rights.through entry }

/-- The walk from a table at a level.  The size bit is reserved in the entries
of the top level. -/
def x86Walk (words : GmWords) (virt : UInt64) :
    Nat → UInt64 → X86Rights → Option X86Translation
  | 0, table, rights =>
    let entry := x86Entries words table (x86Index virt 0)
    if entry &&& gmPtePresent = 0 then none
    else some (x86Leaf virt entry 0 rights)
  | level + 1, table, rights =>
    let entry := x86Entries words table (x86Index virt (level + 1))
    if entry &&& gmPtePresent = 0 then none
    else if entry &&& x86Huge ≠ 0 then
      if level + 1 = 3 then none
      else some (x86Leaf virt entry (level + 1) rights)
    else x86Walk words virt level (gmTable entry) (rights.through entry)

/-- Bits 47 to 63 of a canonical address are equal. -/
def lowerHalf (virt : UInt64) : Prop := virt.toNat < 0x800000000000

def upperHalf (virt : UInt64) : Prop := 0xffff800000000000 ≤ virt.toNat

instance (virt : UInt64) : Decidable (lowerHalf virt) :=
  inferInstanceAs (Decidable (_ < _))

instance (virt : UInt64) : Decidable (upperHalf virt) :=
  inferInstanceAs (Decidable (_ ≤ _))

/-- The translation of an address in the address space of a CR3 value. -/
def x86Translate (words : GmWords) (cr3 virt : UInt64) :
    Option X86Translation :=
  if lowerHalf virt ∨ upperHalf virt then
    x86Walk words virt 3 (gmTable cr3) {}
  else none

/-- The physical address that ring 3 reaches at a virtual address, if any: the
user bit is required at every level. -/
def x86UserPhys (words : GmWords) (cr3 virt : UInt64) : Option Nat :=
  match x86Translate words cr3 virt with
  | some found => if found.rights.user then some found.phys else none
  | none => none

/-- The table that an entry of an upper-level table leads to. -/
def x86Child (entry : UInt64) : Option UInt64 :=
  if entry &&& gmPtePresent ≠ 0 ∧ entry &&& x86Huge = 0 then
    some (gmTable entry)
  else none

/-- The pages that hold the page tables of an address space: those that a walk
reads at its four levels. -/
def TablePage (words : GmWords) (cr3 page : UInt64) : Prop :=
  ∃ path : List (Fin 512), path.length < 4 ∧
    Foundation.follow x86Child (x86Entries words) (gmTable cr3) path = some page

end Gmker.Memory
