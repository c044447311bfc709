import Gmker.Memory.AddressSpaces

/-!
# Pages, entries and the walk

The bit arithmetic of page-table entries, done once: which part of an entry is
an address, which entries the kernel writes, and what the walk does when it
meets one of them.
-/

namespace Gmker.Memory

open Foundation (Forest Tabulates follow)
open Gmker.Programs (GmSlot)

/-! ## Addresses in entries -/

theorem nat_and_pages (bits n : Nat) :
    n &&& ((2 ^ bits - 1) <<< 12) = n / 4096 % 2 ^ bits * 4096 := by
  have frame : n / 4096 % 2 ^ bits * 4096 =
      ((n >>> 12) &&& (2 ^ bits - 1)) <<< 12 := by
    rw [Nat.and_two_pow_sub_one_eq_mod, Nat.shiftRight_eq_div_pow,
      Nat.shiftLeft_eq]
  rw [frame]
  apply Nat.eq_of_testBit_eq
  intro bit
  simp only [Nat.testBit_and, Nat.testBit_shiftLeft, Nat.testBit_shiftRight]
  by_cases high : 12 ≤ bit
  · have back : 12 + (bit - 12) = bit := by omega
    simp [high, back]
  · simp [high]

theorem toNat_align (value : UInt64) :
    (value &&& ~~~(gmPageSize - 1)).toNat = value.toNat / 4096 * 4096 := by
  have bound := value.toNat_lt
  have mask : (~~~(gmPageSize - 1) : UInt64).toNat = (2 ^ 52 - 1) <<< 12 := by
    decide
  rw [UInt64.toNat_and, mask, nat_and_pages]
  omega

theorem toNat_gmTable (entry : UInt64) :
    (gmTable entry).toNat = entry.toNat / 4096 % 1099511627776 * 4096 := by
  have mask : gmAddrMask.toNat = (2 ^ 40 - 1) <<< 12 := by decide
  rw [gmTable, UInt64.toNat_and, mask]
  exact nat_and_pages 40 entry.toNat

/-- A page-aligned physical address of at most 52 bits. -/
def IsPage (page : UInt64) : Prop := gmTable page = page

theorem isPage_iff {page : UInt64} :
    IsPage page ↔ page.toNat % 4096 = 0 ∧ page.toNat < 4503599627370496 := by
  rw [IsPage, ← UInt64.toNat_inj, toNat_gmTable]
  omega

theorem isPage_gmTable (entry : UInt64) : IsPage (gmTable entry) := by
  rw [isPage_iff, toNat_gmTable]
  omega

private theorem or_and_distrib (left right mask : UInt64) :
    (left ||| right) &&& mask = (left &&& mask) ||| (right &&& mask) := by
  rw [← UInt64.toNat_inj]
  simp only [UInt64.toNat_and, UInt64.toNat_or]
  exact Nat.and_or_distrib_right ..

theorem IsPage.and_eq_zero {page flag : UInt64} (isPage : IsPage page)
    (low : gmAddrMask &&& flag = 0) : page &&& flag = 0 := by
  rw [← isPage, gmTable, UInt64.and_assoc, low, UInt64.and_zero]

theorem gmIndex_toNat {virt : UInt64} {shift level : Nat} (small : shift < 64)
    (span : 2 ^ shift = x86Span level) :
    (gmIndex virt (UInt64.ofNat shift)).toNat = (x86Index virt level).val := by
  rw [gmIndex, UInt64.toNat_and, UInt64.toNat_shiftRight]
  have mask : (0x1ff : UInt64).toNat = 2 ^ 9 - 1 := rfl
  have amount : (UInt64.ofNat shift).toNat % 64 = shift := by
    rw [UInt64.toNat_ofNat']
    omega
  rw [mask, amount, Nat.and_two_pow_sub_one_eq_mod, Nat.shiftRight_eq_div_pow,
    span]
  rfl

/-! ## The entries that the kernel writes for ring 3 -/

/-- The entry for a node of an address space: present, writable and open to
ring 3, or zero. -/
def gmEncode : Option UInt64 → UInt64
  | none => 0
  | some page => page ||| 7

theorem gmEncode_none_present : gmEncode none &&& gmPtePresent = 0 := by
  decide

section Encoded

variable {page : UInt64} (isPage : IsPage page)

include isPage

private theorem gmEncode_and {flag : UInt64}
    (low : gmAddrMask &&& flag = 0) :
    gmEncode (some page) &&& flag = 7 &&& flag := by
  rw [gmEncode, or_and_distrib, isPage.and_eq_zero low, UInt64.zero_or]

theorem gmEncode_present : gmEncode (some page) &&& gmPtePresent ≠ 0 := by
  rw [gmEncode_and isPage (by decide)]
  decide

theorem gmEncode_huge : gmEncode (some page) &&& x86Huge = 0 := by
  rw [gmEncode_and isPage (by decide)]
  decide

theorem gmTable_gmEncode : gmTable (gmEncode (some page)) = page := by
  have address : gmTable page = page := isPage
  have flags : (7 : UInt64) &&& gmAddrMask = 0 := by decide
  rw [gmTable, gmEncode, or_and_distrib, flags, UInt64.or_zero]
  exact address

theorem X86Rights.through_gmEncode (rights : X86Rights) :
    rights.through (gmEncode (some page)) = rights := by
  have writes := gmEncode_and isPage (show gmAddrMask &&& gmPteWrite = 0 by
    decide)
  have users := gmEncode_and isPage (show gmAddrMask &&& gmPteUser = 0 by
    decide)
  have executes := gmEncode_and isPage (show gmAddrMask &&& x86NoExecute = 0 by
    decide)
  have write : (7 : UInt64) &&& gmPteWrite ≠ 0 := by decide
  have user : (7 : UInt64) &&& gmPteUser ≠ 0 := by decide
  have execute : (7 : UInt64) &&& x86NoExecute = 0 := by decide
  rw [through, writes, users, executes]
  simp [write, user, execute]

theorem x86Child_gmEncode : x86Child (gmEncode (some page)) = some page := by
  rw [x86Child, if_pos ⟨gmEncode_present isPage, gmEncode_huge isPage⟩,
    gmTable_gmEncode isPage]

/-- What `gm_map_page_flags` writes for a page of ring 3. -/
theorem leaf_entry :
    (page &&& gmAddrMask) ||| (0x002 ||| gmPteUser) ||| gmPtePresent =
      gmEncode (some page) := by
  have address : page &&& gmAddrMask = page := isPage
  rw [address, UInt64.or_assoc]
  rfl

end Encoded

/-- What `gm_next_table` writes for a fresh page. -/
theorem fresh_entry (page : UInt64) :
    page ||| gmPtePresent ||| gmPteWrite ||| gmPteUser =
      gmEncode (some page) := by
  rw [UInt64.or_assoc, UInt64.or_assoc]
  rfl

/-- `gm_next_table` leaves an entry of an existing table as it is. -/
theorem kept_entry (page : UInt64) :
    gmEncode (some page) ||| gmPteUser = gmEncode (some page) := by
  rw [gmEncode, UInt64.or_assoc]
  rfl

theorem x86Child_none : x86Child (gmEncode none) = none := by
  decide

/-! ## Entries with or without the user right -/

section OrUser

variable (entry flags : UInt64)

theorem or_user_and {mask : UInt64} (apart : gmPteUser &&& mask = 0) :
    (entry ||| flags &&& gmPteUser) &&& mask = entry &&& mask := by
  rw [or_and_distrib, UInt64.and_assoc, apart, UInt64.and_zero, UInt64.or_zero]

theorem x86Child_or_user :
    x86Child (entry ||| flags &&& gmPteUser) = x86Child entry := by
  rw [x86Child, x86Child, gmTable, gmTable, or_user_and entry flags (by decide),
    or_user_and entry flags (by decide), or_user_and entry flags (by decide)]

/-- What `gm_next_table` writes for a fresh page leads to it. -/
theorem x86Child_fresh {page : UInt64} (isPage : IsPage page) :
    x86Child (page ||| gmPtePresent ||| gmPteWrite ||| flags &&& gmPteUser) =
      some page := by
  have user : gmPteUser &&& gmPteUser = gmPteUser := by decide
  rw [x86Child_or_user, ← x86Child_or_user _ gmPteUser, user, fresh_entry,
    x86Child_gmEncode isPage]

end OrUser

/-! ## The shared entries -/

section Shared

variable (entry : UInt64)

private theorem shared_and {flag : UInt64}
    (kept : ~~~gmPteUser &&& flag = flag) :
    entry &&& ~~~gmPteUser &&& flag = entry &&& flag := by
  rw [UInt64.and_assoc, kept]

theorem gmTable_shared : gmTable (entry &&& ~~~gmPteUser) = gmTable entry := by
  exact shared_and entry (by decide)

theorem shared_present :
    entry &&& ~~~gmPteUser &&& gmPtePresent = entry &&& gmPtePresent :=
  shared_and entry (by decide)

theorem shared_huge :
    entry &&& ~~~gmPteUser &&& x86Huge = entry &&& x86Huge :=
  shared_and entry (by decide)

theorem x86Child_shared :
    x86Child (entry &&& ~~~gmPteUser) = x86Child entry := by
  rw [x86Child, x86Child, shared_present, shared_huge, gmTable_shared]

/-- A shared entry grants what the original grants, to the kernel only. -/
theorem X86Rights.through_shared (rights : X86Rights) :
    rights.through (entry &&& ~~~gmPteUser) =
      { rights.through entry with user := false } := by
  have user : entry &&& ~~~gmPteUser &&& gmPteUser = 0 := by
    rw [UInt64.and_assoc]
    have cleared : ~~~gmPteUser &&& gmPteUser = 0 := by decide
    rw [cleared, UInt64.and_zero]
  have writes := shared_and entry (show ~~~gmPteUser &&& gmPteWrite =
    gmPteWrite by decide)
  have executes := shared_and entry (show ~~~gmPteUser &&& x86NoExecute =
    x86NoExecute by decide)
  rw [through, through, user, writes, executes]
  simp

end Shared

/-! ## The walk -/

section Walk

variable {words : GmWords} {virt table page : UInt64} {level : Nat}
  {rights : X86Rights}

theorem x86Walk_absent
    (absent : x86Entries words table (x86Index virt level) = gmEncode none) :
    x86Walk words virt level table rights = none := by
  have missing : x86Entries words table (x86Index virt level) &&&
      gmPtePresent = 0 := by
    rw [absent]
    exact gmEncode_none_present
  cases level with
  | zero => rw [x86Walk, if_pos missing]
  | succ level => rw [x86Walk, if_pos missing]

theorem x86Walk_next (isPage : IsPage page)
    (found : x86Entries words table (x86Index virt (level + 1)) =
      gmEncode (some page)) :
    x86Walk words virt (level + 1) table rights =
      x86Walk words virt level page rights := by
  have huge := gmEncode_huge isPage
  rw [x86Walk]
  simp only [found]
  rw [if_neg (gmEncode_present isPage), if_neg (not_not_intro huge),
    gmTable_gmEncode isPage, X86Rights.through_gmEncode isPage]

theorem x86Walk_leaf (isPage : IsPage page)
    (found : x86Entries words table (x86Index virt 0) =
      gmEncode (some page)) :
    x86Walk words virt 0 table rights =
      some { phys := page.toNat + virt.toNat % 4096, rights := rights } := by
  have aligned := (isPage_iff.mp isPage).1
  have base : page.toNat / 4096 * 4096 = page.toNat := by omega
  rw [x86Walk]
  simp only [found]
  rw [if_neg (gmEncode_present isPage), x86Leaf, gmTable_gmEncode isPage,
    X86Rights.through_gmEncode isPage]
  simp only [x86Span, Nat.pow_zero, Nat.mul_one, base]

/-- Taking the user right away at the top takes it away at the end. -/
theorem x86Walk_supervisor :
    x86Walk words virt level table { rights with user := false } =
      (x86Walk words virt level table rights).map
        X86Translation.supervisor := by
  induction level generalizing table rights with
  | zero =>
    simp only [x86Walk]
    split
    · rfl
    · simp [x86Leaf, X86Rights.through, X86Translation.supervisor]
  | succ level induction =>
    simp only [x86Walk]
    split
    · rfl
    · split
      · split
        · rfl
        · simp [x86Leaf, X86Rights.through, X86Translation.supervisor]
      · rw [← induction]
        simp [X86Rights.through]

/-- Going through a shared entry takes the user right away. -/
theorem x86Walk_shared {other : UInt64}
    (shared : x86Entries words other (x86Index virt (level + 1)) =
      x86Entries words table (x86Index virt (level + 1)) &&& ~~~gmPteUser) :
    x86Walk words virt (level + 1) other rights =
      (x86Walk words virt (level + 1) table rights).map
        X86Translation.supervisor := by
  simp only [x86Walk, shared, shared_present, shared_huge, gmTable_shared,
    X86Rights.through_shared]
  split
  · rfl
  · split
    · split
      · rfl
      · simp [x86Leaf, X86Rights.through_shared, gmTable_shared,
          X86Translation.supervisor]
    · exact x86Walk_supervisor

/-- A walk reads only table pages. -/
theorem x86Walk_congr {later : GmWords} {cr3 : UInt64}
    {above : List (Fin 512)} (shallow : above.length + level = 3)
    (reached : follow x86Child (x86Entries words) (gmTable cr3) above =
      some table)
    (same : ∀ page index, TablePage words cr3 page →
      x86Entries later page index = x86Entries words page index) :
    x86Walk later virt level table rights =
      x86Walk words virt level table rights := by
  induction level generalizing table rights above with
  | zero =>
    have entry := same table (x86Index virt 0) ⟨above, by omega, reached⟩
    simp only [x86Walk, entry]
  | succ level induction =>
    have entry := same table (x86Index virt (level + 1))
      ⟨above, by omega, reached⟩
    simp only [x86Walk, entry]
    split
    · rfl
    · rename_i present
      split
      · rfl
      · rename_i small
        have child : x86Child (x86Entries words table
            (x86Index virt (level + 1))) =
            some (gmTable (x86Entries words table
              (x86Index virt (level + 1)))) := by
          rw [x86Child, if_pos ⟨present, not_not.mp small⟩]
        have deeper : (x86Index virt (level + 1) :: above).length + level =
            3 := by
          rw [List.length_cons]
          omega
        apply induction deeper
        rw [follow, reached, Option.bind_some, child]

end Walk

/-! ## An address space held by a forest -/

/-- The indices of an address, deepest first. -/
def virtPath (virt : UInt64) : List (Fin 512) :=
  [x86Index virt 0, x86Index virt 1, x86Index virt 2, x86Index virt 3]

/-- The paths of the lower half. -/
def LowerPath (path : List (Fin 512)) : Prop :=
  ∀ top, path.getLast? = some top → top.val < 256

theorem LowerPath.above {index : Fin 512} {path : List (Fin 512)}
    (lower : LowerPath (index :: path)) : LowerPath path := by
  intro top last
  apply lower top
  cases path with
  | nil => cases last
  | cons next path => rw [List.getLast?_cons_cons, last]

theorem lowerPath_nil : LowerPath [] := by
  intro top last
  cases last

theorem virtPath_lower {virt : UInt64} (lower : lowerHalf virt) :
    LowerPath (virtPath virt) := by
  intro top last
  have bound : virt.toNat < 0x800000000000 := lower
  simp only [virtPath, List.getLast?_cons_cons, List.getLast?_singleton,
    Option.some.injEq] at last
  subst last
  simp only [x86Index, x86Span]
  omega

abbrev GmForest := Forest GmSlot (Fin 512) UInt64

/-- The lower halves of the address spaces are the trees of the forest: tables
at depths below four, pages of ring 3 at depth four. -/
structure Mapped (words : GmWords) (forest : GmForest) : Prop where
  grown : forest.Grown
  shallow {slot path page} (here : forest slot path = some page) :
    path.length ≤ 4
  paged {slot path page} (here : forest slot path = some page) : IsPage page
  tables : Tabulates 4 LowerPath gmEncode (x86Entries words) forest

/-- Translation in the lower half finds the pages of the forest. -/
theorem Mapped.translate {words : GmWords} {forest : GmForest}
    (mapped : Mapped words forest) {slot : GmSlot} {cr3 virt : UInt64}
    (root : forest slot [] = some cr3) (lower : lowerHalf virt) :
    x86Translate words cr3 virt =
      (forest slot (virtPath virt)).map fun page =>
        { phys := page.toNat + virt.toNat % 4096, rights := {} } := by
  have lower0 := virtPath_lower lower
  have lower1 := lower0.above
  have lower2 := lower1.above
  have lower3 := lower2.above
  have below : ∀ path index, forest slot path = none →
      forest slot (index :: path) = none :=
    fun path index absent => mapped.grown.absent_below absent index
  have isRoot : gmTable cr3 = cr3 := mapped.paged root
  rw [x86Translate, if_pos (.inl lower), isRoot]
  have entry3 := mapped.tables slot [] _ cr3 (by decide) lower3 root
  cases first : forest slot [x86Index virt 3] with
  | none =>
    rw [first] at entry3
    rw [x86Walk_absent entry3, virtPath, below _ _ (below _ _ (below _ _ first))]
    rfl
  | some pdpt =>
    rw [first] at entry3
    rw [x86Walk_next (mapped.paged first) entry3]
    have entry2 := mapped.tables slot _ _ pdpt (by simp) lower2 first
    cases second : forest slot [x86Index virt 2, x86Index virt 3] with
    | none =>
      rw [second] at entry2
      rw [x86Walk_absent entry2, virtPath, below _ _ (below _ _ second)]
      rfl
    | some pd =>
      rw [second] at entry2
      rw [x86Walk_next (mapped.paged second) entry2]
      have entry1 := mapped.tables slot _ _ pd (by simp) lower1 second
      cases third : forest slot
          [x86Index virt 1, x86Index virt 2, x86Index virt 3] with
      | none =>
        rw [third] at entry1
        rw [x86Walk_absent entry1, virtPath, below _ _ third]
        rfl
      | some pt =>
        rw [third] at entry1
        rw [x86Walk_next (mapped.paged third) entry1]
        have entry0 := mapped.tables slot _ _ pt (by simp) lower0 third
        cases fourth : forest slot (virtPath virt) with
        | none =>
          rw [virtPath] at fourth
          rw [fourth] at entry0
          rw [x86Walk_absent entry0]
          rfl
        | some page =>
          have isPage := mapped.paged fourth
          rw [virtPath] at fourth
          rw [fourth] at entry0
          rw [x86Walk_leaf isPage entry0]
          rfl

end Gmker.Memory
