import Gmker.Memory.Building

/-!
# One address space per slot

A new address space is a root with the kernel's upper half; mapping a page
extends its tree by the missing tables and one page of ring 3.
-/

namespace Gmker.Memory

open Foundation (Forest Tabulates Gives gives_ok gives_error follow)
open Gmker.Programs (GmSlot)

/-- The kernel's page tables lie outside the pages that the allocator has
left. -/
def Located (before : GmMemory) : Prop :=
  ∀ page, TablePage before.words before.cr3 page →
    page.toNat + 4096 ≤ before.pageNext.toNat ∨
      before.pageEnd.toNat ≤ page.toNat

theorem Located.root {before : GmMemory} (located : Located before) :
    (gmTable before.cr3).toNat + 4096 ≤ before.pageNext.toNat ∨
      before.pageEnd.toNat ≤ (gmTable before.cr3).toNat :=
  located _ ⟨[], by decide, rfl⟩

/-! ## The shared upper half -/

/-- Copying entries changes only the target, and there only the copied ones. -/
private theorem share_fold {source target : UInt64} (isSource : IsPage source)
    (isTarget : IsPage target) (apart : source ≠ target)
    (indices : List UInt64) (small : ∀ index ∈ indices, index.toNat < 512)
    (memory : GmMemory) :
    ∃ words, indices.foldl (gmShareEntry source target) memory =
        { memory with words := words } ∧
      (∀ page place, IsPage page → x86Entries words page place =
        if page = target ∧ ∃ index ∈ indices, index.toNat = place.val then
          x86Entries memory.words source place &&& ~~~gmPteUser
        else x86Entries memory.words page place) ∧
      ∀ word, word < target.toNat / 8 ∨ target.toNat / 8 + 512 ≤ word →
        words word = memory.words word := by
  induction indices generalizing memory with
  | nil =>
    refine ⟨memory.words, rfl, ?_, fun _ _ => rfl⟩
    intro page place _
    rw [if_neg]
    rintro ⟨-, index, member, -⟩
    cases member
  | cons index indices induction =>
    have bound := small index List.mem_cons_self
    obtain ⟨words, folded, entries, outside⟩ :=
      induction (fun other member => small other (List.mem_cons_of_mem _ member))
        (gmShareEntry source target memory index)
    have written : ∀ page place, IsPage page →
        x86Entries (gmShareEntry source target memory index).words page
          place =
        if page = target ∧ place = ⟨index.toNat, bound⟩ then
          x86Entries memory.words source ⟨index.toNat, bound⟩ &&&
            ~~~gmPteUser
        else x86Entries memory.words page place := by
      intro page place isPage
      exact x86Entries_update isTarget isPage ⟨index.toNat, bound⟩ place _
    refine ⟨words, ?_, ?_, ?_⟩
    · rw [List.foldl_cons, folded]
      rfl
    · intro page place isPage
      have source_same : ∀ place,
          x86Entries (gmShareEntry source target memory index).words source
            place = x86Entries memory.words source place := by
        intro place
        rw [written source place isSource, if_neg fun same => apart same.1]
      rw [entries page place isPage, source_same, written page place isPage]
      by_cases later : page = target ∧ ∃ other ∈ indices,
          other.toNat = place.val
      · obtain ⟨same, other, member, value⟩ := later
        rw [if_pos ⟨same, other, member, value⟩,
          if_pos ⟨same, other, List.mem_cons_of_mem _ member, value⟩]
      · rw [if_neg later]
        by_cases now : page = target ∧ place = ⟨index.toNat, bound⟩
        · obtain ⟨same, rfl⟩ := now
          rw [if_pos ⟨same, rfl⟩,
            if_pos ⟨same, index, List.mem_cons_self, rfl⟩]
        · rw [if_neg now, if_neg]
          rintro ⟨same, other, member, value⟩
          rcases List.mem_cons.mp member with rfl | old
          · exact now ⟨same, Fin.ext value.symm⟩
          · exact later ⟨same, other, old, value⟩
    · intro word away
      rw [outside word away]
      apply Function.update_of_ne
      rintro rfl
      unfold entryWord at away
      omega

private theorem mem_gmUpperIndices {index : UInt64} :
    index ∈ gmUpperIndices ↔ 256 ≤ index.toNat ∧ index.toNat < 512 := by
  unfold gmUpperIndices
  rw [List.mem_map]
  constructor
  · rintro ⟨offset, member, rfl⟩
    have bound := List.mem_range.mp member
    rw [UInt64.toNat_ofNat']
    omega
  · rintro ⟨low, high⟩
    refine ⟨index.toNat - 256, List.mem_range.mpr (by omega), ?_⟩
    rw [← UInt64.toNat_inj, UInt64.toNat_ofNat']
    omega

section Steps

variable {slot : GmSlot}

variable {before memory : GmMemory} {forest : GmForest} {limit spare : Nat}

/-- `gm_address_space_create` plants a root with the kernel's upper half. -/
theorem Building.create (building : Building before memory forest)
    (located : Located before) (absent : forest slot [] = none)
    (room : Room memory limit (spare + 1)) :
    Gives (OutOfPages before.pageEnd limit) (gmAddressSpaceCreate memory)
      fun created => Provides before forest limit spare slot [] created.1
        created.2 (forest.place slot [] created.1) := by
  unfold gmAddressSpaceCreate
  refine (building.pageAlloc room).bind ?_
  rintro ⟨phys, allocated⟩ allocates
  dsimp only at allocates ⊢
  have fresh := allocates.fresh
  have isPhys := fresh.isPage
  have mapped := allocates.building.mapped
  have sound := allocates.building.sound
  have below := sound.below phys fresh.handed
  have physEnd : phys.toNat + 4096 ≤ before.pageEnd.toNat := by
    rw [← allocates.building.sameEnd]
    exact Nat.le_trans below sound.ordered
  have within := fresh.within
  have isKernel := isPage_gmTable before.cr3
  have away := located.root
  have apart : gmTable before.cr3 ≠ phys := by
    intro same
    rw [same] at away
    omega
  have small : ∀ index ∈ gmUpperIndices, index.toNat < 512 :=
    fun index member => (mem_gmUpperIndices.mp member).2
  obtain ⟨words, folded, entries, outside⟩ :=
    share_fold isKernel isPhys apart gmUpperIndices small allocated
  rw [building.kernel, folded]
  apply gives_ok
  have kernelEntries : ∀ place,
      x86Entries allocated.words (gmTable before.cr3) place =
        x86Entries before.words (gmTable before.cr3) place := by
    intro place
    have placeBound := place.isLt
    have aligned := (isPage_iff.mp isKernel).1
    apply allocates.building.outside
    rcases away with low | high
    · exact .inl (by omega)
    · exact .inr (by omega)
  have upper : ∀ place : Fin 512, 256 ≤ place.val →
      x86Entries words phys place =
        x86Entries before.words (gmTable before.cr3) place &&&
          ~~~gmPteUser := by
    intro place high
    have bound := place.isLt
    rw [entries phys place isPhys, if_pos, kernelEntries]
    refine ⟨rfl, UInt64.ofNat place.val, mem_gmUpperIndices.mpr ?_, ?_⟩ <;>
      rw [UInt64.toNat_ofNat'] <;> omega
  have lower : ∀ place : Fin 512, place.val < 256 →
      x86Entries words phys place = 0 := by
    intro place low
    rw [entries phys place isPhys, if_neg]
    · exact fresh.blank place
    · rintro ⟨-, index, member, same⟩
      have high := (mem_gmUpperIndices.mp member).1
      omega
  have others : ∀ {other path page} place, forest other path = some page →
      x86Entries words page place = x86Entries allocated.words page place := by
    intro other path page place old
    rw [entries page place (mapped.paged old), if_neg]
    rintro ⟨rfl, -⟩
    exact fresh.unused other path old
  exact
    { building := by
        refine allocates.building.place fresh absent (Nat.zero_le 4)
          (fun index tail split => by cases split) ?_ ?_
          (fun leaf => by cases leaf) (fun _ => upper) ?_
        · have same : Tabulates 4 LowerPath gmEncode (x86Entries words)
              forest :=
            mapped.tables.congr fun other path index page _ here =>
              others index here
          exact same.plant mapped.grown absent
            fun place owned => lower place (owned place rfl)
        · intro other path found index old _
          exact others index old
        · intro word off
          have aligned := (isPage_iff.mp isPhys).1
          apply outside
          rcases off with low | high
          · exact .inl (by omega)
          · exact .inr (by omega)
      here := Forest.place_self ..
      kept := fun old => Forest.place_keeps absent old
      elsewhere := fun differs => Forest.place_of_ne differs
      room := allocates.room }

/-! ## Mapping a page of ring 3 -/

/-- A page of ring 3 was added to an address space, with its tables. -/
structure MapsPage (before : GmMemory) (forest : GmForest)
    (limit spare : Nat) (slot : GmSlot) (virt page : UInt64)
    (later : GmMemory) (forest' : GmForest) : Prop where
  building : Building before later forest'
  here : forest' slot (virtPath virt) = some page
  kept {other path found} (old : forest other path = some found) :
    forest' other path = some found
  leaves {path} (deep : path.length = 4) (differs : path ≠ virtPath virt) :
    forest' slot path = forest slot path
  others {other path} (differs : other ≠ slot) :
    forest' other path = forest other path
  room : Room later limit spare

theorem aligned_and {virt : UInt64} (aligned : virt.toNat % 4096 = 0) :
    virt &&& 0xfff = 0 := by
  rw [← UInt64.toNat_inj, UInt64.toNat_and]
  have mask : (0xfff : UInt64).toNat = 2 ^ 12 - 1 := rfl
  rw [mask, Nat.and_two_pow_sub_one_eq_mod]
  exact aligned

theorem Building.mapUserPage (building : Building before memory forest)
    {cr3 virt page : UInt64} (fresh : Fresh before memory forest page)
    (root : forest slot [] = some cr3) (lower : lowerHalf virt)
    (aligned : virt.toNat % 4096 = 0)
    (absent : forest slot (virtPath virt) = none)
    (room : Room memory limit (spare + 3)) :
    Gives (OutOfPages before.pageEnd limit)
      (gmMapUserPageIn cr3 virt page 0x002 memory) fun result =>
        result.1 = true ∧ ∃ forest', MapsPage before forest limit spare
          slot virt page result.2 forest' := by
  have lower0 := virtPath_lower lower
  have lower1 := lower0.above
  have lower2 := lower1.above
  have lower3 := lower2.above
  have isRoot : gmTable cr3 = cr3 := building.mapped.paged root
  have flags : (0x002 ||| gmPteUser) &&& gmPteUser = gmPteUser := by decide
  have valid : ¬ (virt &&& 0xfff ≠ 0 ∨ page &&& 0xfff ≠ 0) := by
    rw [aligned_and aligned, fresh.isPage.and_eq_zero (by decide)]
    simp
  unfold gmMapUserPageIn gmMapPageFlags
  rw [if_neg valid, flags, isRoot]
  -- the three tables on the way
  refine (building.nextTable root (by decide) lower3
    (gmIndex_toNat (by decide) (by decide)) room).bind ?_
  rintro ⟨pdpt, memory1⟩ ⟨forest1, first, spared1⟩
  dsimp only at first spared1 ⊢
  refine (first.building.nextTable first.here (by simp) lower2
    (gmIndex_toNat (by decide) (by decide)) first.room).bind ?_
  rintro ⟨pd, memory2⟩ ⟨forest2, second, spared2⟩
  dsimp only at second spared2 ⊢
  refine (second.building.nextTable second.here (by simp) lower1
    (gmIndex_toNat (by decide) (by decide)) second.room).bind ?_
  rintro ⟨pt, memory3⟩ ⟨forest3, third, spared3⟩
  dsimp only at third spared3 ⊢
  have leaf_elsewhere : ∀ {other path}, path.length = 4 →
      forest3 other path = forest other path := by
    intro other path deep
    have differs : ∀ {short : List (Fin 512)}, short.length < 4 →
        ¬ (other = slot ∧ path = short) := by
      rintro short bound ⟨-, rfl⟩
      omega
    rw [third.elsewhere (differs (by simp)),
      second.elsewhere (differs (by simp)), first.elsewhere (differs (by simp))]
  have absent3 : forest3 slot (virtPath virt) = none := by
    rw [leaf_elsewhere rfl, absent]
  have index : (gmIndex virt 12).toNat = (x86Index virt 0).val :=
    show (gmIndex virt (UInt64.ofNat 12)).toNat = _ from
      gmIndex_toNat (by decide) (by decide)
  have entry : memory3.entry pt (gmIndex virt 12) = gmEncode none := by
    rw [entry_eq index, ← absent3]
    exact third.building.mapped.tables slot _ (x86Index virt 0) pt (by simp)
      lower0 third.here
  have fresh3 := spared3 page (spared2 page (spared1 page fresh))
  rw [entry, if_neg (not_not_intro gmEncode_none_present),
    leaf_entry fresh.isPage, setEntry_eq_write index]
  refine gives_ok ⟨rfl, forest3.place slot (virtPath virt) page, ?_⟩
  exact
    { building := third.building.link fresh3 third.here absent3 (by simp) lower0
      here := Forest.place_self ..
      kept := fun old => Forest.place_keeps absent3
        (third.kept (second.kept (first.kept old)))
      leaves := by
        intro path deep differs
        rw [Forest.place_of_ne fun same => differs same.2, leaf_elsewhere deep]
      others := by
        intro other path differs
        rw [Forest.place_of_ne fun same => differs same.1,
          third.elsewhere fun same => differs same.1,
          second.elsewhere fun same => differs same.1,
          first.elsewhere fun same => differs same.1]
      room := third.room }

end Steps

end Gmker.Memory
