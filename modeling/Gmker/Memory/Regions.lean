import Gmker.Memory.Isolation

/-!
# The region of the page allocator

`gm_memory_init` goes once through the memory map.  It keeps the best region
with its end rounded down and compares it with candidates whose end is not; the
region it ends with has as many whole pages as any, and `gm_page_alloc` hands
out exactly these.
-/

namespace Gmker.Memory

variable {entry : LimineMemmapEntry}

/-! ## Whole pages -/

/-- The entry has a whole page, given by its number, at or above 16 MiB. -/
def PageIn (entry : LimineMemmapEntry) (page : Nat) : Prop :=
  gmMinPhys.toNat ≤ 4096 * page ∧ entry.base.toNat ≤ 4096 * page ∧
    4096 * (page + 1) ≤ entry.base.toNat + entry.length.toNat

/-- The first page that can lie in the entry. -/
def firstPage (entry : LimineMemmapEntry) : Nat :=
  (max entry.base.toNat gmMinPhys.toNat + 4095) / 4096

/-- The number of whole pages at or above 16 MiB. -/
def wholePages (entry : LimineMemmapEntry) : Nat :=
  (entry.base.toNat + entry.length.toNat) / 4096 - firstPage entry

/-- They follow each other from the first one on. -/
theorem pageIn_iff {page : Nat} :
    PageIn entry page ↔
      firstPage entry ≤ page ∧ page < firstPage entry + wholePages entry := by
  unfold PageIn wholePages firstPage
  omega

theorem wholePages_eq_zero :
    wholePages entry = 0 ↔ ∀ page, ¬PageIn entry page := by
  constructor
  · intro none page inside
    rw [pageIn_iff] at inside
    omega
  · intro none
    have first := none (firstPage entry)
    rw [pageIn_iff] at first
    omega

def LimineMemmapEntry.Usable (entry : LimineMemmapEntry) : Prop :=
  entry.type = limineMemmapUsable

/-! ## One entry -/

section Entry

variable {entry : LimineMemmapEntry}
  (fits : entry.base.toNat + entry.length.toNat ≤ 4503599627370496)
include fits

theorem end_toNat : (entry.base + entry.length).toNat =
    entry.base.toNat + entry.length.toNat := by
  rw [UInt64.toNat_add]
  omega

theorem base_toNat :
    (gmAlignUp (if entry.base < gmMinPhys then gmMinPhys else entry.base)
      gmPageSize).toNat = 4096 * firstPage entry := by
  have least : gmMinPhys.toNat = 16777216 := rfl
  have start : (if entry.base < gmMinPhys then gmMinPhys
      else entry.base).toNat = max entry.base.toNat gmMinPhys.toNat := by
    split
    · rename_i less
      rw [UInt64.lt_iff_toNat_lt] at less
      omega
    · rename_i less
      rw [UInt64.lt_iff_toNat_lt] at less
      omega
  generalize (if entry.base < gmMinPhys then gmMinPhys else entry.base) =
    value at start ⊢
  have sum : (value + gmPageSize - 1).toNat = value.toNat + 4095 := by
    have size : gmPageSize.toNat = 4096 := rfl
    have added : (value + gmPageSize).toNat = value.toNat + 4096 := by
      rw [UInt64.toNat_add, size]
      omega
    have one : (1 : UInt64).toNat = 1 := rfl
    rw [UInt64.toNat_sub_of_le _ _ (by
      rw [UInt64.le_iff_toNat_le, added, one]
      omega), added, one]
    omega
  rw [gmAlignUp, toNat_align, sum, start, firstPage]
  omega

theorem gmBestRegion_cases (best : UInt64 × UInt64) :
    gmBestRegion best entry = best ∧
        (entry.Usable → wholePages entry = 0 ∨ best.1 ≠ 0 ∧
          entry.base.toNat + entry.length.toNat - 4096 * firstPage entry ≤
            (best.2 - best.1).toNat) ∨
      entry.Usable ∧
        (gmBestRegion best entry).1.toNat = 4096 * firstPage entry ∧
        (gmBestRegion best entry).2.toNat =
          4096 * (firstPage entry + wholePages entry) ∧
        (best.1 = 0 ∨ (best.2 - best.1).toNat <
          entry.base.toNat + entry.length.toNat - 4096 * firstPage entry) := by
  have last := end_toNat fits
  have first := base_toNat fits
  have least : gmMinPhys.toNat = 16777216 := rfl
  have above : 16777216 ≤ 4096 * firstPage entry := by
    unfold firstPage
    omega
  unfold gmBestRegion
  dsimp only
  generalize gmAlignUp (if entry.base < gmMinPhys then gmMinPhys
    else entry.base) gmPageSize = base at first ⊢
  split
  · rename_i other
    exact .inl ⟨rfl, fun usable => absurd usable other⟩
  rename_i usable
  rw [ne_eq, not_not] at usable
  split
  · rename_i low
    rw [UInt64.le_iff_toNat_le, last] at low
    refine .inl ⟨rfl, fun _ => .inl ?_⟩
    unfold wholePages
    omega
  split
  · rename_i empty
    rw [UInt64.le_iff_toNat_le, last, first] at empty
    refine .inl ⟨rfl, fun _ => .inl ?_⟩
    unfold wholePages
    omega
  rename_i some'
  rw [UInt64.le_iff_toNat_le, last, first] at some'
  have size : (entry.base + entry.length - base).toNat =
      entry.base.toNat + entry.length.toNat - 4096 * firstPage entry := by
    rw [UInt64.toNat_sub_of_le _ _ (by
      rw [UInt64.le_iff_toNat_le, last, first]
      omega), last, first]
  split
  · rename_i better
    rw [UInt64.lt_iff_toNat_lt, size] at better
    refine .inr ⟨usable, first, ?_, better⟩
    rw [toNat_align, last]
    unfold wholePages
    omega
  · rename_i worse
    rw [not_or, UInt64.lt_iff_toNat_lt, size, Nat.not_lt] at worse
    exact .inl ⟨rfl, fun _ => .inr worse⟩

end Entry

/-! ## The whole map -/

/-- The best region of some entries: the pages of one that has as many as any,
or nothing yet. -/
inductive Selected (seen : List LimineMemmapEntry) (best : UInt64 × UInt64) :
    Prop where
  | nothing (empty : best = (0, 0))
      (none : ∀ entry ∈ seen, entry.Usable → wholePages entry = 0)
  | region (entry : LimineMemmapEntry) (member : entry ∈ seen)
      (usable : entry.Usable)
      (base : best.1.toNat = 4096 * firstPage entry)
      (end' : best.2.toNat = 4096 * (firstPage entry + wholePages entry))
      (most : ∀ other ∈ seen, other.Usable →
        wholePages other ≤ wholePages entry)

theorem firstPage_pos (entry : LimineMemmapEntry) : 4096 ≤ firstPage entry := by
  have least : gmMinPhys.toNat = 16777216 := rfl
  unfold firstPage
  omega

theorem region_size {best : UInt64 × UInt64}
    (base : best.1.toNat = 4096 * firstPage entry)
    (end' : best.2.toNat = 4096 * (firstPage entry + wholePages entry)) :
    (best.2 - best.1).toNat = 4096 * wholePages entry := by
  have ordered : best.1 ≤ best.2 := by
    rw [UInt64.le_iff_toNat_le, base, end']
    omega
  rw [UInt64.toNat_sub_of_le _ _ ordered, base, end']
  omega

/-- What holds of the usable entries so far and of a new one. -/
theorem usable_append {seen : List LimineMemmapEntry}
    {property : LimineMemmapEntry → Prop}
    (before : ∀ other ∈ seen, other.Usable → property other)
    (here : entry.Usable → property entry) :
    ∀ other ∈ seen ++ [entry], other.Usable → property other := by
  intro other member usable
  rcases List.mem_append.mp member with old | new
  · exact before other old usable
  · rw [List.mem_singleton.mp new] at usable ⊢
    exact here usable

theorem Selected.step {seen : List LimineMemmapEntry} {best : UInt64 × UInt64}
    (selected : Selected seen best)
    (fits : entry.base.toNat + entry.length.toNat ≤ 4503599627370496) :
    Selected (seen ++ [entry]) (gmBestRegion best entry) := by
  rcases gmBestRegion_cases fits best with
    ⟨same, skipped⟩ | ⟨usable, base, end', better⟩
  · rw [same]
    cases selected with
    | nothing empty none =>
      refine .nothing empty (usable_append none fun usable => ?_)
      rcases skipped usable with zero | ⟨found, _⟩
      · exact zero
      · exact absurd (by rw [empty]) found
    | region held member heldUsable base end' most =>
      refine .region held (List.mem_append_left _ member) heldUsable base end'
        (usable_append most fun usable => ?_)
      rcases skipped usable with zero | ⟨_, small⟩
      · omega
      · rw [region_size base end'] at small
        unfold wholePages at small ⊢
        omega
  · refine .region entry (List.mem_append_right _ List.mem_cons_self) usable
      base end' (usable_append ?_ fun _ => Nat.le_refl _)
    cases selected with
    | nothing empty none =>
      intro other member usable'
      rw [none other member usable']
      exact Nat.zero_le _
    | region held member heldUsable heldBase heldEnd most =>
      intro other member usable'
      have atMost := most other member usable'
      have positive := firstPage_pos held
      rcases better with zero | larger
      · rw [zero] at heldBase
        change 0 = _ at heldBase
        omega
      · rw [region_size heldBase heldEnd] at larger
        refine Nat.le_trans atMost ?_
        unfold wholePages at larger ⊢
        omega

theorem selected_all (memmap : LimineMemmap) :
    Selected memmap.entries (memmap.entries.foldl gmBestRegion (0, 0)) := by
  have general : ∀ (rest seen : List LimineMemmapEntry)
      (best : UInt64 × UInt64),
      (∀ entry ∈ rest,
        entry.base.toNat + entry.length.toNat ≤ 4503599627370496) →
      Selected seen best →
      Selected (seen ++ rest) (rest.foldl gmBestRegion best) := by
    intro rest
    induction rest with
    | nil =>
      intro seen best _ selected
      rw [List.append_nil]
      exact selected
    | cons entry rest induction =>
      intro seen best fits selected
      have next := induction (seen ++ [entry]) (gmBestRegion best entry)
        (fun other member => fits other (List.mem_cons_of_mem _ member))
        (selected.step (fits entry List.mem_cons_self))
      rw [List.append_assoc] at next
      exact next
  exact general memmap.entries [] (0, 0) memmap.addressable
    (.nothing rfl fun entry member => absurd member List.not_mem_nil)

/-! ## The pages -/

/-- A number of calls of `gm_page_alloc`, with what they return. -/
def gmPageAllocs : Nat → GmMemory →
    Except GmMemoryPanic (List UInt64 × GmMemory)
  | 0, memory => .ok ([], memory)
  | count + 1, memory => do
      let (page, memory) ← gmPageAlloc memory
      let (pages, memory) ← gmPageAllocs count memory
      return (page :: pages, memory)

/-- The pages from one number on. -/
def pagesFrom (first count : Nat) : List UInt64 :=
  (List.range count).map fun index => UInt64.ofNat (4096 * (first + index))

theorem pagesFrom_succ (first count : Nat) :
    pagesFrom first (count + 1) =
      UInt64.ofNat (4096 * first) :: pagesFrom (first + 1) count := by
  unfold pagesFrom
  rw [List.range_succ_eq_map, List.map_cons, List.map_map, Nat.add_zero]
  refine congrArg _ (List.map_congr_left fun index _ => ?_)
  rw [Function.comp_apply, Nat.succ_eq_add_one, Nat.add_right_comm,
    Nat.add_assoc]

theorem gmPageAllocs_ok {memory : GmMemory} (sound : Sound memory)
    {first left : Nat} (next : memory.pageNext.toNat = 4096 * first)
    (end' : memory.pageEnd.toNat = 4096 * (first + left)) (count : Nat) :
    (count ≤ left → ∃ later,
      gmPageAllocs count memory = .ok (pagesFrom first count, later)) ∧
    (left < count → gmPageAllocs count memory = .error .outOfPages) := by
  induction count generalizing memory first left with
  | zero =>
    exact ⟨fun _ => ⟨memory, rfl⟩,
      fun few => absurd few (Nat.not_lt_zero _)⟩
  | succ count induction =>
    rcases sound.pageAlloc with ⟨failed, full⟩ | ⟨served, room⟩
    · refine ⟨fun enough => by omega, fun _ => ?_⟩
      rw [gmPageAllocs, failed]
      rfl
    · obtain ⟨fewer, rfl⟩ : ∃ fewer, left = fewer + 1 :=
        ⟨left - 1, by omega⟩
      have page : memory.pageNext = UInt64.ofNat (4096 * first) := by
        rw [← next, UInt64.ofNat_toNat]
      obtain ⟨enough, few⟩ := induction (sound.allocated room)
        (show memory.allocated.pageNext.toNat = 4096 * (first + 1) by
          rw [GmMemory.allocated, sound.next_toNat]
          omega)
        (show memory.allocated.pageEnd.toNat = 4096 * (first + 1 + fewer) by
          rw [GmMemory.allocated, end']
          omega)
      rw [gmPageAllocs, served]
      constructor
      · intro less
        obtain ⟨later, rest⟩ := enough (by omega)
        refine ⟨later, ?_⟩
        rw [pagesFrom_succ, ← page]
        simp only [bind, Except.bind, rest]
        rfl
      · intro more
        have rest := few (by omega)
        simp only [bind, Except.bind, rest]

/-- Pages as they should be handed out: whole pages of the entry, each after
the one before. -/
structure GoodPages (entry : LimineMemmapEntry) (pages : List UInt64) :
    Prop where
  aligned : ∀ page ∈ pages, page.toNat % 4096 = 0
  inside : ∀ page ∈ pages, PageIn entry (page.toNat / 4096)
  increasing : pages.Pairwise (· < ·)

theorem goodPages {count : Nat}
    (fits : entry.base.toNat + entry.length.toNat ≤ 4503599627370496)
    (enough : count ≤ wholePages entry) :
    GoodPages entry (pagesFrom (firstPage entry) count) := by
  have value : ∀ index, index < count →
      (UInt64.ofNat (4096 * (firstPage entry + index))).toNat =
        4096 * (firstPage entry + index) := by
    intro index less
    rw [UInt64.toNat_ofNat']
    unfold wholePages at enough
    omega
  refine ⟨?_, ?_, ?_⟩
  · intro page member
    obtain ⟨index, less, rfl⟩ := List.mem_map.mp member
    rw [value index (List.mem_range.mp less)]
    omega
  · intro page member
    obtain ⟨index, less, rfl⟩ := List.mem_map.mp member
    have below := List.mem_range.mp less
    rw [value index below, pageIn_iff]
    omega
  · unfold pagesFrom
    rw [List.pairwise_map]
    refine List.pairwise_lt_range.imp_of_mem ?_
    intro left right leftMember rightMember less
    rw [UInt64.lt_iff_toNat_lt, value left (List.mem_range.mp leftMember),
      value right (List.mem_range.mp rightMember)]
    omega

/-- `gm_memory_init` panics exactly when no usable entry has a whole page at or
above 16 MiB.  Otherwise one of the usable entries with the most such pages
serves the calls of `gm_page_alloc`, as many as it has pages. -/
theorem gmMemoryInit_selects (memmap : LimineMemmap) (words : GmWords)
    (cr3 : UInt64) :
    (gmMemoryInit memmap.entries words cr3 = .error .noUsableMemory ↔
      ∀ entry ∈ memmap.entries, entry.Usable → ∀ page, ¬PageIn entry page) ∧
    (∀ started, gmMemoryInit memmap.entries words cr3 = .ok started →
      ∃ entry ∈ memmap.entries, entry.Usable ∧
        (∀ other ∈ memmap.entries, other.Usable →
          wholePages other ≤ wholePages entry) ∧
        started.pageNext.toNat = 4096 * firstPage entry ∧
        started.pageEnd.toNat =
          4096 * (firstPage entry + wholePages entry) ∧
        ∀ count,
          (count ≤ wholePages entry → ∃ pages later,
            gmPageAllocs count started = .ok (pages, later) ∧
            pages.length = count ∧ GoodPages entry pages) ∧
          (wholePages entry < count →
            gmPageAllocs count started = .error .outOfPages)) := by
  have selected := selected_all memmap
  generalize bestEq : memmap.entries.foldl gmBestRegion (0, 0) = best
    at selected
  constructor
  · unfold gmMemoryInit
    rw [bestEq]
    dsimp only
    cases selected with
    | nothing empty none =>
      rw [if_pos (.inl (by rw [empty]))]
      refine ⟨fun _ entry member usable page inside => ?_, fun _ => rfl⟩
      rw [pageIn_iff, none entry member usable] at inside
      omega
    | region entry member usable base end' most =>
      -- the region may be a part of a page, kept for want of a better one
      rcases Nat.eq_zero_or_pos (wholePages entry) with zero | some'
      · rw [if_pos (.inr (by
          rw [UInt64.le_iff_toNat_le, base, end', zero]
          omega))]
        refine ⟨fun _ other otherMember otherUsable => ?_, fun _ => rfl⟩
        rw [← wholePages_eq_zero]
        have atMost := most other otherMember otherUsable
        omega
      · rw [if_neg (not_or.mpr ⟨?_, ?_⟩)]
        · refine ⟨fun failed => (by cases failed), fun without => ?_⟩
          refine absurd (pageIn_iff.mpr ?_)
            (without entry member usable (firstPage entry))
          omega
        · intro zero
          have positive := firstPage_pos entry
          rw [zero] at base
          change 0 = _ at base
          omega
        · rw [UInt64.le_iff_toNat_le, base, end']
          omega
  · intro started booted
    have sound := gmMemoryInit_sound memmap booted
    unfold gmMemoryInit at booted
    rw [bestEq] at booted
    dsimp only at booted
    split at booted
    · cases booted
    rename_i found
    rw [not_or] at found
    cases booted
    cases selected with
    | nothing empty none => exact absurd (by rw [empty]) found.1
    | region entry member usable base end' most =>
      refine ⟨entry, member, usable, most, base, end', fun count => ?_⟩
      obtain ⟨enough, few⟩ := gmPageAllocs_ok sound base end' count
      refine ⟨fun less => ?_, few⟩
      obtain ⟨later, served⟩ := enough less
      refine ⟨_, later, served, ?_,
        goodPages (memmap.addressable entry member) less⟩
      rw [pagesFrom, List.length_map, List.length_range]

end Gmker.Memory
