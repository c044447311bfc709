import Gmker.Memory.Clearing
import Gmker.Memory.KernelTables

/-!
# Isolation of the applications

After `gm_programs_init` every slot has its own address space: ring 3 reaches
exactly the arena, the pages it reaches belong to that slot alone, and the upper
half is the kernel's.  The memory map, the contents of memory, the kernel's
page tables and whatever the drivers did before are arbitrary.
-/

namespace Gmker.Memory

open Function

open Foundation (Forest Tabulates Gives gives_ok gives_error runSteps
  runSteps_gives runSteps_keeps follow follow_append follow_congr)
open Gmker.Programs (GmSlot GmKernel gmAppMax)

/-! ## The loop over the slots -/

/-- The loop of `gm_programs_init`, after some of the slots. -/
structure SlotsBuilt (before : GmMemory) (limit : Nat) (done : List GmSlot)
    (spaces : GmSpaces) (forest : GmForest) : Prop where
  building : Building before spaces.memory forest
  root : ∀ slot ∈ done, forest slot [] = some (spaces.cr3 slot)
  arena : ∀ slot ∈ done, HasArena forest slot
  rest : ∀ slot, slot ∉ done → ∀ path, forest slot path = none
  room : Room spaces.memory limit (89 * (gmAppMax - done.length))

section Slots

variable {before : GmMemory} {limit : Nat} {spaces : GmSpaces}
  {forest : GmForest}

/-- One turn of the loop: a root, and up to four pages for each of the arena. -/
theorem SlotsBuilt.turn (located : Located before) {done rest : List GmSlot}
    {slot : GmSlot} (split : List.finRange gmAppMax = done ++ slot :: rest)
    (built : SlotsBuilt before limit done spaces forest) :
    Gives (OutOfPages before.pageEnd limit)
      (gmSlotInit before.cr3 slot spaces) fun later =>
        ∃ forest', SlotsBuilt before limit (done ++ [slot]) later forest' := by
  have nodup := List.nodup_finRange gmAppMax
  rw [split] at nodup
  have fresh : slot ∉ done := by
    intro again
    have disjoint := (List.nodup_append.mp nodup).2.2
    exact disjoint slot again slot List.mem_cons_self rfl
  have count : done.length + 1 ≤ gmAppMax := by
    have total := congrArg List.length split
    rw [List.length_finRange, List.length_append, List.length_cons] at total
    omega
  have empty := built.rest slot fresh
  have room : Room spaces.memory limit
      (89 * (gmAppMax - (done.length + 1)) + 88 + 1) :=
    built.room.mono (by omega)
  unfold gmSlotInit
  refine (built.building.create located (empty []) room).bind ?_
  rintro ⟨cr3, created⟩ provides
  dsimp only at provides ⊢
  have growing : ArenaGrowing before forest slot cr3 limit
      (89 * (gmAppMax - (done.length + 1))) [] created
      (forest.place slot [] cr3) :=
    { building := provides.building
      root := provides.here
      pages := by
        intro path deep
        have nonempty : path ≠ [] := by
          rintro rfl
          cases deep
        rw [Forest.place_of_ne fun same => nonempty same.2, empty]
        constructor
        · intro impossible
          cases impossible
        · rintro ⟨virt, member, -⟩
          cases member
      others := fun differs =>
        provides.elsewhere fun same => differs same.1
      room := provides.room }
  refine growing.finish.bind ?_
  rintro mapped ⟨forest', grown⟩
  have arena : HasArena forest' slot := grown.pages
  rw [grown.building.programClear grown.root arena]
  have restored : gmAddressSpaceSwitch before.cr3
      (gmAddressSpaceSwitch cr3 mapped) = mapped := by
    rw [← grown.building.kernel]
    rfl
  refine gives_ok ⟨forest', ?_⟩
  rw [restored]
  exact
    { building := grown.building
      root := by
        intro other member
        rcases List.mem_append.mp member with old | new
        · have differs : other ≠ slot := by
            rintro rfl
            exact fresh old
          rw [grown.others differs]
          change forest other [] = some (update spaces.cr3 slot cr3 other)
          rw [update_of_ne differs]
          exact built.root other old
        · rw [List.mem_singleton] at new
          subst new
          change forest' other [] =
            some (update spaces.cr3 other cr3 other)
          rw [update_self]
          exact grown.root
      arena := by
        intro other member
        rcases List.mem_append.mp member with old | new
        · have differs : other ≠ slot := by
            rintro rfl
            exact fresh old
          intro path deep
          rw [grown.others differs]
          exact built.arena other old path deep
        · rw [List.mem_singleton] at new
          subst new
          exact arena
      rest := by
        intro other absent path
        rw [List.mem_append, List.mem_singleton, not_or] at absent
        rw [grown.others absent.2]
        exact built.rest other absent.1 path
      room := by
        rw [List.length_append, List.length_singleton]
        exact grown.room.mono (by omega) }

/-- `gm_programs_init` builds all slots, or 356 pages are too many. -/
theorem gmProgramsInit_gives (sound : Sound before) (located : Located before) :
    Gives (OutOfPages before.pageEnd (before.pageNext.toNat + 4096 * 356))
      (gmProgramsInit before) fun result =>
        ∃ forest cr3, result.1 = Programs.gmProgramsInit before.cr3 cr3 ∧
          Building before result.2 forest ∧
          (∀ slot, forest slot [] = some (cr3 slot)) ∧
          ∀ slot, HasArena forest slot := by
  have start : SlotsBuilt before (before.pageNext.toNat + 4096 * 356) []
      { memory := before } (fun _ _ => none) :=
    { building := building_start sound
      root := fun slot member => by cases member
      arena := fun slot member => by cases member
      rest := fun _ _ _ => rfl
      room := Nat.le_refl _ }
  have turns : ∀ done slot rest spaces,
      List.finRange gmAppMax = done ++ slot :: rest →
      (∃ forest, SlotsBuilt before (before.pageNext.toNat + 4096 * 356) done
        spaces forest) →
      Gives (OutOfPages before.pageEnd (before.pageNext.toNat + 4096 * 356))
        (gmSlotInit before.cr3 slot spaces) fun later =>
          ∃ forest', SlotsBuilt before (before.pageNext.toNat + 4096 * 356)
            (done ++ [slot]) later forest' := by
    rintro done slot rest spaces split ⟨forest, built⟩
    exact built.turn located split
  unfold gmProgramsInit
  refine (runSteps_gives turns rfl ⟨_, start⟩).bind ?_
  rintro spaces ⟨forest, built⟩
  have root := fun slot => built.root slot (List.mem_finRange slot)
  have arena := fun slot => built.arena slot (List.mem_finRange slot)
  have checked := built.building.isolationCheck (root firstSlot)
    (root secondSlot) (arena firstSlot) (arena secondSlot)
  rw [built.building.kernel] at checked
  rw [checked]
  exact gives_ok ⟨forest, spaces.cr3, rfl, built.building, root, arena⟩

end Slots

/-! ## What ring 3 reaches -/

/-- What isolation of the applications means after `gm_programs_init`. -/
structure Isolated (before : GmMemory) (kernel : GmKernel)
    (after : GmMemory) : Prop where
  /-- Ring 3 reaches exactly the arena. -/
  accessible : ∀ slot virt,
    (x86UserPhys after.words (kernel.apps slot).cr3 virt).isSome ↔ InArena virt
  /-- One physical page is reached through one page of one slot. -/
  distinct : ∀ slot other virt virt' phys phys',
    x86UserPhys after.words (kernel.apps slot).cr3 virt = some phys →
    x86UserPhys after.words (kernel.apps other).cr3 virt' = some phys' →
    phys / 4096 = phys' / 4096 →
    slot = other ∧ virt.toNat / 4096 = virt'.toNat / 4096
  /-- No page table of any slot is reached, shared ones included. -/
  tables : ∀ slot other virt phys page,
    x86UserPhys after.words (kernel.apps slot).cr3 virt = some phys →
    TablePage after.words (kernel.apps other).cr3 page →
    phys < page.toNat ∨ page.toNat + 4096 ≤ phys
  /-- Of all pages handed out, before or by `gm_programs_init`, exactly one
  contains a reached address. -/
  handed : ∀ slot virt phys,
    x86UserPhys after.words (kernel.apps slot).cr3 virt = some phys →
    after.handed.countP (fun page => page.toNat ≤ phys ∧
      phys < page.toNat + 4096) = 1
  /-- The upper half translates as in the kernel's address space, for the kernel
  only. -/
  upper : ∀ slot virt, upperHalf virt →
    x86Translate after.words (kernel.apps slot).cr3 virt =
      (x86Translate after.words before.cr3 virt).map
        X86Translation.supervisor
  /-- The kernel's own address space is as before. -/
  unchanged : ∀ virt, x86Translate after.words before.cr3 virt =
    x86Translate before.words before.cr3 virt

section Final

variable {page : UInt64}

variable {before after : GmMemory} {forest : GmForest} {slot : GmSlot}
  {cr3 : UInt64}

section

variable (building : Building before after forest) (located : Located before)

include building located

theorem Building.kernel_entries (table : TablePage before.words before.cr3 page)
    (isPage : IsPage page) (index : Fin 512) :
    x86Entries after.words page index = x86Entries before.words page index := by
  have bound := index.isLt
  have aligned := (isPage_iff.mp isPage).1
  apply building.outside
  rcases located page table with low | high
  · exact .inl (by omega)
  · exact .inr (by omega)

theorem Building.kernel_follow {path : List (Fin 512)}
    (short : path.length < 4) :
    follow x86Child (x86Entries after.words) (gmTable before.cr3) path =
      follow x86Child (x86Entries before.words) (gmTable before.cr3) path := by
  apply follow_congr
  intro above index tail table split reached
  have length := congrArg List.length split
  rw [List.length_append, List.length_cons] at length
  have isTable : TablePage before.words before.cr3 table :=
    ⟨above, by omega, reached⟩
  exact congrArg x86Child
    (building.kernel_entries located isTable isTable.isPage index)

/-- A page table of a slot is a table of its tree or one of the kernel's. -/
theorem Building.table_cases (root : forest slot [] = some cr3)
    (table : TablePage after.words cr3 page) :
    (∃ path, path.length < 4 ∧ forest slot path = some page) ∨
      TablePage before.words before.cr3 page := by
  obtain ⟨path, short, reached⟩ := table
  have mapped := building.mapped
  have isRoot : gmTable cr3 = cr3 := mapped.paged root
  rw [isRoot] at reached
  by_cases lower : LowerPath path
  · refine .inl ⟨path, short, ?_⟩
    rw [← reached]
    refine (mapped.tables.follow_eq mapped.grown
      (fun index path owned => owned.above) root ?_ x86Child_none short
      lower).symm
    intro path frame _ here
    exact x86Child_gmEncode (mapped.paged here)
  · -- the path starts in the shared half
    rcases List.eq_nil_or_concat path with rfl | ⟨rest, top, rfl⟩
    · exact absurd lowerPath_nil lower
    · have high : 256 ≤ top.val := by
        by_contra low
        apply lower
        intro last same
        rw [List.concat_eq_append, List.getLast?_append,
          List.getLast?_singleton] at same
        cases same
        omega
      have kernelRoot : TablePage before.words before.cr3
          (gmTable before.cr3) := ⟨[], by decide, rfl⟩
      have entry := building.shared root top high
      have kernelEntry := building.kernel_entries located kernelRoot
        (isPage_gmTable _) top
      have first : follow x86Child (x86Entries after.words) cr3 [top] =
          follow x86Child (x86Entries after.words) (gmTable before.cr3)
            [top] := by
        change x86Child (x86Entries after.words cr3 top) =
          x86Child (x86Entries after.words (gmTable before.cr3) top)
        rw [entry, x86Child_shared, kernelEntry]
      rw [List.concat_eq_append, follow_append, first, ← follow_append,
        ← List.concat_eq_append, building.kernel_follow located short] at reached
      exact .inr ⟨_, short, reached⟩

theorem Building.translate_upper (root : forest slot [] = some cr3)
    {virt : UInt64} (upper : upperHalf virt) :
    x86Translate after.words cr3 virt =
      (x86Translate after.words before.cr3 virt).map
        X86Translation.supervisor := by
  have isRoot : gmTable cr3 = cr3 := building.mapped.paged root
  have high : 256 ≤ (x86Index virt 3).val := by
    have bound := virt.toNat_lt
    unfold upperHalf at upper
    simp only [x86Index, x86Span]
    omega
  have kernelRoot : TablePage before.words before.cr3
      (gmTable before.cr3) := ⟨[], by decide, rfl⟩
  have entry := building.shared root (x86Index virt 3) high
  rw [← building.kernel_entries located kernelRoot (isPage_gmTable _)] at entry
  rw [x86Translate, if_pos (.inr upper), x86Translate, if_pos (.inr upper),
    isRoot]
  exact x86Walk_shared entry

theorem Building.translate_kernel (virt : UInt64) :
    x86Translate after.words before.cr3 virt =
      x86Translate before.words before.cr3 virt := by
  unfold x86Translate
  split
  · have top : follow x86Child (x86Entries before.words) (gmTable before.cr3)
        [] = some (gmTable before.cr3) := rfl
    refine x86Walk_congr (by rfl) top ?_
    intro page index table
    exact building.kernel_entries located table table.isPage index
  · rfl

/-- What ring 3 reaches are the pages of its tree. -/
theorem Building.userPhys_eq_some (root : forest slot [] = some cr3)
    {virt : UInt64} {phys : Nat} :
    x86UserPhys after.words cr3 virt = some phys ↔
      lowerHalf virt ∧ ∃ page, forest slot (virtPath virt) = some page ∧
        phys = page.toNat + virt.toNat % 4096 := by
  unfold x86UserPhys
  by_cases lower : lowerHalf virt
  · rw [building.mapped.translate root lower]
    cases forest slot (virtPath virt) with
    | none => simp
    | some page => simp [lower, eq_comm]
  · have absent : ¬ (lowerHalf virt ∧ ∃ page,
        forest slot (virtPath virt) = some page ∧
          phys = page.toNat + virt.toNat % 4096) := fun found => lower found.1
    by_cases upper : upperHalf virt
    · rw [building.translate_upper located root upper]
      cases x86Translate after.words before.cr3 virt with
      | none => simp [absent]
      | some found => simp [absent, X86Translation.supervisor]
    · rw [x86Translate, if_neg (by simp [lower, upper])]
      simp [absent]

end

/-- Exactly one page of a list of disjoint pages contains an address that one
of them contains. -/
private theorem countP_pages {pages : List UInt64} {phys : Nat}
    (apart : pages.Pairwise fun newer older => older.toNat + 4096 ≤ newer.toNat)
    (member : page ∈ pages)
    (inside : page.toNat ≤ phys ∧ phys < page.toNat + 4096) :
    pages.countP (fun page => page.toNat ≤ phys ∧ phys < page.toNat + 4096) =
      1 := by
  induction pages with
  | nil => cases member
  | cons newest pages induction =>
    obtain ⟨below, apart⟩ := List.pairwise_cons.mp apart
    rw [List.countP_cons]
    by_cases here : newest.toNat ≤ phys ∧ phys < newest.toNat + 4096
    · have others : pages.countP (fun page => page.toNat ≤ phys ∧
          phys < page.toNat + 4096) = 0 := by
        rw [List.countP_eq_zero]
        intro older olderMember
        have order := below older olderMember
        simp only [decide_eq_true_eq, not_and, not_lt]
        omega
      rw [others, if_pos (decide_eq_true here)]
    · rcases List.mem_cons.mp member with rfl | later
      · exact absurd inside here
      · rw [induction apart later, if_neg]
        simpa using here

theorem Building.isolated (building : Building before after forest)
    (located : Located before) {cr3 : GmSlot → UInt64}
    (root : ∀ slot, forest slot [] = some (cr3 slot))
    (arena : ∀ slot, HasArena forest slot) :
    Isolated before (Programs.gmProgramsInit before.cr3 cr3) after where
  accessible slot virt := by
    rw [Option.isSome_iff_exists]
    constructor
    · rintro ⟨phys, reached⟩
      obtain ⟨lower, page, here, -⟩ :=
        (building.userPhys_eq_some located (root slot)).mp reached
      exact ((arena slot).isSome_iff lower).mp (by rw [here]; rfl)
    · intro inside
      obtain ⟨page, here⟩ := Option.isSome_iff_exists.mp
        (((arena slot).isSome_iff inside.lower).mpr inside)
      exact ⟨_, (building.userPhys_eq_some located (root slot)).mpr
        ⟨inside.lower, page, here, rfl⟩⟩
  distinct slot other virt virt' phys phys' reached reached' same := by
    obtain ⟨lower, page, here, rfl⟩ :=
      (building.userPhys_eq_some located (root slot)).mp reached
    obtain ⟨lower', page', here', rfl⟩ :=
      (building.userPhys_eq_some located (root other)).mp reached'
    have aligned := (isPage_iff.mp (building.mapped.paged here)).1
    have aligned' := (isPage_iff.mp (building.mapped.paged here')).1
    have equal : page = page' := by
      rw [← UInt64.toNat_inj]
      omega
    subst equal
    obtain ⟨sameSlot, samePath⟩ := building.mapped.grown.apart here here'
    exact ⟨sameSlot, (virtPath_eq_iff lower lower').mp samePath⟩
  tables slot other virt phys page reached table := by
    obtain ⟨lower, leaf, here, rfl⟩ :=
      (building.userPhys_eq_some located (root slot)).mp reached
    have leafAligned := (isPage_iff.mp (building.mapped.paged here)).1
    have pageAligned := (isPage_iff.mp table.isPage).1
    have differs : leaf.toNat ≠ page.toNat := by
      intro same
      have equal : leaf = page := UInt64.toNat_inj.mp same
      subst equal
      rcases building.table_cases located (root other) table with
        ⟨path, short, there⟩ | kernel
      · obtain ⟨-, rfl⟩ := building.mapped.grown.apart there here
        simp [virtPath] at short
      · have start := (building.placed here).1
        have below := building.sound.below _ (building.placed here).2
        have ordered := building.sound.ordered
        rw [building.sameEnd] at ordered
        rcases located leaf kernel with low | high <;> omega
    omega
  handed slot virt phys reached := by
    obtain ⟨lower, page, here, rfl⟩ :=
      (building.userPhys_eq_some located (root slot)).mp reached
    exact countP_pages building.sound.once (building.placed here).2 (by omega)
  upper slot virt upper := building.translate_upper located (root slot) upper
  unchanged virt := building.translate_kernel located virt

end Final

/-! ## From the boot loader to the applications -/

/-- A physical memory map: its regions lie in the physical address space of the
processor, which has 52 bits. -/
structure LimineMemmap where
  entries : List LimineMemmapEntry
  addressable : ∀ entry ∈ entries,
    entry.base.toNat + entry.length.toNat ≤ 4503599627370496

/-- What the loop of `gm_memory_init` keeps about the best region. -/
private theorem gmBestRegion_keeps {best : UInt64 × UInt64}
    {entry : LimineMemmapEntry}
    (fits : entry.base.toNat + entry.length.toNat ≤ 4503599627370496)
    (good : best.1.toNat % 4096 = 0 ∧ best.2.toNat ≤ 4503599627370496) :
    (gmBestRegion best entry).1.toNat % 4096 = 0 ∧
      (gmBestRegion best entry).2.toNat ≤ 4503599627370496 := by
  have sum : (entry.base + entry.length).toNat =
      entry.base.toNat + entry.length.toNat := by
    rw [UInt64.toNat_add]
    omega
  have cut := toNat_align (entry.base + entry.length)
  have aligned : (gmAlignUp (if entry.base < gmMinPhys then gmMinPhys
      else entry.base) gmPageSize).toNat % 4096 = 0 := by
    rw [gmAlignUp, toNat_align]
    omega
  unfold gmBestRegion
  dsimp only
  generalize gmAlignUp (if entry.base < gmMinPhys then gmMinPhys
    else entry.base) gmPageSize = base at aligned ⊢
  split
  · exact good
  · split
    · exact good
    · split
      · exact good
      · split
        · exact ⟨aligned, by rw [cut]; omega⟩
        · exact good

/-- The allocator that `gm_memory_init` sets up is sound. -/
theorem gmMemoryInit_sound (memmap : LimineMemmap) {words : GmWords}
    {cr3 : UInt64} {started : GmMemory}
    (booted : gmMemoryInit memmap.entries words cr3 = .ok started) :
    Sound started := by
  have good : ∀ (entries : List LimineMemmapEntry) (best : UInt64 × UInt64),
      (∀ entry ∈ entries,
        entry.base.toNat + entry.length.toNat ≤ 4503599627370496) →
      best.1.toNat % 4096 = 0 ∧ best.2.toNat ≤ 4503599627370496 →
      (entries.foldl gmBestRegion best).1.toNat % 4096 = 0 ∧
        (entries.foldl gmBestRegion best).2.toNat ≤ 4503599627370496 := by
    intro entries
    induction entries with
    | nil => exact fun best _ good => good
    | cons entry entries induction =>
      intro best fits good
      exact induction _
        (fun other member => fits other (List.mem_cons_of_mem _ member))
        (gmBestRegion_keeps (fits entry List.mem_cons_self) good)
  have found := good memmap.entries (0, 0) memmap.addressable (by decide)
  unfold gmMemoryInit at booted
  dsimp only at booted
  split at booted
  · cases booted
  · rename_i usable
    rw [not_or, UInt64.not_le, UInt64.lt_iff_toNat_lt] at usable
    cases booted
    exact
      { aligned := found.1
        ordered := Nat.le_of_lt usable.2
        bounded := found.2
        below := fun page member => by cases member
        once := List.Pairwise.nil }

/-- Isolation of the applications, whatever the boot loader and the drivers
left, if the kernel's page tables are not among the free pages.  They are not if
those of the boot loader are not, each has one level, and the drivers leave them
to `gm_map_page`. -/
theorem gmProgramsInit_isolates (memmap : LimineMemmap) (words : GmWords)
    (cr3 : UInt64) (early : List GmEarly) {started before after : GmMemory}
    {kernel : GmKernel}
    (booted : gmMemoryInit memmap.entries words cr3 = .ok started)
    (prepared : gmEarlyRun early started = .ok before)
    (initialised : gmProgramsInit before = .ok (kernel, after)) :
    (KernelTables started → TidyRun early started → Located before) ∧
    (Located before → Isolated before kernel after) := by
  have boot := gmMemoryInit_sound memmap booted
  constructor
  · intro tables tidy
    exact gmEarlyRun_located boot tables tidy prepared
  · intro located
    have sound := gmEarlyRun_sound boot prepared
    have built := (gmProgramsInit_gives sound located).of_ok initialised
    obtain ⟨forest, roots, same, building, root, arena⟩ := built
    dsimp only at same building
    subst same
    exact building.isolated located root arena

/-- A machine with 16 MiB above the first 16. -/
def smallMap : LimineMemmap where
  entries := [{ base := 0x1000000, length := 0x1000000, type := 0 }]
  addressable := by decide

def smallMachine : GmMemory :=
  { words := fun _ => 0
    pageNext := 0x1000000
    pageEnd := 0x2000000
    cr3 := 0x1000
    console := "memory 16 MiB\n" }

theorem smallMachine_booted :
    gmMemoryInit smallMap.entries (fun _ => 0) 0x1000 = .ok smallMachine := by
  rfl

theorem smallMachine_tables : KernelTables smallMachine := by
  have only : ∀ {path page}, smallMachine.reach path = some page →
      path = [] ∧ page = 0x1000 := by
    intro path page reached
    cases path with
    | nil =>
      cases reached
      exact ⟨rfl, rfl⟩
    | cons index path =>
      obtain ⟨_, -, child⟩ := Option.bind_eq_some_iff.mp reached
      cases x86Child_none.symm.trans child
  constructor
  · rintro page ⟨path, -, reached⟩
    obtain ⟨-, rfl⟩ := only reached
    decide
  · intro path other page here there _ _
    rw [(only here).1, (only there).1]

/-- A driver that takes a page and maps the registers of its device. -/
def smallDrivers : List GmEarly :=
  [.pageAlloc, .mapPage 0xffffffff80000000 0xfebc0000 0x012]

theorem smallDrivers_tidy : TidyRun smallDrivers smallMachine := by
  have blank : ∀ word, smallMachine.allocated.words word = 0 := by
    intro word
    simp [GmMemory.allocated, clearPage, smallMachine]
  have small : SmallPages 0xffffffff80000000 smallMachine.allocated := by
    intro index path table _ _ _
    rw [x86Entries, blank]
    rfl
  refine ⟨trivial, ?_⟩
  intro later stepped
  cases stepped
  exact ⟨small, fun _ _ => trivial⟩

/-- The registers are mapped for the kernel in every slot. -/
theorem gmProgramsInit_isolates_small :
    ∃ before kernel after,
      gmEarlyRun smallDrivers smallMachine = .ok before ∧
      gmProgramsInit before = .ok (kernel, after) ∧
      Isolated before kernel after ∧
      ∀ slot, x86Translate after.words (kernel.apps slot).cr3
          0xffffffff80000000 =
        some { phys := 0xfebc0000, rights := { user := false } } := by
  have outcome : (gmEarlyRun smallDrivers smallMachine).toOption.any
      (fun before => before.pageNext = 0x1004000 ∧ before.pageEnd = 0x2000000 ∧
        x86Translate before.words before.cr3 0xffffffff80000000 =
          some { phys := 0xfebc0000, rights := { user := false } }) = true := by
    decide +kernel
  obtain ⟨before, ran, facts⟩ := (Option.any_eq_true _ _).mp outcome
  obtain ⟨next, last, device⟩ := of_decide_eq_true facts
  have prepared : gmEarlyRun smallDrivers smallMachine = .ok before := by
    cases result : gmEarlyRun smallDrivers smallMachine with
    | error panic =>
      rw [result] at ran
      cases ran
    | ok reached =>
      rw [result] at ran
      cases ran
      rfl
  have boot := gmMemoryInit_sound smallMap smallMachine_booted
  have room : ∀ panic, ¬ OutOfPages before.pageEnd
      (before.pageNext.toNat + 4096 * 356) panic := by
    rintro panic ⟨-, short⟩
    rw [next, last] at short
    exact absurd short (by decide)
  have located := gmEarlyRun_located boot smallMachine_tables
    smallDrivers_tidy prepared
  obtain ⟨⟨kernel, after⟩, initialised, -⟩ :=
    (gmProgramsInit_gives (gmEarlyRun_sound boot prepared) located).succeeds room
  obtain ⟨tidy, isolates⟩ := gmProgramsInit_isolates smallMap (fun _ => 0)
    0x1000 smallDrivers smallMachine_booted prepared initialised
  have isolated := isolates (tidy smallMachine_tables smallDrivers_tidy)
  refine ⟨before, kernel, after, prepared, initialised, isolated, ?_⟩
  intro slot
  rw [isolated.upper slot _ (by decide), isolated.unchanged, device]
  rfl

end Gmker.Memory
