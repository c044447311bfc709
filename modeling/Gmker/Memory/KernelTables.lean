import Gmker.Memory.Spaces

/-!
# The kernel's page tables before the applications

Drivers take pages and map device registers with `gm_map_page`.  If the boot
loader's tables lie outside the free pages, so do the kernel's tables later: a
new table is a page that was just handed out, and an entry of the last level
leads to no table as long as no page is a table of two levels.
-/

namespace Gmker.Memory

open Function

open Foundation (Gives gives_ok gives_error follow follow_congr runSteps
  runSteps_keeps)

theorem gmTable_of_child {value next : UInt64}
    (child : x86Child value = some next) : gmTable value = next := by
  unfold x86Child at child
  split at child
  · exact Option.some.inj child
  · cases child

theorem isPage_of_follow {words : GmWords} {cr3 page : UInt64}
    {path : List (Fin 512)}
    (reached : follow x86Child (x86Entries words) (gmTable cr3) path =
      some page) : IsPage page := by
  cases path with
  | nil =>
    cases reached
    exact isPage_gmTable cr3
  | cons index path =>
    obtain ⟨above, -, child⟩ := Option.bind_eq_some_iff.mp reached
    rw [← gmTable_of_child child]
    exact isPage_gmTable _

theorem TablePage.isPage {words : GmWords} {cr3 page : UInt64}
    (table : TablePage words cr3 page) : IsPage page := by
  obtain ⟨path, -, reached⟩ := table
  exact isPage_of_follow reached

/-- The table that a walk from CR3 reaches by its indices, deepest first. -/
abbrev GmMemory.reach (memory : GmMemory) (path : List (Fin 512)) :
    Option UInt64 :=
  follow x86Child (x86Entries memory.words) (gmTable memory.cr3) path

/-- The kernel's tables lie outside the free pages, and no page is a table of
two levels. -/
structure KernelTables (memory : GmMemory) : Prop where
  located : Located memory
  levelled {path other page} (here : memory.reach path = some page)
    (there : memory.reach other = some page) (short : path.length < 4)
    (short' : other.length < 4) : path.length = other.length

section Tables

variable {memory later : GmMemory} {path other : List (Fin 512)}
  {index : Fin 512} {page table value next : UInt64}

/-- Steps after which every walk reaches what it reached. -/
theorem KernelTables.keep (tables : KernelTables memory)
    (sameEnd : later.pageEnd = memory.pageEnd)
    (served : memory.pageNext.toNat ≤ later.pageNext.toNat)
    (same : ∀ path, path.length < 4 → later.reach path = memory.reach path) :
    KernelTables later where
  located := by
    rintro page ⟨path, short, here⟩
    rw [sameEnd]
    have old := tables.located page
      ⟨path, short, (same path short).symm.trans here⟩
    exact old.imp_left fun low => Nat.le_trans low served
  levelled here there short short' :=
    tables.levelled ((same _ short).symm.trans here)
      ((same _ short').symm.trans there) short short'

/-! ## Single writes -/

/-- Only the entries of the tables on the way matter, and of these only where
they lead. -/
theorem reach_congr (cr3 : later.cr3 = memory.cr3)
    (same : ∀ above index table, above.length < path.length →
      memory.reach above = some table →
      x86Child (x86Entries later.words table index) =
        x86Child (x86Entries memory.words table index)) :
    later.reach path = memory.reach path := by
  rw [GmMemory.reach, cr3]
  apply follow_congr
  intro above index tail table split reached
  refine same above index table ?_ reached
  rw [split, List.length_append, List.length_cons]
  omega

/-- A write shows only further down, and only if the entry leads elsewhere. -/
theorem KernelTables.reach_write (tables : KernelTables memory)
    (here : memory.reach path = some table) (short : path.length < 4)
    (index : Fin 512) (value : UInt64) (short' : other.length < 4)
    (calm : other.length ≤ path.length ∨
      x86Child value = x86Child (x86Entries memory.words table index)) :
    (memory.write table index value).reach other = memory.reach other := by
  refine reach_congr rfl ?_
  intro above place page shallow there
  rw [write_entries (isPage_of_follow here) (isPage_of_follow there)]
  split
  · rename_i written
    obtain ⟨rfl, rfl⟩ := written
    have level := tables.levelled here there short (by omega)
    exact calm.resolve_left (by omega)
  · rfl

/-- A blank page that is handed out and is not a table. -/
structure Spare (memory : GmMemory) (next : UInt64) : Prop where
  isPage : IsPage next
  blank : ∀ index, x86Entries memory.words next index = 0
  unused : ¬ TablePage memory.words memory.cr3 next
  handed : next.toNat + 4096 ≤ memory.pageNext.toNat

/-- An entry that leads to a spare page adds this page and no other. -/
theorem Spare.reach_link (spare : Spare memory next) (isTable : IsPage table)
    (apart : next ≠ table) (leads : x86Child value = some next)
    (reached : (memory.write table index value).reach other = some page) :
    memory.reach other = some page ∨ page = next ∧
      ∃ above, other = index :: above ∧ memory.reach above = some table := by
  induction other generalizing page with
  | nil => exact .inl reached
  | cons place above induction =>
    obtain ⟨parent, there, child⟩ := Option.bind_eq_some_iff.mp reached
    rcases induction there with old | ⟨rfl, -⟩
    · rw [write_entries isTable (isPage_of_follow old)] at child
      split at child
      · rename_i written
        obtain ⟨rfl, rfl⟩ := written
        rw [leads] at child
        cases child
        exact .inr ⟨rfl, above, rfl, old⟩
      · exact .inl (Option.bind_eq_some_iff.mpr ⟨parent, old, child⟩)
    · rw [write_entries isTable spare.isPage, if_neg fun same => apart same.1,
        spare.blank] at child
      cases child

theorem KernelTables.link (tables : KernelTables memory)
    (isTable : IsPage table) (spare : Spare memory next) (apart : next ≠ table)
    (leads : x86Child value = some next) :
    KernelTables (memory.write table index value) where
  located := by
    rintro page ⟨path, short, here⟩
    rcases spare.reach_link isTable apart leads here with old | ⟨rfl, -⟩
    · exact tables.located page ⟨path, short, old⟩
    · exact .inl spare.handed
  levelled := by
    intro path other page here there short short'
    rcases spare.reach_link isTable apart leads here with
      old | ⟨rfl, above, rfl, parent⟩
    · rcases spare.reach_link isTable apart leads there with
        old' | ⟨rfl, -⟩
      · exact tables.levelled old old' short short'
      · exact absurd ⟨path, short, old⟩ spare.unused
    · rcases spare.reach_link isTable apart leads there with
        old' | ⟨-, above', rfl, parent'⟩
      · exact absurd ⟨other, short', old'⟩ spare.unused
      · exact congrArg (· + 1) (tables.levelled parent parent'
          (Nat.lt_of_succ_lt short) (Nat.lt_of_succ_lt short'))

section Allocated

variable (tables : KernelTables memory)
  (room : memory.pageNext.toNat + 4096 ≤ memory.pageEnd.toNat)
  (sound : Sound memory)

include tables room

theorem KernelTables.unused_next :
    ¬ TablePage memory.words memory.cr3 memory.pageNext := by
  intro table
  rcases tables.located _ table with low | high
  · omega
  · omega

include sound

theorem KernelTables.allocated_entries
    (table : TablePage memory.words memory.cr3 page) (index : Fin 512) :
    x86Entries memory.allocated.words page index =
      x86Entries memory.words page index := by
  rw [sound.allocated_entries room table.isPage, if_neg]
  rintro rfl
  exact tables.unused_next room table

theorem KernelTables.allocated_reach (short : path.length < 4) :
    memory.allocated.reach path = memory.reach path := by
  refine reach_congr rfl ?_
  intro above index table shallow reached
  exact congrArg x86Child (tables.allocated_entries room sound
    ⟨above, by omega, reached⟩ index)

theorem KernelTables.allocated :
    KernelTables memory.allocated ∧
      Spare memory.allocated memory.pageNext := by
  have isNext := sound.isPage room
  have served : memory.allocated.pageNext.toNat =
      memory.pageNext.toNat + 4096 := sound.next_toNat
  constructor
  · exact tables.keep rfl (by omega) fun _ short =>
      tables.allocated_reach room sound short
  · refine ⟨isNext, ?_, ?_, by omega⟩
    · intro index
      rw [sound.allocated_entries room isNext, if_pos rfl]
    · rintro ⟨path, short, reached⟩
      exact tables.unused_next room
        ⟨path, short, (tables.allocated_reach room sound short).symm.trans
          reached⟩

end Allocated

end Tables

/-! ## `gm_map_page` -/

/-- The entry does not name a large page. -/
def NotLarge (entry : UInt64) : Prop :=
  entry &&& gmPtePresent ≠ 0 → entry &&& x86Huge = 0

/-- No large page lies on the way to an address. -/
def SmallPages (virt : UInt64) (memory : GmMemory) : Prop :=
  ∀ index path table, index :: path <:+ (virtPath virt).tail →
    memory.reach path = some table →
    NotLarge (x86Entries memory.words table index)

/-- The walk to an address has reached a table. -/
structure Reached (virt : UInt64) (memory : GmMemory)
    (path : List (Fin 512)) (table : UInt64) : Prop where
  tables : KernelTables memory
  here : memory.reach path = some table
  small : SmallPages virt memory

section Map

variable {memory : GmMemory} {path : List (Fin 512)} {index : Fin 512}
  {table value next virt : UInt64}

theorem notLarge_of_child (child : x86Child value = some next) :
    NotLarge value := by
  intro _
  by_contra huge
  rw [x86Child, if_neg fun leads => huge leads.2] at child
  cases child

theorem suffix_short (onWay : index :: path <:+ (virtPath virt).tail) :
    path.length < 3 :=
  Nat.lt_of_succ_le onWay.length_le

section Walk

variable (reached : Reached virt memory path table)
  (onWay : index :: path <:+ (virtPath virt).tail)

include reached onWay

/-- The entry leads to the next table after it was written. -/
theorem Reached.write (leads : x86Child value = some next)
    (tables : KernelTables (memory.write table index value))
    (small : SmallPages virt (memory.write table index value)) :
    Reached virt (memory.write table index value) (index :: path) next := by
  have short := suffix_short onWay
  have isTable := isPage_of_follow reached.here
  refine ⟨tables, ?_, small⟩
  have here := reached.tables.reach_write reached.here (by omega) index value
    (show path.length < 4 by omega) (.inl (Nat.le_refl _))
  refine Option.bind_eq_some_iff.mpr ⟨table, here.trans reached.here, ?_⟩
  rw [write_entries isTable isTable, if_pos ⟨rfl, rfl⟩, leads]

theorem Reached.link (spare : Spare memory next)
    (leads : x86Child value = some next) :
    Reached virt (memory.write table index value) (index :: path) next := by
  obtain ⟨tables, here, small⟩ := reached
  have short := suffix_short onWay
  have isTable := isPage_of_follow here
  have apart : next ≠ table := by
    rintro rfl
    exact spare.unused ⟨path, by omega, here⟩
  refine Reached.write ⟨tables, here, small⟩ onWay leads
    (tables.link isTable spare apart leads) ?_
  intro place above parent onWay' there
  rcases spare.reach_link isTable apart leads there with old | ⟨rfl, -⟩
  · rw [write_entries isTable (isPage_of_follow old)]
    split
    · exact notLarge_of_child leads
    · exact small place above parent onWay' old
  · rw [write_entries isTable spare.isPage, if_neg fun same => apart same.1,
      spare.blank]
    exact fun present => absurd (by decide) present

theorem Reached.relabel
    (same : x86Child value = x86Child (x86Entries memory.words table index))
    (leads : x86Child value = some next) :
    Reached virt (memory.write table index value) (index :: path) next := by
  obtain ⟨tables, here, small⟩ := reached
  have short := suffix_short onWay
  have walks := fun (other : List (Fin 512)) (short' : other.length < 4) =>
    tables.reach_write here (by omega) index value short' (.inr same)
  refine Reached.write ⟨tables, here, small⟩ onWay leads
    (tables.keep rfl (Nat.le_refl _) walks) ?_
  intro place above parent onWay' there
  have shallow := suffix_short onWay'
  rw [walks above (by omega)] at there
  rw [write_entries (isPage_of_follow here) (isPage_of_follow there)]
  split
  · exact notLarge_of_child leads
  · exact small place above parent onWay' there

end Walk

theorem Reached.allocated (reached : Reached virt memory path table)
    (sound : Sound memory)
    (room : memory.pageNext.toNat + 4096 ≤ memory.pageEnd.toNat)
    (short : path.length < 4) :
    Reached virt memory.allocated path table where
  tables := (reached.tables.allocated room sound).1
  here := by
    rw [reached.tables.allocated_reach room sound short]
    exact reached.here
  small := by
    intro place above parent onWay there
    have shallow := suffix_short onWay
    rw [reached.tables.allocated_reach room sound (by omega)] at there
    rw [reached.tables.allocated_entries room sound ⟨above, by omega, there⟩]
    exact reached.small place above parent onWay there

/-- `gm_next_table` keeps the allocator sound, and goes on to the next table. -/
theorem gmNextTable_reaches (sound : Sound memory) (table number flags : UInt64) :
    Gives (fun _ => True)
      (gmNextTable table number (flags &&& gmPteUser) memory) fun result =>
        Sound result.2 ∧ ∀ {virt path} (index : Fin 512),
          Reached virt memory path table →
          index :: path <:+ (virtPath virt).tail → number.toNat = index.val →
          Reached virt result.2 (index :: path) result.1 := by
  unfold gmNextTable
  split
  · rcases sound.pageAlloc with ⟨full, -⟩ | ⟨served, room⟩
    · rw [full]
      exact gives_error trivial
    rw [served]
    refine gives_ok ⟨(sound.allocated room).setWords _, ?_⟩
    intro virt path index reached onWay place
    have short := suffix_short onWay
    have spare := (reached.tables.allocated room sound).2
    have leads := x86Child_fresh flags spare.isPage
    dsimp only
    rw [setEntry_entry, gmTable_of_child leads, setEntry_eq_write place]
    exact (reached.allocated sound room (by omega)).link onWay spare leads
  · rename_i present
    refine gives_ok ⟨sound.setWords _, ?_⟩
    intro virt path index reached onWay place
    rw [entry_eq place] at present
    have same := x86Child_or_user (x86Entries memory.words table index) flags
    have leads := same.trans (if_pos ⟨present,
      reached.small index path table onWay reached.here present⟩)
    dsimp only
    rw [setEntry_entry, entry_eq place, gmTable_of_child leads,
      setEntry_eq_write place]
    exact reached.relabel onWay same leads

/-- `gm_map_page` keeps the allocator sound, and the kernel's tables where they
belong. -/
theorem gmMapPage_keeps (sound : Sound memory) (virt phys flags : UInt64) :
    Gives (fun _ => True) (gmMapPage virt phys flags memory) fun result =>
      Sound result.2 ∧ (KernelTables memory → SmallPages virt memory →
        KernelTables result.2) := by
  unfold gmMapPage gmMapPageFlags
  split
  · exact gives_ok ⟨sound, fun tables _ => tables⟩
  refine (gmNextTable_reaches sound _ _ flags).bind ?_
  rintro ⟨pdpt, memory1⟩ ⟨sound1, reaches1⟩
  refine (gmNextTable_reaches sound1 _ _ flags).bind ?_
  rintro ⟨pd, memory2⟩ ⟨sound2, reaches2⟩
  refine (gmNextTable_reaches sound2 _ _ flags).bind ?_
  rintro ⟨pt, memory3⟩ ⟨sound3, reaches3⟩
  have reached : KernelTables memory → SmallPages virt memory →
      Reached virt memory3
        [x86Index virt 1, x86Index virt 2, x86Index virt 3] pt := by
    intro tables small
    have reached1 := reaches1 (x86Index virt 3) ⟨tables, rfl, small⟩
      (List.suffix_append [_, _] _) (gmIndex_toNat (by decide) (by decide))
    have reached2 := reaches2 (x86Index virt 2) reached1
      (List.suffix_append [_] _) (gmIndex_toNat (by decide) (by decide))
    exact reaches3 (x86Index virt 1) reached2 List.suffix_rfl
      (gmIndex_toNat (by decide) (by decide))
  dsimp only
  split
  · exact gives_ok ⟨sound3, fun tables small => (reached tables small).tables⟩
  · refine gives_ok ⟨sound3.setWords _, fun tables small => ?_⟩
    obtain ⟨tables, here, -⟩ := reached tables small
    have place : (gmIndex virt 12).toNat = (x86Index virt 0).val :=
      show (gmIndex virt (UInt64.ofNat 12)).toNat = _ from
        gmIndex_toNat (by decide) (by decide)
    dsimp only
    rw [setEntry_eq_write place]
    exact tables.keep rfl (Nat.le_refl _) fun other short =>
      tables.reach_write here (Nat.lt_succ_self 3) _ _ short
        (.inl (Nat.le_of_lt_succ short))

end Map

/-! ## The drivers -/

/-- A step of a driver leaves the kernel's tables to `gm_map_page`: a store does
not hit them, and what is mapped does not lie in a large page. -/
def GmEarly.Tidy (memory : GmMemory) : GmEarly → Prop
  | .pageAlloc => True
  | .store word _ => ∀ page, TablePage memory.words memory.cr3 page →
      word < page.toNat / 8 ∨ page.toNat / 8 + 512 ≤ word
  | .mapPage virt _ _ => SmallPages virt memory

/-- Every step of the drivers is tidy. -/
def TidyRun : List GmEarly → GmMemory → Prop
  | [], _ => True
  | step :: steps, memory => step.Tidy memory ∧
      ∀ later, gmEarlyStep step memory = .ok later → TidyRun steps later

section Early

variable {memory later : GmMemory}

theorem gmEarlyStep_keeps {step : GmEarly} (sound : Sound memory)
    (stepped : gmEarlyStep step memory = .ok later) :
    Sound later ∧ (KernelTables memory → step.Tidy memory →
      KernelTables later) := by
  cases step with
  | pageAlloc =>
    rw [gmEarlyStep] at stepped
    rcases sound.pageAlloc with ⟨full, -⟩ | ⟨served, room⟩
    · rw [full] at stepped
      cases stepped
    · rw [served] at stepped
      cases stepped
      exact ⟨sound.allocated room, fun tables _ =>
        (tables.allocated room sound).1⟩
  | store word value =>
    cases stepped
    refine ⟨sound.setWords _, ?_⟩
    intro tables tidy
    refine tables.keep rfl (Nat.le_refl _) fun path short => reach_congr rfl ?_
    intro above index table shallow here
    have away := tidy table ⟨above, by omega, here⟩
    have bound := index.isLt
    have other : table.toNat / 8 + index.val ≠ word := by omega
    exact congrArg x86Child (update_of_ne other _ _)
  | mapPage virt phys flags =>
    rw [gmEarlyStep] at stepped
    have mapping := gmMapPage_keeps sound virt phys flags
    cases result : gmMapPage virt phys flags memory with
    | error panic =>
      rw [result] at stepped
      cases stepped
    | ok mapped =>
      rw [result] at stepped
      cases stepped
      exact mapping.of_ok result

theorem gmEarlyRun_sound {early : List GmEarly} (sound : Sound memory)
    (ran : gmEarlyRun early memory = .ok later) : Sound later :=
  runSteps_keeps (fun _ _ _ sound stepped =>
    (gmEarlyStep_keeps sound stepped).1) sound ran

/-- Tidy drivers leave the kernel's tables outside the free pages. -/
theorem gmEarlyRun_located {early : List GmEarly} (sound : Sound memory)
    (tables : KernelTables memory) (tidy : TidyRun early memory)
    (ran : gmEarlyRun early memory = .ok later) : Located later := by
  induction early generalizing memory with
  | nil =>
    cases ran
    exact tables.located
  | cons step steps induction =>
    obtain ⟨first, rest⟩ := tidy
    unfold gmEarlyRun runSteps at ran
    split at ran
    · cases ran
    · rename_i next stepped
      obtain ⟨soundNext, keeps⟩ := gmEarlyStep_keeps sound stepped
      exact induction soundNext (keeps tables first) (rest next stepped) ran

end Early

end Gmker.Memory
