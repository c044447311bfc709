import Gmker.Memory.Entries

/-!
# Building address spaces

The page allocator never hands out a page twice, so the tables and pages of the
slots can be described by a growing forest whose nodes all lie in distinct
pages.  Each function of `core.c` gets one lemma: it extends the forest, or
there are too few pages.
-/

namespace Gmker.Memory

open Function

open Foundation (Forest Tabulates Gives gives_ok gives_error)
open Gmker.Programs (GmSlot)

/-! ## The allocator -/

/-- The allocator serves addressable pages from below its end, in order. -/
structure Sound (memory : GmMemory) : Prop where
  aligned : memory.pageNext.toNat % 4096 = 0
  ordered : memory.pageNext.toNat ≤ memory.pageEnd.toNat
  bounded : memory.pageEnd.toNat ≤ 4503599627370496
  below : ∀ page ∈ memory.handed, page.toNat + 4096 ≤ memory.pageNext.toNat
  once : memory.handed.Pairwise fun newer older =>
    older.toNat + 4096 ≤ newer.toNat

/-- The state after a page was handed out. -/
def GmMemory.allocated (memory : GmMemory) : GmMemory :=
  { memory with
    words := clearPage memory.pageNext memory.words
    pageNext := memory.pageNext + gmPageSize
    handed := memory.pageNext :: memory.handed }

/-- The only panic accepted here: fewer pages than the limit requires. -/
def OutOfPages (pageEnd : UInt64) (limit : Nat) (panic : GmMemoryPanic) :
    Prop :=
  panic = .outOfPages ∧ pageEnd.toNat < limit

/-- The allocator has that many pages to go to the limit. -/
def Room (memory : GmMemory) (limit pages : Nat) : Prop :=
  memory.pageNext.toNat + 4096 * pages ≤ limit

theorem Room.mono {memory : GmMemory} {limit more fewer : Nat}
    (room : Room memory limit more) (le : fewer ≤ more) :
    Room memory limit fewer := by
  unfold Room at room ⊢
  omega

section Allocator

variable {memory : GmMemory} (sound : Sound memory)

include sound

theorem Sound.next_toNat :
    (memory.pageNext + gmPageSize).toNat = memory.pageNext.toNat + 4096 := by
  have ordered := sound.ordered
  have bounded := sound.bounded
  have size : gmPageSize.toNat = 4096 := rfl
  rw [UInt64.toNat_add, size]
  omega

theorem Sound.pageAlloc :
    (gmPageAlloc memory = .error .outOfPages ∧
        memory.pageEnd.toNat < memory.pageNext.toNat + 4096) ∨
      (gmPageAlloc memory = .ok (memory.pageNext, memory.allocated) ∧
        memory.pageNext.toNat + 4096 ≤ memory.pageEnd.toNat) := by
  have next := sound.next_toNat
  unfold gmPageAlloc
  by_cases full : memory.pageEnd < memory.pageNext + gmPageSize
  · rw [if_pos full]
    rw [UInt64.lt_iff_toNat_lt, next] at full
    exact .inl ⟨rfl, full⟩
  · rw [if_neg full]
    rw [UInt64.lt_iff_toNat_lt, next] at full
    exact .inr ⟨rfl, by omega⟩

theorem Sound.allocated
    (room : memory.pageNext.toNat + 4096 ≤ memory.pageEnd.toNat) :
    Sound memory.allocated where
  aligned := by
    have aligned := sound.aligned
    rw [GmMemory.allocated, sound.next_toNat]
    omega
  ordered := by
    rw [GmMemory.allocated, sound.next_toNat]
    exact room
  bounded := sound.bounded
  below := by
    intro page member
    rw [GmMemory.allocated, sound.next_toNat]
    rcases List.mem_cons.mp member with rfl | old
    · exact Nat.le_refl _
    · exact Nat.le_trans (sound.below page old) (Nat.le_add_right _ _)
  once := List.pairwise_cons.mpr ⟨sound.below, sound.once⟩

theorem Sound.isPage
    (room : memory.pageNext.toNat + 4096 ≤ memory.pageEnd.toNat) :
    IsPage memory.pageNext := by
  have bounded := sound.bounded
  exact isPage_iff.mpr ⟨sound.aligned, by omega⟩

end Allocator

/-- Replacing words changes nothing for the allocator. -/
theorem Sound.setWords {memory : GmMemory} (sound : Sound memory)
    (words : GmWords) : Sound { memory with words := words } where
  aligned := sound.aligned
  ordered := sound.ordered
  bounded := sound.bounded
  below := sound.below
  once := sound.once

/-! ## Words of pages -/

theorem x86Entries_update {words : GmWords} {table other : UInt64}
    (isTable : IsPage table) (isOther : IsPage other) (index place : Fin 512)
    (value : UInt64) :
    x86Entries (update words (table.toNat / 8 + index) value) other
        place =
      if other = table ∧ place = index then value
      else x86Entries words other place := by
  have tableAligned := (isPage_iff.mp isTable).1
  have otherAligned := (isPage_iff.mp isOther).1
  have indexBound := index.isLt
  have placeBound := place.isLt
  unfold x86Entries
  by_cases same : other = table ∧ place = index
  · obtain ⟨rfl, rfl⟩ := same
    rw [if_pos ⟨rfl, rfl⟩, update_self]
  · rw [if_neg same, update_of_ne]
    intro word
    apply same
    constructor
    · rw [← UInt64.toNat_inj]
      omega
    · apply Fin.ext
      omega

/-- Assign an entry of a table. -/
def GmMemory.write (memory : GmMemory) (table : UInt64) (index : Fin 512)
    (value : UInt64) : GmMemory :=
  { memory with words := update memory.words (table.toNat / 8 + index) value }

section Write

variable {memory : GmMemory} {table page value number : UInt64}
  {index : Fin 512}

theorem setEntry_eq_write (place : number.toNat = index.val) :
    memory.setEntry table number value = memory.write table index value := by
  rw [GmMemory.setEntry, GmMemory.write, entryWord, place]

theorem setEntry_entry :
    (memory.setEntry table number value).entry table number = value :=
  update_self ..

theorem entry_eq (place : number.toNat = index.val) :
    memory.entry table number = x86Entries memory.words table index := by
  rw [GmMemory.entry, entryWord, place, x86Entries]

theorem write_entries (isTable : IsPage table) (isPage : IsPage page)
    (place : Fin 512) :
    x86Entries (memory.write table index value).words page place =
      if page = table ∧ place = index then value
      else x86Entries memory.words page place :=
  x86Entries_update isTable isPage index place value

end Write

theorem x86Entries_clearPage {words : GmWords} {page other : UInt64}
    (isPage : IsPage page) (isOther : IsPage other) (place : Fin 512) :
    x86Entries (clearPage page words) other place =
      if other = page then 0 else x86Entries words other place := by
  have pageAligned := (isPage_iff.mp isPage).1
  have otherAligned := (isPage_iff.mp isOther).1
  have placeBound := place.isLt
  unfold x86Entries clearPage
  by_cases same : other = page
  · subst same
    rw [if_pos rfl, if_pos (by omega)]
  · rw [if_neg same, if_neg]
    intro inside
    apply same
    rw [← UInt64.toNat_inj]
    omega

theorem Sound.allocated_entries {memory : GmMemory} {page : UInt64}
    (sound : Sound memory)
    (room : memory.pageNext.toNat + 4096 ≤ memory.pageEnd.toNat)
    (isPage : IsPage page) (index : Fin 512) :
    x86Entries memory.allocated.words page index =
      if page = memory.pageNext then 0
      else x86Entries memory.words page index := by
  rw [GmMemory.allocated, x86Entries_clearPage (sound.isPage room) isPage]

/-! ## The invariant of the construction -/

/-- A word outside the pages that the allocator had left. -/
def Outside (before : GmMemory) (word : Nat) : Prop :=
  8 * word + 8 ≤ before.pageNext.toNat ∨ before.pageEnd.toNat ≤ 8 * word

/-- The address spaces built from the state `before` are the trees of the
forest; the pages of ring 3 are blank and the upper halves are shared. -/
structure Building (before memory : GmMemory) (forest : GmForest) : Prop where
  sound : Sound memory
  sameEnd : memory.pageEnd = before.pageEnd
  kernel : memory.cr3 = before.cr3
  grows : before.pageNext.toNat ≤ memory.pageNext.toNat
  mapped : Mapped memory.words forest
  clean {slot path page} (here : forest slot path = some page)
    (leaf : path.length = 4) (index : Fin 512) :
    x86Entries memory.words page index = 0
  shared {slot root} (here : forest slot [] = some root) (index : Fin 512)
    (upper : 256 ≤ index.val) :
    x86Entries memory.words root index =
      x86Entries before.words (gmTable before.cr3) index &&& ~~~gmPteUser
  placed {slot path page} (here : forest slot path = some page) :
    before.pageNext.toNat ≤ page.toNat ∧ page ∈ memory.handed
  outside : ∀ word, Outside before word →
    memory.words word = before.words word

/-- A page that was handed out for the construction and not used yet. -/
structure Fresh (before memory : GmMemory) (forest : GmForest)
    (page : UInt64) : Prop where
  isPage : IsPage page
  unused : forest.Unused page
  within : before.pageNext.toNat ≤ page.toNat
  handed : page ∈ memory.handed
  blank : ∀ index, x86Entries memory.words page index = 0

section Construction

variable {before memory : GmMemory} {forest : GmForest}

theorem building_start (sound : Sound before) :
    Building before before (fun _ _ => none) where
  sound := sound
  sameEnd := rfl
  kernel := rfl
  grows := Nat.le_refl _
  mapped :=
    { grown := Forest.grown_empty
      shallow := fun here => by cases here
      paged := fun here => by cases here
      tables := fun _ _ _ _ _ _ here => by cases here }
  clean here := by cases here
  shared here := by cases here
  placed here := by cases here
  outside _ _ := rfl

section

variable (building : Building before memory forest)

include building

/-- A change of words that touches no page of the forest. -/
theorem Building.keep {later : GmMemory} (sound : Sound later)
    (sameEnd : later.pageEnd = memory.pageEnd)
    (kernel : later.cr3 = memory.cr3)
    (grows : memory.pageNext.toNat ≤ later.pageNext.toNat)
    (handed : ∀ page ∈ memory.handed, page ∈ later.handed)
    (same : ∀ slot path page index, forest slot path = some page →
      x86Entries later.words page index = x86Entries memory.words page index)
    (outside : ∀ word, Outside before word →
      later.words word = memory.words word) :
    Building before later forest where
  sound := sound
  sameEnd := sameEnd.trans building.sameEnd
  kernel := kernel.trans building.kernel
  grows := Nat.le_trans building.grows grows
  mapped :=
    { grown := building.mapped.grown
      shallow := building.mapped.shallow
      paged := building.mapped.paged
      tables := building.mapped.tables.congr
        fun slot path index page _ here => same slot path page index here }
  clean here leaf index := by
    rw [same _ _ _ _ here]
    exact building.clean here leaf index
  shared here index upper := by
    rw [same _ _ _ _ here]
    exact building.shared here index upper
  placed here :=
    ⟨(building.placed here).1, handed _ (building.placed here).2⟩
  outside word apart := by
    rw [outside word apart]
    exact building.outside word apart

theorem Building.unused_next : forest.Unused memory.pageNext := by
  intro slot path here
  have below := building.sound.below _ (building.placed here).2
  omega

end

variable {limit spare : Nat}

/-- A page was handed out: it extends nothing yet, but is there to be used, and
the allocator is still `spare` pages below the limit. -/
structure Allocates (before memory : GmMemory) (forest : GmForest)
    (limit spare : Nat) (page : UInt64) (later : GmMemory) : Prop where
  building : Building before later forest
  fresh : Fresh before later forest page
  spared {other} (fresh : Fresh before memory forest other) :
    Fresh before later forest other ∧ other ≠ page
  room : Room later limit spare

theorem Building.pageAlloc (building : Building before memory forest)
    (room : Room memory limit (spare + 1)) :
    Gives (OutOfPages before.pageEnd limit) (gmPageAlloc memory)
      fun allocated => Allocates before memory forest limit spare allocated.1
        allocated.2 := by
  have sound := building.sound
  cases sound.pageAlloc with
  | inl stuck =>
    have full := stuck.2
    unfold Room at room
    rw [stuck.1]
    refine gives_error ⟨rfl, ?_⟩
    rw [← building.sameEnd]
    omega
  | inr served =>
    have left := served.2
    rw [served.1]
    have isNext := sound.isPage left
    have next := sound.next_toNat
    have unused := building.unused_next
    have entries : ∀ page, IsPage page → page ≠ memory.pageNext →
        ∀ index, x86Entries memory.allocated.words page index =
          x86Entries memory.words page index := by
      intro page isPage other index
      rw [sound.allocated_entries left isPage, if_neg other]
    apply gives_ok
    exact
      { building := by
          refine building.keep (sound.allocated left) rfl rfl ?_ ?_ ?_ ?_
          · simp only [GmMemory.allocated, next]
            omega
          · intro page member
            exact List.mem_cons_of_mem _ member
          · intro slot path page index here
            apply entries page (building.mapped.paged here)
            rintro rfl
            exact unused slot path here
          · intro word apart
            have aligned := sound.aligned
            have grows := building.grows
            have sameEnd := building.sameEnd
            simp only [GmMemory.allocated, clearPage]
            rw [if_neg]
            intro inside
            rw [sameEnd] at left
            rcases apart with low | high <;> omega
        fresh :=
          { isPage := isNext
            unused := unused
            within := building.grows
            handed := List.mem_cons_self
            blank := by
              intro index
              rw [sound.allocated_entries left isNext, if_pos rfl] }
        spared := by
          intro page fresh
          have below := sound.below page fresh.handed
          have earlier : page ≠ memory.pageNext := by
            rintro rfl
            omega
          refine ⟨?_, earlier⟩
          exact
            { isPage := fresh.isPage
              unused := fresh.unused
              within := fresh.within
              handed := List.mem_cons_of_mem _ fresh.handed
              blank := by
                intro index
                rw [entries page fresh.isPage earlier index]
                exact fresh.blank index }
        room := by
          unfold Room at room ⊢
          simp only [GmMemory.allocated, next]
          omega }

/-- A fresh page becomes a node; the pages of the other nodes keep what the
invariant says about them. -/
theorem Building.place (building : Building before memory forest)
    {page : UInt64} (fresh : Fresh before memory forest page) {slot : GmSlot}
    {path : List (Fin 512)} (absent : forest slot path = none)
    (shallow : path.length ≤ 4)
    (parent : ∀ index tail, path = index :: tail →
      ∃ table, forest slot tail = some table) {words : GmWords}
    (tables : Tabulates 4 LowerPath gmEncode (x86Entries words)
      (forest.place slot path page))
    (same : ∀ {other otherPath found} (index : Fin 512),
      forest other otherPath = some found →
      otherPath.length = 4 ∨ otherPath = [] ∧ 256 ≤ index.val →
      x86Entries words found index = x86Entries memory.words found index)
    (clean : path.length = 4 → ∀ index, x86Entries words page index = 0)
    (shared : path = [] → ∀ index : Fin 512, 256 ≤ index.val →
      x86Entries words page index =
        x86Entries before.words (gmTable before.cr3) index &&& ~~~gmPteUser)
    (outside : ∀ word, Outside before word → words word = memory.words word) :
    Building before { memory with words := words }
      (forest.place slot path page) where
  sound := building.sound.setWords words
  sameEnd := building.sameEnd
  kernel := building.kernel
  grows := building.grows
  mapped :=
    { grown := building.mapped.grown.place absent fresh.unused parent
      shallow := by
        intro other otherPath found here
        rcases Forest.place_cases here with ⟨-, rfl, -⟩ | old
        · exact shallow
        · exact building.mapped.shallow old
      paged := by
        intro other otherPath found here
        rcases Forest.place_cases here with ⟨-, -, rfl⟩ | old
        · exact fresh.isPage
        · exact building.mapped.paged old
      tables := tables }
  clean := by
    intro other otherPath found here leaf index
    rcases Forest.place_cases here with ⟨-, rfl, rfl⟩ | old
    · exact clean leaf index
    · rw [same index old (.inl leaf)]
      exact building.clean old leaf index
  shared := by
    intro other root here index upper
    rcases Forest.place_cases here with ⟨-, top, rfl⟩ | old
    · exact shared top.symm index upper
    · rw [same index old (.inr ⟨rfl, upper⟩)]
      exact building.shared old index upper
  placed := by
    intro other otherPath found here
    rcases Forest.place_cases here with ⟨-, -, rfl⟩ | old
    · exact ⟨fresh.within, fresh.handed⟩
    · exact building.placed old
  outside word apart :=
    (outside word apart).trans (building.outside word apart)

/-- Linking a fresh page into a table of the forest. -/
theorem Building.link (building : Building before memory forest)
    {page table : UInt64} (fresh : Fresh before memory forest page)
    {slot : GmSlot} {path : List (Fin 512)} {index : Fin 512}
    (parent : forest slot path = some table)
    (absent : forest slot (index :: path) = none) (short : path.length < 4)
    (lower : LowerPath (index :: path)) :
    Building before (memory.write table index (gmEncode (some page)))
      (forest.place slot (index :: path) page) := by
  have mapped := building.mapped
  have isTable := mapped.paged parent
  have elsewhere : ∀ {found} place, IsPage found →
      ¬ (found = table ∧ place = index) →
      x86Entries (memory.write table index (gmEncode (some page))).words found
        place = x86Entries memory.words found place := by
    intro found place isFound differs
    rw [write_entries isTable isFound, if_neg differs]
  have blank : ∀ place, x86Entries
      (memory.write table index (gmEncode (some page))).words page place =
        0 := by
    intro place
    rw [elsewhere place fresh.isPage, fresh.blank]
    rintro ⟨rfl, -⟩
    exact fresh.unused slot path parent
  refine building.place fresh absent short ?_ ?_ ?_ (fun _ => blank)
    (fun top => by cases top) ?_
  · intro first tail split
    cases split
    exact ⟨table, parent⟩
  · refine mapped.tables.link mapped.grown parent absent
      (fun _ place _ => blank place) ?_ ?_
    · rw [x86Entries_update isTable isTable, if_pos ⟨rfl, rfl⟩]
    · intro other otherPath place found _ here differs
      exact elsewhere place (mapped.paged here) differs
  · intro other otherPath found place old kind
    apply elsewhere place (mapped.paged old)
    rintro ⟨rfl, rfl⟩
    obtain ⟨rfl, rfl⟩ := mapped.grown.apart old parent
    rcases kind with deep | ⟨rfl, upper⟩
    · -- a page of ring 3 is no table
      omega
    · -- only lower entries of a top-level table are linked
      have below := lower place rfl
      omega
  · intro word apart
    obtain ⟨start, handed⟩ := building.placed parent
    have below := building.sound.below table handed
    have ordered := building.sound.ordered
    have aligned := (isPage_iff.mp isTable).1
    have bound := index.isLt
    rw [building.sameEnd] at ordered
    apply update_of_ne
    rintro rfl
    rcases apart with low | high <;> omega

/-- A page that stays unused while another one is linked. -/
theorem Fresh.link {page other table : UInt64} {slot : GmSlot}
    {path : List (Fin 512)} {index : Fin 512}
    (fresh : Fresh before memory forest page) (differs : page ≠ other)
    (isTable : IsPage table) (parent : forest slot path = some table) :
    Fresh before (memory.write table index (gmEncode (some other)))
      (forest.place slot (index :: path) other) page where
  isPage := fresh.isPage
  unused := by
    intro otherSlot otherPath here
    rcases Forest.place_cases here with ⟨-, -, same⟩ | old
    · exact differs same
    · exact fresh.unused _ _ old
  within := fresh.within
  handed := fresh.handed
  blank := by
    intro place
    rw [write_entries isTable fresh.isPage, if_neg]
    · exact fresh.blank place
    · rintro ⟨rfl, -⟩
      exact fresh.unused slot path parent

/-! ## Tables on demand -/

/-- A step of the construction that provides one node and leaves the others
alone. -/
structure Provides (before : GmMemory) (forest : GmForest)
    (limit spare : Nat) (slot : GmSlot) (path : List (Fin 512)) (page : UInt64)
    (later : GmMemory) (forest' : GmForest) : Prop where
  building : Building before later forest'
  here : forest' slot path = some page
  kept {other otherPath found} (old : forest other otherPath = some found) :
    forest' other otherPath = some found
  elsewhere {other otherPath}
    (differs : ¬ (other = slot ∧ otherPath = path)) :
    forest' other otherPath = forest other otherPath
  room : Room later limit spare

theorem Building.nextTable (building : Building before memory forest)
    {slot : GmSlot} {path : List (Fin 512)} {index : Fin 512}
    {table place : UInt64} (parent : forest slot path = some table)
    (short : path.length < 3) (lower : LowerPath (index :: path))
    (index_eq : place.toNat = index.val)
    (room : Room memory limit (spare + 1)) :
    Gives (OutOfPages before.pageEnd limit)
      (gmNextTable table place gmPteUser memory) fun next =>
        ∃ forest', Provides before forest limit spare slot
            (index :: path) next.1 next.2 forest' ∧
          ∀ other, Fresh before memory forest other →
            Fresh before next.2 forest' other := by
  have mapped := building.mapped
  have entry : memory.entry table place =
      gmEncode (forest slot (index :: path)) := by
    rw [entry_eq index_eq]
    exact mapped.tables slot path index table (by omega) lower parent
  unfold gmNextTable
  rw [entry]
  cases child : forest slot (index :: path) with
  | some next =>
    -- the entry is there and already open to ring 3
    have isNext := mapped.paged child
    have unchanged : memory.setEntry table place
        (gmEncode (some next) ||| gmPteUser) = memory := by
      rw [kept_entry, GmMemory.setEntry, ← child, ← entry, GmMemory.entry,
        update_eq_self]
    have address : gmTable (memory.entry table place) = next := by
      rw [entry, child, gmTable_gmEncode isNext]
    rw [if_neg (gmEncode_present isNext), unchanged]
    simp only [address]
    refine gives_ok ⟨forest, ?_, fun other fresh => fresh⟩
    exact
      { building := building
        here := child
        kept := fun old => old
        elsewhere := fun _ => rfl
        room := room.mono (Nat.le_succ _) }
  | none =>
    rw [if_pos gmEncode_none_present]
    refine (building.pageAlloc room).bind ?_
    rintro ⟨phys, allocated⟩ allocates
    have isPhys := allocates.fresh.isPage
    have isTable := mapped.paged parent
    simp only [setEntry_entry]
    rw [fresh_entry, setEntry_eq_write index_eq, gmTable_gmEncode isPhys]
    refine gives_ok ⟨forest.place slot (index :: path) phys, ?_, ?_⟩
    · exact
        { building := allocates.building.link allocates.fresh parent child
            (by omega) lower
          here := Forest.place_self ..
          kept := fun old => Forest.place_keeps child old
          elsewhere := fun differs => Forest.place_of_ne differs
          room := allocates.room }
    · intro other old
      obtain ⟨still, differs⟩ := allocates.spared old
      exact still.link differs isTable parent

end Construction

end Gmker.Memory
