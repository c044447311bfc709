import Gmker.Memory.Arenas

/-!
# Clearing and probing the arenas

The kernel reaches an arena through the tables of its slot.  A store there
lands in a page of ring 3 and so changes no table: clearing a blank arena
changes nothing at all, and the isolation check restores what it probed.
-/

namespace Gmker.Memory

open Function

open Foundation (Forest Tabulates runSteps runSteps_cons_ok)
open Gmker.Programs (GmSlot)

section Access

variable {memory : GmMemory} {words : GmWords} {forest : GmForest}
  {slot : GmSlot} {cr3 virt page : UInt64} {word : Nat}

/-- The index of the word of an address in its page. -/
def wordIndex (virt : UInt64) : Fin 512 :=
  ⟨virt.toNat % 4096 / 8, by omega⟩

/-- The word that an address of a slot names. -/
def WordOf (forest : GmForest) (slot : GmSlot) (virt : UInt64) (word : Nat) :
    Prop :=
  ∃ page, forest slot (virtPath virt) = some page ∧
    word = page.toNat / 8 + wordIndex virt

/-- The machine in an address space with given words. -/
def GmMemory.view (memory : GmMemory) (cr3 : UInt64) (words : GmWords) :
    GmMemory :=
  { memory with cr3 := cr3, words := words }

theorem switch_view (other : UInt64) :
    gmAddressSpaceSwitch other (memory.view cr3 words) =
      memory.view other words := rfl

private theorem word_eq (isPage : IsPage page) :
    (page.toNat + virt.toNat % 4096) / 8 =
      page.toNat / 8 + wordIndex virt := by
  have aligned := (isPage_iff.mp isPage).1
  simp only [wordIndex]
  omega

section

variable (mapped : Mapped words forest)

include mapped

theorem Mapped.store (root : forest slot [] = some cr3) (lower : lowerHalf virt)
    (target : WordOf forest slot virt word) (memory : GmMemory) (value : UInt64) :
    storeWord virt value (memory.view cr3 words) =
      .ok (memory.view cr3 (update words word value)) := by
  obtain ⟨page, here, rfl⟩ := target
  have found := mapped.translate root lower
  rw [here] at found
  rw [← word_eq (mapped.paged here), storeWord, GmMemory.view, found]
  rfl

theorem Mapped.load (root : forest slot [] = some cr3) (lower : lowerHalf virt)
    (target : WordOf forest slot virt word) (memory : GmMemory) :
    loadWord virt (memory.view cr3 words) = .ok (words word) := by
  obtain ⟨page, here, rfl⟩ := target
  have found := mapped.translate root lower
  rw [here] at found
  rw [← word_eq (mapped.paged here), loadWord, GmMemory.view, found]
  rfl

/-- Words of different slots are different. -/
theorem Mapped.word_ne {other : GmSlot} {otherVirt : UInt64} {otherWord : Nat}
    (differs : slot ≠ other) (target : WordOf forest slot virt word)
    (otherTarget : WordOf forest other otherVirt otherWord) :
    word ≠ otherWord := by
  obtain ⟨page, here, rfl⟩ := target
  obtain ⟨page', there, rfl⟩ := otherTarget
  have aligned := (isPage_iff.mp (mapped.paged here)).1
  have aligned' := (isPage_iff.mp (mapped.paged there)).1
  have bound := (wordIndex virt).isLt
  have bound' := (wordIndex otherVirt).isLt
  intro same
  have equal : page = page' := by
    rw [← UInt64.toNat_inj]
    omega
  subst equal
  exact differs (mapped.grown.apart here there).1

/-- A store to a page of ring 3 changes no table. -/
theorem Mapped.update (target : WordOf forest slot virt word) (value : UInt64) :
    Mapped (update words word value) forest where
  grown := mapped.grown
  shallow := mapped.shallow
  paged := mapped.paged
  tables := by
    obtain ⟨page, here, rfl⟩ := target
    apply mapped.tables.congr
    intro other path index table short there
    rw [x86Entries_update (mapped.paged here) (mapped.paged there), if_neg]
    rintro ⟨rfl, -⟩
    obtain ⟨-, rfl⟩ := mapped.grown.apart there here
    simp [virtPath] at short

end

/-! ## Clearing -/

/-- Exactly the words of the addresses were cleared. -/
structure Cleared (forest : GmForest) (slot : GmSlot)
    (addresses : List UInt64) (words later : GmWords) : Prop where
  inside {virt : UInt64} {word : Nat} (member : virt ∈ addresses)
    (target : WordOf forest slot virt word) : later word = 0
  outside {word : Nat}
    (apart : ∀ virt ∈ addresses, ¬ WordOf forest slot virt word) :
    later word = words word

/-- Clearing some addresses after others. -/
theorem Cleared.append {first second : List UInt64}
    {words middle later : GmWords}
    (cleared : Cleared forest slot first words middle)
    (again : Cleared forest slot second middle later) :
    Cleared forest slot (first ++ second) words later where
  inside := by
    intro virt word member target
    by_cases touched : ∃ other ∈ second, WordOf forest slot other word
    · obtain ⟨other, otherMember, otherTarget⟩ := touched
      exact again.inside otherMember otherTarget
    · have apart : ∀ other ∈ second, ¬ WordOf forest slot other word :=
        fun other otherMember otherTarget =>
          touched ⟨other, otherMember, otherTarget⟩
      rw [again.outside apart]
      rcases List.mem_append.mp member with early | late
      · exact cleared.inside early target
      · exact absurd target (apart virt late)
  outside := by
    intro word apart
    rw [again.outside fun virt member =>
      apart virt (List.mem_append_right _ member)]
    exact cleared.outside fun virt member =>
      apart virt (List.mem_append_left _ member)

/-- The addresses of a list are mapped in the slot. -/
def Reaches (forest : GmForest) (slot : GmSlot) (addresses : List UInt64) :
    Prop :=
  ∀ virt ∈ addresses, lowerHalf virt ∧ (forest slot (virtPath virt)).isSome

theorem Mapped.clear {addresses : List UInt64} (mapped : Mapped words forest)
    (root : forest slot [] = some cr3)
    (reaches : Reaches forest slot addresses) (memory : GmMemory) :
    ∃ later, runSteps clearWord addresses (memory.view cr3 words) =
        .ok (memory.view cr3 later) ∧
      Cleared forest slot addresses words later ∧ Mapped later forest := by
  induction addresses generalizing words with
  | nil =>
    refine ⟨words, rfl, ?_, mapped⟩
    exact { inside := fun member => by cases member
            outside := fun _ => rfl }
  | cons virt addresses induction =>
    obtain ⟨lower, some_page⟩ := reaches virt List.mem_cons_self
    obtain ⟨page, here⟩ := Option.isSome_iff_exists.mp some_page
    have target : WordOf forest slot virt (page.toNat / 8 + wordIndex virt) :=
      ⟨page, here, rfl⟩
    have stored : clearWord virt (memory.view cr3 words) = .ok (memory.view
        cr3 (Function.update words (page.toNat / 8 + wordIndex virt) 0)) :=
      mapped.store root lower target memory 0
    obtain ⟨later, ran, cleared, mapped'⟩ :=
      induction (mapped.update target 0) fun other member =>
        reaches other (List.mem_cons_of_mem _ member)
    refine ⟨later, ?_, ?_, mapped'⟩
    · rw [runSteps_cons_ok stored]
      exact ran
    · have first : Cleared forest slot [virt] words
          (Function.update words (page.toNat / 8 + wordIndex virt) 0) :=
        { inside := by
            intro other word member otherTarget
            rw [List.mem_singleton] at member
            subst member
            obtain ⟨page', there, rfl⟩ := otherTarget
            rw [here] at there
            cases there
            rw [update_self]
          outside := by
            intro word apart
            apply update_of_ne
            rintro rfl
            exact apart virt List.mem_cons_self target }
      exact first.append cleared

/-- The words that `gm_program_clear` clears. -/
def arenaWords : List UInt64 :=
  wordsFrom gmProgramBase gmProgramImageMax ++
    (wordsFrom gmProgramArg gmProgramArgSize ++
      wordsFrom gmProgramStack gmProgramStackSize)

theorem mem_wordsFrom {start size : Nat} (bounded : start + size < 4294967296)
    (member : virt ∈ wordsFrom start size) :
    start ≤ virt.toNat ∧ virt.toNat < start + size := by
  unfold wordsFrom at member
  obtain ⟨index, inRange, rfl⟩ := List.mem_map.mp member
  have bound := List.mem_range.mp inRange
  rw [UInt64.toNat_ofNat']
  omega

theorem arenaWords_inArena (member : virt ∈ arenaWords) : InArena virt := by
  have arg : gmProgramArg + gmProgramArgSize = gmProgramGuard := rfl
  have image : gmProgramBase + gmProgramImageMax = gmProgramArg := rfl
  have ending : gmProgramStack + gmProgramStackSize = gmProgramEnd := rfl
  have order : gmProgramBase ≤ gmProgramArg ∧
      gmProgramArg ≤ gmProgramGuard := by decide
  unfold arenaWords at member
  unfold InArena
  rcases List.mem_append.mp member with inImage | rest
  · have range := mem_wordsFrom (by decide) inImage
    omega
  · rcases List.mem_append.mp rest with inArg | inStack
    · have range := mem_wordsFrom (by decide) inArg
      omega
    · have range := mem_wordsFrom (by decide) inStack
      omega

theorem HasArena.reaches (arena : HasArena forest slot) :
    Reaches forest slot arenaWords := by
  intro virt member
  have inside := arenaWords_inArena member
  exact ⟨inside.lower, (arena.isSome_iff inside.lower).mpr inside⟩

private theorem ok_bind {α β : Type} (value : α)
    (next : α → Except GmMemoryPanic β) : (.ok value >>= next) = next value :=
  rfl

/-- `gm_program_clear` clears the arena of the current slot. -/
theorem Mapped.programClear (mapped : Mapped words forest)
    (root : forest slot [] = some cr3) (arena : HasArena forest slot)
    (memory : GmMemory) :
    ∃ later, gmProgramClear (memory.view cr3 words) =
        .ok (memory.view cr3 later) ∧
      Cleared forest slot arenaWords words later ∧ Mapped later forest := by
  have reaches := arena.reaches
  unfold arenaWords at reaches
  obtain ⟨words1, ran1, cleared1, mapped1⟩ := mapped.clear root
    (fun virt member => reaches virt (List.mem_append_left _ member)) memory
  have later : Reaches forest slot (wordsFrom gmProgramArg gmProgramArgSize ++
      wordsFrom gmProgramStack gmProgramStackSize) :=
    fun virt member => reaches virt (List.mem_append_right _ member)
  obtain ⟨words2, ran2, cleared2, mapped2⟩ := mapped1.clear root
    (fun virt member => later virt (List.mem_append_left _ member)) memory
  obtain ⟨words3, ran3, cleared3, mapped3⟩ := mapped2.clear root
    (fun virt member => later virt (List.mem_append_right _ member)) memory
  refine ⟨words3, ?_, cleared1.append (cleared2.append cleared3), mapped3⟩
  rw [gmProgramClear, gmMemset, ran1, ok_bind, gmMemset, ran2, ok_bind, gmMemset,
    ran3]

end Access

/-! ## Blank arenas -/

section Probe

variable {before memory : GmMemory} {forest : GmForest} {slot : GmSlot}

theorem Building.blank_word (building : Building before memory forest)
    {virt : UInt64} {word : Nat} (target : WordOf forest slot virt word) :
    memory.words word = 0 := by
  obtain ⟨page, here, rfl⟩ := target
  exact building.clean here rfl (wordIndex virt)

/-- Clearing the blank arena of a slot changes nothing. -/
theorem Building.programClear (building : Building before memory forest)
    {cr3 : UInt64} (root : forest slot [] = some cr3)
    (arena : HasArena forest slot) :
    gmProgramClear (gmAddressSpaceSwitch cr3 memory) =
      .ok (gmAddressSpaceSwitch cr3 memory) := by
  obtain ⟨later, ran, cleared, -⟩ :=
    building.mapped.programClear root arena memory
  have unchanged : later = memory.words := by
    funext word
    by_cases touched : ∃ virt ∈ arenaWords, WordOf forest slot virt word
    · obtain ⟨virt, member, target⟩ := touched
      rw [cleared.inside member target, building.blank_word target]
    · exact cleared.outside fun virt member target =>
        touched ⟨virt, member, target⟩
  rw [unchanged] at ran
  exact ran

theorem probe_mem_arenaWords : probe ∈ arenaWords := by
  apply List.mem_append_left
  exact List.mem_map.mpr ⟨0, List.mem_range.mpr (by decide), rfl⟩

/-- The isolation check passes and leaves memory as it was. -/
theorem Building.isolationCheck (building : Building before memory forest)
    {cr3 : GmSlot → UInt64} (root0 : forest firstSlot [] = some (cr3 firstSlot))
    (root1 : forest secondSlot [] = some (cr3 secondSlot))
    (arena0 : HasArena forest firstSlot)
    (arena1 : HasArena forest secondSlot) :
    gmProgramIsolationCheck memory.cr3 cr3 memory = .ok memory := by
  have inside := arenaWords_inArena probe_mem_arenaWords
  have lower := inside.lower
  obtain ⟨page0, here0⟩ := Option.isSome_iff_exists.mp
    ((arena0.isSome_iff lower).mpr inside)
  obtain ⟨page1, here1⟩ := Option.isSome_iff_exists.mp
    ((arena1.isSome_iff lower).mpr inside)
  obtain ⟨word0, target0⟩ : ∃ word, WordOf forest firstSlot probe word :=
    ⟨_, page0, here0, rfl⟩
  obtain ⟨word1, target1⟩ : ∃ word, WordOf forest secondSlot probe word :=
    ⟨_, page1, here1, rfl⟩
  have mapped := building.mapped
  have apart : word0 ≠ word1 := mapped.word_ne (by decide) target0 target1
  -- the two probes go to different words
  have mapped0 := mapped.update target0 0x1122334455667788
  have mapped1 := mapped0.update target1 0x8877665544332211
  have store0 := mapped.store root0 lower target0 memory 0x1122334455667788
  have load1 := mapped0.load root1 lower target1 memory
  have store1 := mapped0.store root1 lower target1 memory 0x8877665544332211
  have reload0 := mapped1.load root0 lower target0 memory
  have reload1 := mapped1.load root1 lower target1 memory
  rw [update_of_ne apart.symm, building.blank_word target1] at load1
  rw [update_of_ne apart, update_self] at reload0
  rw [update_self] at reload1
  -- and both are cleared again
  obtain ⟨words2, clear1, cleared1, mapped2⟩ :=
    mapped1.programClear root1 arena1 memory
  obtain ⟨words3, clear0, cleared0, -⟩ :=
    mapped2.programClear root0 arena0 memory
  have restored : words3 = memory.words := by
    funext word
    by_cases touched0 : ∃ virt ∈ arenaWords, WordOf forest firstSlot virt word
    · obtain ⟨virt, member, target⟩ := touched0
      rw [cleared0.inside member target, building.blank_word target]
    · have apart0 : ∀ virt ∈ arenaWords, ¬ WordOf forest firstSlot virt word :=
        fun virt member target => touched0 ⟨virt, member, target⟩
      rw [cleared0.outside apart0]
      by_cases touched1 : ∃ virt ∈ arenaWords, WordOf forest secondSlot virt word
      · obtain ⟨virt, member, target⟩ := touched1
        rw [cleared1.inside member target, building.blank_word target]
      · have apart1 : ∀ virt ∈ arenaWords, ¬ WordOf forest secondSlot virt word :=
          fun virt member target => touched1 ⟨virt, member, target⟩
        have other0 : word ≠ word0 := by
          rintro rfl
          exact apart0 probe probe_mem_arenaWords target0
        have other1 : word ≠ word1 := by
          rintro rfl
          exact apart1 probe probe_mem_arenaWords target1
        rw [cleared1.outside apart1, update_of_ne other1,
          update_of_ne other0]
  have start : gmAddressSpaceSwitch (cr3 firstSlot) memory =
      memory.view (cr3 firstSlot) memory.words := rfl
  unfold gmProgramIsolationCheck
  rw [start, store0, ok_bind]
  simp only [switch_view]
  rw [load1, ok_bind, if_neg (by decide), store1, ok_bind]
  simp only [switch_view]
  rw [reload0, ok_bind, if_neg (by decide), reload1, ok_bind,
    if_neg (by decide), clear1, ok_bind, switch_view, clear0, ok_bind, restored]
  rfl

end Probe

end Gmker.Memory
