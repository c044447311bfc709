import Gmker.Memory.Spaces

/-!
# The arenas of the applications

`gm_programs_init` maps the same twenty-one pages in every slot, clears them
through their virtual addresses and probes two of the slots.  Each loop keeps
the invariant of the construction; the only panic left is the lack of pages.
-/

namespace Gmker.Memory

open Foundation (Forest Tabulates Gives gives_ok gives_error runSteps
  runSteps_gives)
open Gmker.Programs (GmSlot gmAppMax)

variable {virt : UInt64}

/-! ## The layout -/

private theorem arena_layout : gmProgramBase = 1073741824 ∧
    gmProgramGuard = 1073811456 ∧ gmProgramStack = 1073815552 ∧
    gmProgramEnd = 1073831936 :=
  ⟨rfl, rfl, rfl, rfl⟩

/-- The addresses that ring 3 may use. -/
def InArena (virt : UInt64) : Prop :=
  (gmProgramBase ≤ virt.toNat ∧ virt.toNat < gmProgramGuard) ∨
    (gmProgramStack ≤ virt.toNat ∧ virt.toNat < gmProgramEnd)

instance (virt : UInt64) : Decidable (InArena virt) :=
  inferInstanceAs (Decidable (_ ∨ _))

theorem InArena.lower (inside : InArena virt) : lowerHalf virt := by
  obtain ⟨base, guard, stack, ending⟩ := arena_layout
  unfold InArena at inside
  unfold lowerHalf
  omega

theorem virtPath_eq_iff {virt other : UInt64} (lower : lowerHalf virt)
    (lowerOther : lowerHalf other) :
    virtPath virt = virtPath other ↔
      virt.toNat / 4096 = other.toNat / 4096 := by
  unfold lowerHalf at lower lowerOther
  simp only [virtPath, x86Index, x86Span, List.cons.injEq, Fin.mk.injEq,
    and_true]
  omega

theorem mem_gmArenaPages :
    virt ∈ gmArenaPages ↔ virt.toNat % 4096 = 0 ∧
      gmProgramBase ≤ virt.toNat ∧ virt.toNat < gmProgramEnd := by
  obtain ⟨base, -, -, ending⟩ := arena_layout
  unfold gmArenaPages
  rw [List.mem_map]
  constructor
  · rintro ⟨index, member, rfl⟩
    have bound := List.mem_range.mp member
    rw [UInt64.toNat_ofNat']
    omega
  · rintro ⟨aligned, low, high⟩
    refine ⟨(virt.toNat - gmProgramBase) / 4096, List.mem_range.mpr ?_, ?_⟩
    · omega
    · rw [← UInt64.toNat_inj, UInt64.toNat_ofNat']
      have bound := virt.toNat_lt
      omega

theorem gmArenaPages_lower (member : virt ∈ gmArenaPages) : lowerHalf virt := by
  obtain ⟨-, -, -, ending⟩ := arena_layout
  have high := (mem_gmArenaPages.mp member).2.2
  unfold lowerHalf
  omega

theorem gmArenaPages_nodup : gmArenaPages.Nodup := by
  decide +kernel

abbrev guardPage : UInt64 := UInt64.ofNat gmProgramGuard

theorem guardPage_toNat : guardPage.toNat = gmProgramGuard := rfl

/-- The pages of the arena are those of the loop, the guard page apart. -/
theorem inArena_iff (lower : lowerHalf virt) :
    InArena virt ↔ ∃ page ∈ gmArenaPages, page ≠ guardPage ∧
      virtPath virt = virtPath page := by
  obtain ⟨base, guard, stack, ending⟩ := arena_layout
  constructor
  · intro inside
    have bound := virt.toNat_lt
    have page : (UInt64.ofNat (virt.toNat / 4096 * 4096)).toNat =
        virt.toNat / 4096 * 4096 := by
      rw [UInt64.toNat_ofNat']
      omega
    have lowerPage : lowerHalf (UInt64.ofNat (virt.toNat / 4096 * 4096)) := by
      unfold lowerHalf at lower ⊢
      omega
    unfold InArena at inside
    refine ⟨UInt64.ofNat (virt.toNat / 4096 * 4096), ?_, ?_, ?_⟩
    · rw [mem_gmArenaPages, page]
      omega
    · intro isGuard
      have value := congrArg UInt64.toNat isGuard
      rw [page, guardPage_toNat] at value
      omega
    · rw [virtPath_eq_iff lower lowerPage, page]
      omega
  · rintro ⟨page, member, notGuard, same⟩
    obtain ⟨aligned, low, high⟩ := mem_gmArenaPages.mp member
    rw [virtPath_eq_iff lower (gmArenaPages_lower member)] at same
    have differs : page.toNat ≠ gmProgramGuard := by
      intro value
      apply notGuard
      rw [← UInt64.toNat_inj, guardPage_toNat, value]
    unfold InArena
    omega

/-- The pages of a slot are those of the arena. -/
def HasArena (forest : GmForest) (slot : GmSlot) : Prop :=
  ∀ path, path.length = 4 → ((forest slot path).isSome ↔
    ∃ virt ∈ gmArenaPages, virt ≠ guardPage ∧ path = virtPath virt)

theorem HasArena.isSome_iff {forest : GmForest} {slot : GmSlot}
    (arena : HasArena forest slot) (lower : lowerHalf virt) :
    (forest slot (virtPath virt)).isSome ↔ InArena virt := by
  rw [arena _ rfl, inArena_iff lower]

/-! ## Mapping the arena -/

/-- The loop over the pages of a slot, after some of them. -/
structure ArenaGrowing (before : GmMemory) (old : GmForest) (slot : GmSlot)
    (cr3 : UInt64) (limit spare : Nat) (done : List UInt64)
    (memory : GmMemory) (forest : GmForest) : Prop where
  building : Building before memory forest
  root : forest slot [] = some cr3
  pages : ∀ path, path.length = 4 → ((forest slot path).isSome ↔
    ∃ virt ∈ done, virt ≠ guardPage ∧ path = virtPath virt)
  others {other path} (differs : other ≠ slot) :
    forest other path = old other path
  room : Room memory limit (spare + 4 * (22 - done.length))

section Arena

variable {before memory : GmMemory} {old forest : GmForest} {slot : GmSlot}
  {cr3 : UInt64} {limit spare : Nat}

theorem ArenaGrowing.turn {done rest : List UInt64}
    (split : gmArenaPages = done ++ virt :: rest)
    (growing : ArenaGrowing before old slot cr3 limit spare done memory forest) :
    Gives (OutOfPages before.pageEnd limit) (gmMapArenaPage cr3 virt memory)
      fun later => ∃ forest', ArenaGrowing before old slot cr3 limit spare
        (done ++ [virt]) later forest' := by
  have member : virt ∈ gmArenaPages := by
    rw [split]
    simp
  obtain ⟨aligned, low, high⟩ := mem_gmArenaPages.mp member
  have lower := gmArenaPages_lower member
  have nodup := gmArenaPages_nodup
  rw [split] at nodup
  have new : virt ∉ done := by
    intro again
    have disjoint := (List.nodup_append.mp nodup).2.2
    exact disjoint virt again virt List.mem_cons_self rfl
  have left : 4 * (22 - (done ++ [virt]).length) + 4 =
      4 * (22 - done.length) := by
    have total : gmArenaPages.length = 22 := by rfl
    rw [split, List.length_append, List.length_cons] at total
    rw [List.length_append, List.length_singleton]
    omega
  unfold gmMapArenaPage
  by_cases guard : virt = guardPage
  · rw [if_pos guard]
    refine gives_ok ⟨forest, ?_⟩
    exact
      { growing with
        pages := by
          intro path deep
          rw [growing.pages path deep]
          constructor
          · rintro ⟨page, mem, rest⟩
            exact ⟨page, List.mem_append_left _ mem, rest⟩
          · rintro ⟨page, mem, notGuard, same⟩
            rcases List.mem_append.mp mem with mem | mem
            · exact ⟨page, mem, notGuard, same⟩
            · rw [List.mem_singleton] at mem
              exact absurd (mem.trans guard) notGuard
        room := growing.room.mono (by omega) }
  · have absent : forest slot (virtPath virt) = none := by
      cases here : forest slot (virtPath virt) with
      | none => rfl
      | some page =>
        have mapped := (growing.pages (virtPath virt) rfl).mp
          (by rw [here]; rfl)
        obtain ⟨earlier, mem, -, same⟩ := mapped
        have earlierMember : earlier ∈ gmArenaPages := by
          rw [split]
          exact List.mem_append_left _ mem
        have aligned' := (mem_gmArenaPages.mp earlierMember).1
        rw [virtPath_eq_iff lower (gmArenaPages_lower earlierMember)] at same
        have equal : virt = earlier := by
          rw [← UInt64.toNat_inj]
          omega
        exact absurd (equal ▸ mem) new
    rw [if_neg guard]
    have room : Room memory limit
        (spare + 4 * (22 - (done ++ [virt]).length) + 3 + 1) :=
      growing.room.mono (by omega)
    refine (growing.building.pageAlloc room).bind ?_
    rintro ⟨phys, allocated⟩ allocates
    dsimp only at allocates ⊢
    refine (allocates.building.mapUserPage allocates.fresh growing.root lower
      aligned absent allocates.room).bind ?_
    rintro ⟨mapped, later⟩ ⟨rfl, forest', maps⟩
    dsimp only at maps ⊢
    rw [if_pos rfl]
    refine gives_ok ⟨forest', ?_⟩
    exact
      { building := maps.building
        root := maps.kept growing.root
        pages := by
          intro path deep
          by_cases same : path = virtPath virt
          · subst same
            rw [maps.here]
            refine ⟨fun _ => ?_, fun _ => rfl⟩
            exact ⟨virt, by simp, guard, rfl⟩
          · rw [maps.leaves deep same, growing.pages path deep]
            constructor
            · rintro ⟨page, mem, rest⟩
              exact ⟨page, List.mem_append_left _ mem, rest⟩
            · rintro ⟨page, mem, notGuard, equal⟩
              rcases List.mem_append.mp mem with mem | mem
              · exact ⟨page, mem, notGuard, equal⟩
              · rw [List.mem_singleton] at mem
                subst mem
                exact absurd equal same
        others := by
          intro other path differs
          rw [maps.others differs, growing.others differs]
        room := maps.room }

theorem ArenaGrowing.finish
    (growing : ArenaGrowing before old slot cr3 limit spare [] memory forest) :
    Gives (OutOfPages before.pageEnd limit)
      (runSteps (gmMapArenaPage cr3) gmArenaPages memory) fun later =>
        ∃ forest', ArenaGrowing before old slot cr3 limit spare gmArenaPages
          later forest' := by
  have turns : ∀ done virt rest memory, gmArenaPages = done ++ virt :: rest →
      (∃ forest, ArenaGrowing before old slot cr3 limit spare done memory
        forest) →
      Gives (OutOfPages before.pageEnd limit) (gmMapArenaPage cr3 virt memory)
        fun later => ∃ forest', ArenaGrowing before old slot cr3 limit spare
          (done ++ [virt]) later forest' := by
    rintro done virt rest memory split ⟨forest, growing⟩
    exact growing.turn split
  exact runSteps_gives turns rfl ⟨forest, growing⟩

end Arena

end Gmker.Memory
