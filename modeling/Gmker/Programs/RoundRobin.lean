import Gmker.Programs.SlotChanges

/-!
# Round robin without overtaking

The dispatcher searches the slots in circular order from the one after the
slot it resumed last.  How far that search is from a READY slot is a measure
that every dispatch lowers and nothing else changes, whatever becomes of the
other slots in between.
-/

namespace Gmker.Programs

open Foundation

variable {before after kernel : GmKernel} {slot : GmSlot}
  {frame : GmServiceFrame}

/-! ## Calls of the dispatcher -/

/-- The call of `gm_program_schedule` that a step is, if any: the slot it
resumed, or `none` when it returned 0. -/
def gmScheduleCall : GmStep → GmKernel → List (Option GmSlot)
  | .schedule, kernel =>
    let scheduled := gmProgramSchedule kernel
    [if scheduled.1 then some scheduled.2.current else none]
  | _, _ => []

/-- The calls of `gm_program_schedule` in a run, in order. -/
def gmScheduleCalls : List GmStep → GmKernel → List (Option GmSlot)
  | [], _ => []
  | step :: steps, kernel =>
    gmScheduleCall step kernel ++
      match gmStep step kernel with
      | .error _ => []
      | .ok after => gmScheduleCalls steps after

/-- The slot is READY before every step of the run up to the one that
dispatches it. -/
def StaysReady (slot : GmSlot) : List GmStep → GmKernel → Prop
  | [], _ => True
  | step :: steps, kernel =>
    (kernel.apps slot).state = .ready ∧
      (some slot ∈ gmScheduleCall step kernel ∨
        match gmStep step kernel with
        | .error _ => True
        | .ok after => StaysReady slot steps after)

/-! ## The distance of a slot from the pointer -/

/-- How many slots the search passes before it reaches this one. -/
def searchDistance (kernel : GmKernel) (slot : GmSlot) : Nat :=
  (slot.val + gmAppMax - kernel.programNext % gmAppMax) % gmAppMax

theorem searchDistance_lt (kernel : GmKernel) (slot : GmSlot) :
    searchDistance kernel slot < gmAppMax :=
  Nat.mod_lt _ (by decide)

/-- While a slot is READY the search ends there at the latest. -/
theorem gmNextReady_distance (ready : (kernel.apps slot).state = .ready) :
    ∃ chosen, gmNextReady kernel = some chosen ∧
      searchDistance kernel chosen ≤ searchDistance kernel slot := by
  have bound := searchDistance_lt kernel slot
  have reached : (⟨(kernel.programNext + searchDistance kernel slot) %
      gmAppMax, Nat.mod_lt _ (by decide)⟩ : GmSlot) = slot := by
    apply Fin.ext
    have within := slot.isLt
    simp only [searchDistance, gmAppMax] at within ⊢
    omega
  unfold gmNextReady
  rw [List.find?_map]
  cases found : (List.range gmAppMax).find? _ with
  | none =>
    have missed := List.find?_eq_none.mp found
      (searchDistance kernel slot) (List.mem_range.mpr bound)
    simp [reached, ready] at missed
  | some offset =>
    obtain ⟨_, within, first⟩ := List.find?_range_eq_some.mp found
    refine ⟨_, rfl, ?_⟩
    have least : offset ≤ searchDistance kernel slot := by
      by_contra beyond
      have missed := first _ (Nat.lt_of_not_le beyond)
      simp [reached, ready] at missed
    have same : searchDistance kernel
        ⟨(kernel.programNext + offset) % gmAppMax,
          Nat.mod_lt _ (by decide)⟩ = offset := by
      have inside := List.mem_range.mp within
      simp only [searchDistance, gmAppMax] at inside ⊢
      omega
    rw [same]
    exact least

/-- A dispatch of another slot brings the pointer closer to the READY one and
sends the dispatched slot behind it. -/
theorem searchDistance_dispatch {chosen : GmSlot}
    (pointer : after.programNext = (chosen.val + 1) % gmAppMax)
    (closer : searchDistance kernel chosen ≤ searchDistance kernel slot)
    (different : chosen ≠ slot) :
    searchDistance kernel chosen < searchDistance kernel slot ∧
      searchDistance after slot < searchDistance kernel slot ∧
      searchDistance after slot ≤ searchDistance after chosen ∧
      ∀ other, searchDistance after other < searchDistance after slot →
        searchDistance kernel other < searchDistance kernel slot := by
  have apart : chosen.val ≠ slot.val := fun same => different (Fin.ext same)
  have chosenWithin := chosen.isLt
  have slotWithin := slot.isLt
  simp only [searchDistance, pointer, gmAppMax] at *
  refine ⟨by omega, by omega, by omega, ?_⟩
  intro other before
  have otherWithin := other.isLt
  simp only [gmAppMax] at otherWithin
  omega

/-! ## A whole run -/

/-- The calls before a READY slot is dispatched: each resumes a slot nearer to
the pointer, and no slot twice. -/
structure Overtakes (kernel : GmKernel) (slot : GmSlot)
    (calls : List (Option GmSlot)) : Prop where
  nearer : ∀ call ∈ calls, ∃ other, call = some other ∧
    searchDistance kernel other < searchDistance kernel slot
  once : calls.Nodup
  few : calls.length ≤ searchDistance kernel slot

theorem Overtakes.nil (kernel : GmKernel) (slot : GmSlot) :
    Overtakes kernel slot [] :=
  ⟨nofun, List.nodup_nil, Nat.zero_le _⟩

/-- A step that leaves the pointer alone. -/
theorem Overtakes.of_pointer {calls : List (Option GmSlot)}
    (pointer : after.programNext = kernel.programNext)
    (later : Overtakes after slot calls) : Overtakes kernel slot calls := by
  have same : searchDistance after = searchDistance kernel := by
    funext other
    rw [searchDistance, searchDistance, pointer]
  refine ⟨?_, later.once, ?_⟩
  · rw [← same]
    exact later.nearer
  · rw [← same]
    exact later.few

theorem Overtakes.dispatch {chosen : GmSlot} {calls : List (Option GmSlot)}
    (pointer : after.programNext = (chosen.val + 1) % gmAppMax)
    (closer : searchDistance kernel chosen ≤ searchDistance kernel slot)
    (different : chosen ≠ slot) (later : Overtakes after slot calls) :
    Overtakes kernel slot (some chosen :: calls) := by
  obtain ⟨nearer, moved, behind, inside⟩ :=
    searchDistance_dispatch pointer closer different
  refine ⟨?_, List.nodup_cons.mpr ⟨?_, later.once⟩, ?_⟩
  · intro call member
    rcases List.mem_cons.mp member with rfl | member
    · exact ⟨chosen, rfl, nearer⟩
    · obtain ⟨other, rfl, before⟩ := later.nearer call member
      exact ⟨other, rfl, inside other before⟩
  · -- The dispatched slot is now behind the READY one.
    intro member
    obtain ⟨other, same, before⟩ := later.nearer _ member
    cases same
    exact Nat.not_lt.mpr behind before
  · have few := later.few
    rw [List.length_cons]
    omega

theorem gmScheduleCall_other {step : GmStep} (other : step ≠ .schedule)
    (kernel : GmKernel) : gmScheduleCall step kernel = [] := by
  cases step with
  | schedule => exact absurd rfl other
  | _ => rfl

theorem StaysReady.overtakes {steps : List GmStep}
    (stays : StaysReady slot steps kernel) :
    Overtakes kernel slot ((gmScheduleCalls steps kernel).takeWhile
      fun call => decide (call ≠ some slot)) := by
  induction steps generalizing kernel with
  | nil => exact .nil kernel slot
  | cons step steps induction =>
    obtain ⟨ready, rest⟩ := stays
    unfold gmScheduleCalls
    by_cases isSchedule : step = .schedule
    · subst isSchedule
      obtain ⟨chosen, found, closer⟩ := gmNextReady_distance ready
      have call : gmScheduleCall .schedule kernel = [some chosen] := by
        simp [gmScheduleCall, gmProgramSchedule, found, gmProgramActivate,
          GmKernel.record, GmKernel.setApp]
      have pointer : (gmProgramSchedule kernel).2.programNext =
          (chosen.val + 1) % gmAppMax := by
        simp [gmProgramSchedule, found, gmProgramActivate, GmKernel.record,
          GmKernel.setApp]
      rw [call] at rest ⊢
      by_cases isSlot : chosen = slot
      · subst isSlot
        simpa using Overtakes.nil kernel chosen
      · have later := induction (rest.resolve_left (by
          simpa using Ne.symm isSlot))
        simpa [gmStep, isSlot] using later.dispatch pointer closer isSlot
    · rw [gmScheduleCall_other isSchedule] at rest ⊢
      cases stepped : gmStep step kernel with
      | error panic => exact .nil kernel slot
      | ok after =>
        rw [stepped] at rest
        have later := induction (rest.resolve_left List.not_mem_nil)
        exact later.of_pointer ((gmStep_books stepped).2 isSchedule)

/-- A READY slot is overtaken by no slot twice.  As long as it is READY the
dispatcher finds a program to resume, and resumes this one in its fourth call
at the latest. -/
theorem gmScheduleCalls_fair (slot : GmSlot) (steps : List GmStep)
    (kernel : GmKernel) (stays : StaysReady slot steps kernel) :
    ((gmScheduleCalls steps kernel).takeWhile
        fun call => decide (call ≠ some slot)).Nodup ∧
      none ∉ (gmScheduleCalls steps kernel).takeWhile
        (fun call => decide (call ≠ some slot)) ∧
      (4 ≤ (gmScheduleCalls steps kernel).length →
        some slot ∈ (gmScheduleCalls steps kernel).take 4) := by
  have overtakes := stays.overtakes
  refine ⟨overtakes.once, ?_, ?_⟩
  · intro member
    obtain ⟨other, resumed, _⟩ := overtakes.nearer none member
    cases resumed
  · intro enough
    have few := overtakes.few
    have bound := searchDistance_lt kernel slot
    generalize gmScheduleCalls steps kernel = calls at enough few ⊢
    by_contra missing
    have passed : calls.takeWhile (fun call => decide (call ≠ some slot)) =
        calls.take 4 ++ (calls.drop 4).takeWhile
          fun call => decide (call ≠ some slot) := by
      rw [← List.takeWhile_append_of_pos, List.take_append_drop]
      intro call member
      exact decide_eq_true fun same => missing (same ▸ member)
    rw [passed, List.length_append, List.length_take] at few
    simp only [gmAppMax] at bound
    omega

/-- Four programs that all have been started, two of them already resumed. -/
def crowdedSteps : List GmStep :=
  [ .run (fun _ => some 16) (ascii "a") none,
    .run (fun _ => some 16) (ascii "b") none,
    .run (fun _ => some 16) (ascii "c") none,
    .run (fun _ => some 16) (ascii "d") none,
    .schedule, .timer { cs := 0x23 }, .schedule, .timer { cs := 0x23 } ]

/-- Three preempted turns and a fourth dispatch. -/
def turnSteps : List GmStep :=
  [ .schedule, .timer { cs := 0x23 }, .schedule, .timer { cs := 0x23 },
    .schedule, .timer { cs := 0x23 }, .schedule ]

theorem gmScheduleCalls_fair_fourth :
    ∃ kernel,
      gmRun crowdedSteps (gmProgramsInit 0x1000 fun _ => 0x2000) =
        .ok kernel ∧
      (gmScheduleCalls turnSteps kernel).length = 4 ∧
      some 1 ∈ (gmScheduleCalls turnSteps kernel).take 4 := by
  refine ⟨_, rfl, rfl, ?_⟩
  apply (gmScheduleCalls_fair 1 turnSteps _ ?_).2.2
  · exact Nat.le_refl 4
  · exact ⟨rfl, .inr ⟨rfl, .inr ⟨rfl, .inr ⟨rfl, .inr ⟨rfl, .inr ⟨rfl, .inr
      ⟨rfl, .inl (List.mem_singleton.mpr rfl)⟩⟩⟩⟩⟩⟩⟩

end Gmker.Programs
