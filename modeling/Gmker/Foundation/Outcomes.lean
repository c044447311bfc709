import Gmker.Foundation.Runs

/-!
# Outcomes of fallible computations

`Gives accepted result property` says that a computation ends in a value with
the property, or fails for a reason that is accepted.  One statement then
carries both what a successful computation establishes and which failures are
possible, and composes along `>>=` and along runs.
-/

namespace Foundation

universe u v w

variable {ε : Type u} {α β : Type v} {σ ι : Type w}

/-- The computation yields a value with the property or fails acceptably. -/
structure Gives (accepted : ε → Prop) (result : Except ε α)
    (property : α → Prop) : Prop where
  of_ok {value : α} (succeeded : result = .ok value) : property value
  of_error {failure : ε} (failed : result = .error failure) : accepted failure

section Rules

variable {accepted : ε → Prop} {result : Except ε α} {property : α → Prop}

theorem gives_ok {value : α} (holds : property value) :
    Gives accepted (.ok value) property where
  of_ok succeeded := by
    cases succeeded
    exact holds
  of_error failed := by cases failed

theorem gives_error {failure : ε} (expected : accepted failure) :
    Gives accepted (.error failure) property where
  of_ok succeeded := by cases succeeded
  of_error failed := by
    cases failed
    exact expected

section

variable (gives : Gives accepted result property)

include gives

/-- If no failure is acceptable the computation succeeds. -/
theorem Gives.succeeds (refused : ∀ failure, ¬ accepted failure) :
    ∃ value, result = .ok value ∧ property value := by
  cases result with
  | error failure => exact absurd (gives.of_error rfl) (refused failure)
  | ok value => exact ⟨value, rfl, gives.of_ok rfl⟩

theorem Gives.bind {next : α → Except ε β} {final : β → Prop}
    (continued : ∀ value, property value → Gives accepted (next value) final) :
    Gives accepted (result >>= next) final := by
  cases result with
  | error failure => exact gives_error (gives.of_error rfl)
  | ok value => exact continued value (gives.of_ok rfl)

end

end Rules

/-- A property of the inputs taken so far that every step gives again is given
by the whole run. -/
theorem runSteps_gives {accepted : ε → Prop} {step : ι → σ → Except ε σ}
    {Holds : List ι → σ → Prop} {all : List ι}
    (kept : ∀ done input rest state, all = done ++ input :: rest →
      Holds done state →
      Gives accepted (step input state) (Holds (done ++ [input])))
    {inputs done : List ι} {state : σ} (split : all = done ++ inputs)
    (initial : Holds done state) :
    Gives accepted (runSteps step inputs state) (Holds all) := by
  induction inputs generalizing done state with
  | nil =>
    rw [List.append_nil] at split
    subst split
    exact gives_ok initial
  | cons input inputs induction =>
    have stepped := kept done input inputs state split initial
    unfold runSteps
    cases taken : step input state with
    | error failure => exact gives_error (stepped.of_error taken)
    | ok next =>
      have later : all = (done ++ [input]) ++ inputs := by
        rw [split, List.append_assoc]
        rfl
      exact induction later (stepped.of_ok taken)

end Foundation
