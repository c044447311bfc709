import Mathlib.Logic.Relation

/-!
# Machines that are fed while they run

A machine takes deterministic steps on a state that holds its unread input, and
more input can arrive at any time.  If a step and the arrival of input can be
exchanged, up to further steps, then the state in which the machine comes to
rest depends on the whole input only.
-/

namespace Foundation

section Joins

variable {σ : Type*} (step : σ → σ)

/-- The two states have a common later state. -/
def Joins : σ → σ → Prop :=
  Relation.Join (Relation.ReflTransGen fun before after => step before = after)

theorem joins_equivalence : Equivalence (Joins step) := by
  apply Relation.equivalence_join_reflTransGen
  rintro before _ _ rfl rfl
  exact ⟨_, .refl, .refl⟩

variable {step}

theorem Joins.refl (state : σ) : Joins step state state :=
  (joins_equivalence step).refl state

theorem Joins.symm {left right : σ} (join : Joins step left right) :
    Joins step right left :=
  (joins_equivalence step).symm join

theorem Joins.trans {first second third : σ} (left : Joins step first second)
    (right : Joins step second third) : Joins step first third :=
  (joins_equivalence step).trans left right

theorem Joins.once (state : σ) : Joins step state (step state) :=
  ⟨step state, .single rfl, .refl⟩

/-- States that are one step away from the same state. -/
theorem Joins.of_step_eq {left right : σ} (same : step left = step right) :
    Joins step left right :=
  ⟨step right, .single same, .single rfl⟩

/-- A state that every step keeps leads nowhere else. -/
theorem eq_of_rests {state later : σ} (rests : step state = state)
    (run : Relation.ReflTransGen (fun before after => step before = after)
      state later) : later = state := by
  induction run with
  | refl => rfl
  | tail _ last induction => rw [← last, induction, rests]

theorem Joins.eq_of_rest {left right : σ} (join : Joins step left right)
    (leftRests : step left = left) (rightRests : step right = right) :
    left = right := by
  obtain ⟨common, fromLeft, fromRight⟩ := join
  rw [← eq_of_rests leftRests fromLeft, eq_of_rests rightRests fromRight]

end Joins

/-- A machine that may be fed in the middle of its run. -/
structure Feeding (σ α : Type*) where
  step : σ → σ
  feed : σ → List α → σ
  Good : σ → Prop
  step_good : ∀ {state}, Good state → Good (step state)
  feed_good : ∀ {state} (more : List α), Good state → Good (feed state more)
  late : ∀ {state} (more : List α), Good state →
    Joins step (feed state more) (feed (step state) more)

namespace Feeding

variable {σ α : Type*} (machine : Feeding σ α)

theorem run_feeds {state later : σ} (more : List α)
    (good : machine.Good state)
    (run : Relation.ReflTransGen
      (fun before after => machine.step before = after) state later) :
    Joins machine.step (machine.feed state more) (machine.feed later more) := by
  have both : machine.Good later ∧
      Joins machine.step (machine.feed state more)
        (machine.feed later more) := by
    induction run with
    | refl => exact ⟨good, .refl _⟩
    | tail _ last induction =>
      obtain ⟨middleGood, joins⟩ := induction
      rw [← last]
      exact ⟨machine.step_good middleGood,
        joins.trans (machine.late more middleGood)⟩
  exact both.2

/-- Input may arrive early or late. -/
theorem joins_feed {left right : σ} (more : List α)
    (leftGood : machine.Good left) (rightGood : machine.Good right)
    (join : Joins machine.step left right) :
    Joins machine.step (machine.feed left more)
      (machine.feed right more) := by
  obtain ⟨common, fromLeft, fromRight⟩ := join
  exact (machine.run_feeds more leftGood fromLeft).trans
    (machine.run_feeds more rightGood fromRight).symm

end Feeding

end Foundation
