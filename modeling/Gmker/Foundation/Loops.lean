import Mathlib.Data.Nat.Notation

/-!
# Loops

A turn of a loop either goes on with new variables or leaves the loop with a
result.  A loop runs on fuel; more fuel than the turns that are left makes no
difference, so the result of a loop is unique, and a measure that every turn
decreases is fuel enough.
-/

namespace Foundation

universe u v

variable {Vars : Type u} {Result : Type v} {turn : Vars → Vars ⊕ Result}

/-- Run a loop for some turns at most. -/
def runLoop (turn : Vars → Vars ⊕ Result) : Nat → Vars → Option Result
  | 0, _ => none
  | fuel + 1, vars =>
    match turn vars with
    | .inl next => runLoop turn fuel next
    | .inr result => some result

/-- A turn that can fail leaves the loop with the error. -/
def leaveOnError {Error : Type v} :
    Except Error (Vars ⊕ Result) → Vars ⊕ Except Error Result
  | .error error => .inr (.error error)
  | .ok (.inl next) => .inl next
  | .ok (.inr result) => .inr (.ok result)

/-- The loop ends with a result. -/
def LoopEnds (turn : Vars → Vars ⊕ Result) (vars : Vars) (result : Result) :
    Prop :=
  ∃ fuel, runLoop turn fuel vars = some result

theorem runLoop_more {fuel : Nat} {vars : Vars} {result : Result}
    (ends : runLoop turn fuel vars = some result) (more : Nat) :
    runLoop turn (fuel + more) vars = some result := by
  induction fuel generalizing vars with
  | zero => cases ends
  | succ fuel induction =>
    rw [Nat.add_right_comm]
    unfold runLoop at ends ⊢
    cases taken : turn vars with
    | inl next =>
      rw [taken] at ends
      exact induction ends
    | inr value =>
      rw [taken] at ends
      exact ends

/-- A loop whose turns do not fail and decrease a measure ends on more fuel than
the measure, with what the turns lead to. -/
theorem runLoop_leaveOnError {Error : Type v}
    {turn : Vars → Except Error (Vars ⊕ Result)} {invariant : Vars → Prop}
    {measure : Vars → Nat} {post : Vars → Result → Prop}
    (turns : ∀ vars, invariant vars →
      (∃ next, turn vars = .ok (.inl next) ∧ invariant next ∧
        measure next < measure vars ∧
        ∀ result, post next result → post vars result) ∨
      ∃ result, turn vars = .ok (.inr result) ∧ post vars result)
    {vars : Vars} (start : invariant vars) {fuel : Nat}
    (enough : measure vars < fuel) :
    ∃ result, runLoop (fun vars => leaveOnError (turn vars)) fuel vars =
        some (.ok result) ∧ post vars result := by
  induction fuel generalizing vars with
  | zero => exact absurd enough (Nat.not_lt_zero _)
  | succ fuel induction =>
    rcases turns vars start with
      ⟨next, taken, kept, less, back⟩ | ⟨result, taken, reached⟩
    · obtain ⟨result, ends, reached⟩ := induction kept (by omega)
      refine ⟨result, ?_, back result reached⟩
      rw [runLoop, taken]
      exact ends
    · refine ⟨result, ?_, reached⟩
      rw [runLoop, taken]
      rfl

namespace LoopEnds

theorem leave {vars : Vars} {result : Result}
    (taken : turn vars = .inr result) : LoopEnds turn vars result :=
  ⟨1, by simp only [runLoop, taken]⟩

theorem again {vars next : Vars} {result : Result}
    (taken : turn vars = .inl next) (rest : LoopEnds turn next result) :
    LoopEnds turn vars result := by
  obtain ⟨fuel, ends⟩ := rest
  exact ⟨fuel + 1, by simp only [runLoop, taken, ends]⟩

end LoopEnds

end Foundation
