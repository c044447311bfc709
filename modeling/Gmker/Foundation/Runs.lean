/-!
# Runs of fallible step functions

A machine is a step function that either fails or yields the next state.  The
lemmas below package the induction over a whole run once, so that every safety
result only has to argue about a single step.
-/

namespace Foundation

universe u v w

variable {σ : Type u} {ε : Type v} {ι : Type w}

/-- Feed a list of inputs to a fallible step function, left to right. -/
def runSteps (step : ι → σ → Except ε σ) : List ι → σ → Except ε σ
  | [], state => .ok state
  | input :: inputs, state =>
    match step input state with
    | .error failure => .error failure
    | .ok next => runSteps step inputs next

theorem map_ok {α : Type u} {β : Type w} {outcome : Except ε α} {f : α → β}
    {value : β} (mapped : outcome.map f = .ok value) :
    ∃ result, outcome = .ok result ∧ f result = value := by
  cases outcome with
  | error failure => cases mapped
  | ok result => exact ⟨result, rfl, Except.ok.inj mapped⟩

theorem runSteps_cons_ok
    {step : ι → σ → Except ε σ} {input : ι} {inputs : List ι}
    {state next : σ} (stepped : step input state = .ok next) :
    runSteps step (input :: inputs) state = runSteps step inputs next := by
  simp [runSteps, stepped]

theorem runSteps_append (step : ι → σ → Except ε σ) (first second : List ι)
    (state : σ) :
    runSteps step (first ++ second) state =
      (runSteps step first state).bind (runSteps step second) := by
  induction first generalizing state with
  | nil => rfl
  | cons input first induction =>
    rw [List.cons_append]
    unfold runSteps
    cases step input state with
    | error failure => rfl
    | ok next => exact induction next

/-- A property that every step establishes again, without failing, holds at
the end of every run. -/
theorem runSteps_invariant
    {step : ι → σ → Except ε σ} {Holds : σ → Prop}
    (preserved : ∀ input state, Holds state →
      ∃ next, step input state = .ok next ∧ Holds next)
    (inputs : List ι) (state : σ) (initial : Holds state) :
    ∃ final, runSteps step inputs state = .ok final ∧ Holds final := by
  induction inputs generalizing state with
  | nil => exact ⟨state, rfl, initial⟩
  | cons input inputs induction =>
    obtain ⟨next, stepped, holds⟩ := preserved input state initial
    obtain ⟨final, reached, finalHolds⟩ := induction next holds
    refine ⟨final, ?_, finalHolds⟩
    rw [runSteps_cons_ok stepped]
    exact reached

/-- A property that every successful step keeps holds at the end of every
successful run. -/
theorem runSteps_keeps
    {step : ι → σ → Except ε σ} {Holds : σ → Prop}
    (kept : ∀ input state next, Holds state → step input state = .ok next →
      Holds next)
    {inputs : List ι} {state final : σ} (initial : Holds state)
    (ran : runSteps step inputs state = .ok final) : Holds final := by
  induction inputs generalizing state with
  | nil =>
    cases ran
    exact initial
  | cons input inputs induction =>
    unfold runSteps at ran
    split at ran
    · cases ran
    · rename_i next stepped
      exact induction (kept input state next initial stepped) ran

/-- A property of the inputs taken so far and the state that every successful
step keeps. -/
theorem runSteps_along
    {step : ι → σ → Except ε σ} {Holds : List ι → σ → Prop}
    (kept : ∀ done input state next, Holds done state →
      step input state = .ok next → Holds (done ++ [input]) next)
    {inputs done : List ι} {state final : σ} (initial : Holds done state)
    (ran : runSteps step inputs state = .ok final) :
    Holds (done ++ inputs) final := by
  induction inputs generalizing done state with
  | nil =>
    cases ran
    rw [List.append_nil]
    exact initial
  | cons input inputs induction =>
    unfold runSteps at ran
    split at ran
    · cases ran
    · rename_i next stepped
      have later := induction (kept done input state next initial stepped) ran
      rw [List.append_assoc] at later
      exact later

/-- A run fails only as one of its steps does. -/
theorem runSteps_ne_error
    {step : ι → σ → Except ε σ} {failure : ε}
    (never : ∀ input state, step input state ≠ .error failure)
    (inputs : List ι) (state : σ) :
    runSteps step inputs state ≠ .error failure := by
  induction inputs generalizing state with
  | nil =>
    intro failed
    cases failed
  | cons input inputs induction =>
    unfold runSteps
    split
    · rename_i other stepped
      intro failed
      cases failed
      exact never input state stepped
    · rename_i next _
      exact induction next

/-! ## Machines that answer -/

section Answers

variable {ο : Type v} {τ : Type w}

/-- Feed a list of inputs to a machine that answers each of them. -/
def transcript (step : ι → σ → ο × σ) : List ι → σ → List ο × σ
  | [], state => ([], state)
  | input :: inputs, state =>
    let rest := transcript step inputs (step input state).2
    ((step input state).1 :: rest.1, rest.2)

/-- A machine that refines another one step by step gives the same answers. -/
theorem transcript_refines {step : ι → σ → ο × σ} {spec : ι → τ → ο × τ}
    {view : σ → τ} {Holds : σ → Prop}
    (refined : ∀ input state, Holds state → Holds (step input state).2 ∧
      spec input (view state) =
        ((step input state).1, view (step input state).2))
    (inputs : List ι) (state : σ) (initial : Holds state) :
    Holds (transcript step inputs state).2 ∧
      transcript spec inputs (view state) =
        ((transcript step inputs state).1,
          view (transcript step inputs state).2) := by
  induction inputs generalizing state with
  | nil => exact ⟨initial, rfl⟩
  | cons input inputs induction =>
    obtain ⟨holds, same⟩ := refined input state initial
    obtain ⟨final, rest⟩ := induction (step input state).2 holds
    refine ⟨final, ?_⟩
    rw [transcript, same, rest]
    rfl

end Answers

end Foundation
