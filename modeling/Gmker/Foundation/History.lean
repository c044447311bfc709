import Mathlib.Data.List.Basic

/-!
# Histories of events

A machine appends what happens to a history.  `EachTime` states a property of
every event together with what came before and after it; `Loans` reads two
kinds of events as lending a thing out and taking it back.
-/

namespace Foundation

universe u v

variable {ε : Type u} {α : Type v}

/-- Every event of the history, with its past and its future, satisfies the
property. -/
def EachTime (Holds : List ε → ε → List ε → Prop) (history : List ε) : Prop :=
  ∀ past event future, history = past ++ event :: future →
    Holds past event future

namespace EachTime

variable {Holds : List ε → ε → List ε → Prop}

theorem nil : EachTime Holds [] := by
  intro past event future split
  simp at split

/-- A longer history: the old events see a longer future. -/
theorem append {history events : List ε} (old : EachTime Holds history)
    (prolong : ∀ past event future, Holds past event future →
      Holds past event (future ++ events))
    (new : ∀ past event future, events = past ++ event :: future →
      Holds (history ++ past) event future) :
    EachTime Holds (history ++ events) := by
  intro past event future split
  rcases List.append_eq_append_iff.mp split with
    ⟨middle, rfl, right⟩ | ⟨middle, left, right⟩
  · exact new middle event future right
  · cases middle with
    | nil =>
      rw [List.append_nil] at left
      subst left
      have holds := new [] event future (by simpa using right.symm)
      simpa using holds
    | cons first rest =>
      obtain ⟨rfl, rfl⟩ := List.cons.inj right
      exact prolong past event rest (old past event rest left)

/-- One more event, when the future does not matter. -/
theorem snoc {Seen : List ε → ε → Prop} {history : List ε} {event : ε}
    (old : EachTime (fun past event _ => Seen past event) history)
    (new : Seen history event) :
    EachTime (fun past event _ => Seen past event) (history ++ [event]) := by
  refine old.append (fun _ _ _ holds => holds) ?_
  intro past last future split
  cases past with
  | nil =>
    obtain ⟨rfl, _⟩ := List.cons.inj split
    simpa using new
  | cons first rest =>
    have impossible := (List.cons.inj split).2
    simp at impossible

/-- What holds of a history holds of its beginning, when the future does not
matter. -/
theorem of_append {Seen : List ε → ε → Prop} {history events : List ε}
    (whole : EachTime (fun past event _ => Seen past event)
      (history ++ events)) :
    EachTime (fun past event _ => Seen past event) history := by
  rintro past event future rfl
  exact whole past event (future ++ events) (by simp)

/-- Position by position, when the future does not matter. -/
theorem iff_position {Seen : List ε → ε → Prop} {history : List ε} :
    EachTime (fun past event _ => Seen past event) history ↔
      ∀ position : Fin history.length,
        Seen (history.take position) (history.get position) := by
  constructor
  · intro whole position
    apply whole _ _ (history.drop (position + 1))
    rw [List.get_eq_getElem, List.getElem_cons_drop, List.take_append_drop]
  · rintro positions past event future rfl
    have seen := positions ⟨past.length, by simp⟩
    simpa using seen

instance {Seen : List ε → ε → Prop}
    [∀ past event, Decidable (Seen past event)] (history : List ε) :
    Decidable (EachTime (fun past event _ => Seen past event) history) :=
  decidable_of_iff _ iff_position.symm

theorem last {Seen : List ε → ε → Prop} {history : List ε} {event : ε}
    (whole : EachTime (fun past event _ => Seen past event)
      (history ++ [event])) : Seen history event :=
  whole history event [] rfl

end EachTime

/-! ## Loans -/

/-- Which events lend a thing out and which take one back. -/
structure Loans (ε : Type u) (α : Type v) where
  lends : ε → Option α
  returns : ε → Option α

namespace Loans

variable [DecidableEq α] (loans : Loans ε α)

/-- How often a thing was lent out. -/
def lent (history : List ε) (thing : α) : Nat :=
  (history.filterMap loans.lends).count thing

/-- How often a thing was taken back. -/
def taken (history : List ε) (thing : α) : Nat :=
  (history.filterMap loans.returns).count thing

/-- The thing is out: lent once more than taken back. -/
def Out (history : List ε) (thing : α) : Prop :=
  loans.lent history thing = loans.taken history thing + 1

/-- The thing is at home: taken back as often as lent. -/
def Home (history : List ε) (thing : α) : Prop :=
  loans.lent history thing = loans.taken history thing

instance (history : List ε) (thing : α) :
    Decidable (loans.Out history thing) :=
  inferInstanceAs (Decidable (_ = _))

instance (history : List ε) (thing : α) :
    Decidable (loans.Home history thing) :=
  inferInstanceAs (Decidable (_ = _))

/-- The history agrees with a table of what is out. -/
def Tracks (out : α → Prop) (history : List ε) : Prop :=
  ∀ thing, (out thing → loans.Out history thing) ∧
    (¬ out thing → loans.Home history thing)

/-- Events the loans do not look at. -/
def Ignores (event : ε) : Prop :=
  loans.lends event = none ∧ loans.returns event = none

variable {loans} {history events : List ε} {event : ε} {thing other : α}

theorem Out.not_home (out : loans.Out history thing) :
    ¬ loans.Home history thing := by
  unfold Out at out
  unfold Home
  omega

theorem Tracks.out_iff {out : α → Prop} (tracks : loans.Tracks out history)
    (thing : α) : out thing ↔ loans.Out history thing := by
  refine ⟨(tracks thing).1, ?_⟩
  intro isOut
  by_contra notOut
  exact isOut.not_home ((tracks thing).2 notOut)

theorem Tracks.home_iff {out : α → Prop} (tracks : loans.Tracks out history)
    (thing : α) : ¬ out thing ↔ loans.Home history thing := by
  refine ⟨(tracks thing).2, ?_⟩
  intro isHome isOut
  exact ((tracks thing).1 isOut).not_home isHome

theorem lent_append : loans.lent (history ++ events) thing =
    loans.lent history thing + loans.lent events thing := by
  simp [lent]

theorem taken_append : loans.taken (history ++ events) thing =
    loans.taken history thing + loans.taken events thing := by
  simp [taken]

section

variable (ignored : ∀ event ∈ events, loans.Ignores event)

include ignored

theorem lent_of_ignored : loans.lent events thing = 0 := by
  have empty : events.filterMap loans.lends = [] :=
    List.filterMap_eq_nil_iff.mpr fun event member => (ignored event member).1
  rw [lent, empty, List.count_nil]

theorem taken_of_ignored : loans.taken events thing = 0 := by
  have empty : events.filterMap loans.returns = [] :=
    List.filterMap_eq_nil_iff.mpr fun event member => (ignored event member).2
  rw [taken, empty, List.count_nil]

theorem out_append_ignored :
    loans.Out (history ++ events) thing ↔ loans.Out history thing := by
  rw [Out, Out, lent_append, taken_append, lent_of_ignored ignored,
    taken_of_ignored ignored, Nat.add_zero, Nat.add_zero]

theorem home_append_ignored :
    loans.Home (history ++ events) thing ↔ loans.Home history thing := by
  rw [Home, Home, lent_append, taken_append, lent_of_ignored ignored,
    taken_of_ignored ignored, Nat.add_zero, Nat.add_zero]

end

theorem Tracks.append_ignored {out : α → Prop}
    (tracks : loans.Tracks out history)
    (ignored : ∀ event ∈ events, loans.Ignores event) :
    loans.Tracks out (history ++ events) := by
  intro thing
  rw [out_append_ignored ignored, home_append_ignored ignored]
  exact tracks thing

theorem lent_snoc_lend (lends : loans.lends event = some other) :
    loans.lent (history ++ [event]) thing =
      loans.lent history thing + if other = thing then 1 else 0 := by
  simp [lent, lends, List.count_singleton]

theorem taken_snoc_return (returns : loans.returns event = some other) :
    loans.taken (history ++ [event]) thing =
      loans.taken history thing + if other = thing then 1 else 0 := by
  simp [taken, returns, List.count_singleton]

theorem lent_snoc_none (lends : loans.lends event = none) :
    loans.lent (history ++ [event]) thing = loans.lent history thing := by
  simp [lent, lends]

theorem taken_snoc_none (returns : loans.returns event = none) :
    loans.taken (history ++ [event]) thing = loans.taken history thing := by
  simp [taken, returns]

/-- Lending out a thing that is at home. -/
theorem Tracks.lend {before after : α → Prop}
    (tracks : loans.Tracks before history)
    (lends : loans.lends event = some thing)
    (returns : loans.returns event = none) (home : ¬ before thing)
    (now : after thing)
    (others : ∀ other, other ≠ thing → (after other ↔ before other)) :
    loans.Tracks after (history ++ [event]) := by
  intro other
  unfold Out Home
  rw [lent_snoc_lend lends, taken_snoc_none returns]
  by_cases same : other = thing
  · subst same
    have wasHome := (tracks other).2 home
    unfold Home at wasHome
    simp [now, wasHome]
  · rw [if_neg (Ne.symm same), Nat.add_zero, others other same]
    exact tracks other

theorem Tracks.giveBack {before after : α → Prop}
    (tracks : loans.Tracks before history)
    (lends : loans.lends event = none)
    (returns : loans.returns event = some thing) (out : before thing)
    (now : ¬ after thing)
    (others : ∀ other, other ≠ thing → (after other ↔ before other)) :
    loans.Tracks after (history ++ [event]) := by
  intro other
  unfold Out Home
  rw [lent_snoc_none lends, taken_snoc_return returns]
  by_cases same : other = thing
  · subst same
    have wasOut := (tracks other).1 out
    unfold Out at wasOut
    simp [now, wasOut]
  · rw [if_neg (Ne.symm same), Nat.add_zero, others other same]
    exact tracks other

end Loans

end Foundation
