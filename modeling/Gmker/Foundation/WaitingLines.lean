import Mathlib.Data.Fintype.Card
import Mathlib.Logic.Function.Basic
import Mathlib.Logic.Relation

/-!
# Exclusive resources as waiting lines

The abstract picture of a lock table with direct handoff: every resource has
one line, the head of the line owns the resource and the rest waits.  Asking
for a resource means joining the back of its line, giving it up means leaving
the front, so ownership passes to the next in line by itself.
-/

namespace Foundation

universe u v

variable {ρ : Type u} {ι : Type v} [DecidableEq ρ]

/-- One waiting line for each resource. -/
abbrev Lines (ρ : Type u) (ι : Type v) := ρ → List ι

namespace Lines

/-- Join the line of a resource at its back. -/
def join (lines : Lines ρ ι) (resource : ρ) (client : ι) : Lines ρ ι :=
  Function.update lines resource (lines resource ++ [client])

/-- The head of a line leaves it. -/
def leave (lines : Lines ρ ι) (resource : ρ) : Lines ρ ι :=
  Function.update lines resource (lines resource).tail

/-- Nobody stands twice in one line or in two lines. -/
structure WellFormed (lines : Lines ρ ι) : Prop where
  nodup : ∀ resource, (lines resource).Nodup
  single : ∀ {client first second}, client ∈ lines first →
    client ∈ lines second → first = second

@[simp] theorem join_self (lines : Lines ρ ι) (resource : ρ) (client : ι) :
    lines.join resource client resource = lines resource ++ [client] := by
  simp [join]

@[simp] theorem join_other (lines : Lines ρ ι) {resource other : ρ}
    (client : ι) (different : other ≠ resource) :
    lines.join resource client other = lines other := by
  simp [join, different]

@[simp] theorem leave_self (lines : Lines ρ ι) (resource : ρ) :
    lines.leave resource resource = (lines resource).tail := by
  simp [leave]

@[simp] theorem leave_other (lines : Lines ρ ι) {resource other : ρ}
    (different : other ≠ resource) :
    lines.leave resource other = lines other := by
  simp [leave, different]

theorem mem_join {lines : Lines ρ ι} {resource other : ρ} {client : ι}
    {member : ι} :
    member ∈ lines.join resource client other ↔
      member ∈ lines other ∨ other = resource ∧ member = client := by
  by_cases same : other = resource
  · subst other
    simp
  · simp [same]

theorem mem_of_mem_leave {lines : Lines ρ ι} {resource other : ρ}
    {member : ι} (left : member ∈ lines.leave resource other) :
    member ∈ lines other := by
  by_cases same : other = resource
  · subst other
    rw [leave_self] at left
    exact List.mem_of_mem_tail left
  · simpa [same] using left

/-- The empty lines. -/
def empty : Lines ρ ι := fun _ => []

omit [DecidableEq ρ] in
theorem wellFormed_empty : WellFormed (empty : Lines ρ ι) := by
  constructor
  · intro resource
    exact List.nodup_nil
  · intro client first second member
    cases member

/-- A newcomer that stands nowhere may join any line. -/
theorem WellFormed.join {lines : Lines ρ ι} (valid : lines.WellFormed)
    (resource : ρ) {client : ι}
    (absent : ∀ other, client ∉ lines other) :
    (lines.join resource client).WellFormed := by
  constructor
  · intro other
    by_cases same : other = resource
    · subst other
      rw [join_self]
      refine List.nodup_append.mpr
        ⟨valid.nodup resource, List.nodup_singleton _, ?_⟩
      intro member inLine last isLast equal
      rw [List.mem_singleton] at isLast
      subst isLast equal
      exact absent resource inLine
    · rw [join_other _ _ same]
      exact valid.nodup other
  · intro member first second inFirst inSecond
    rcases mem_join.mp inFirst with old | ⟨rfl, rfl⟩ <;>
      rcases mem_join.mp inSecond with old' | ⟨rfl, isClient⟩
    · exact valid.single old old'
    · exact absurd old (isClient ▸ absent first)
    · exact absurd old' (absent second)
    · rfl

theorem WellFormed.leave {lines : Lines ρ ι} (valid : lines.WellFormed)
    (resource : ρ) : (lines.leave resource).WellFormed := by
  constructor
  · intro other
    by_cases same : other = resource
    · subst other
      rw [leave_self]
      exact (valid.nodup resource).tail
    · rw [leave_other _ same]
      exact valid.nodup other
  · intro member first second inFirst inSecond
    exact valid.single (mem_of_mem_leave inFirst) (mem_of_mem_leave inSecond)

/-- After leaving, the former owner stands nowhere. -/
theorem WellFormed.not_mem_leave {lines : Lines ρ ι}
    (valid : lines.WellFormed) {resource : ρ} {owner : ι} {rest : List ι}
    (line : lines resource = owner :: rest) (other : ρ) :
    owner ∉ lines.leave resource other := by
  by_cases same : other = resource
  · subst other
    rw [leave_self, line]
    exact (List.nodup_cons.mp (line ▸ valid.nodup resource)).1
  · intro member
    rw [leave_other _ same] at member
    exact same (valid.single member (line ▸ List.mem_cons_self))

omit [DecidableEq ρ] in
theorem WellFormed.length_le [Fintype ι] {lines : Lines ρ ι}
    (valid : lines.WellFormed) (resource : ρ) :
    (lines resource).length ≤ Fintype.card ι :=
  (valid.nodup resource).length_le_card

/-- A client waits for the one who owns what it wants. -/
def WaitsFor (lines : Lines ρ ι) (waiter owner : ι) : Prop :=
  ∃ resource rest, lines resource = owner :: rest ∧ waiter ∈ rest

omit [DecidableEq ρ] in
theorem WellFormed.owner_does_not_wait {lines : Lines ρ ι}
    (valid : lines.WellFormed) {waiter owner other : ι}
    (waits : lines.WaitsFor waiter owner) :
    ¬ lines.WaitsFor owner other := by
  rintro ⟨second, others, otherLine, member⟩
  obtain ⟨first, rest, line, _⟩ := waits
  have sameLine : first = second := by
    have heads : owner ∈ lines first := by
      rw [line]
      exact List.mem_cons_self
    have follows : owner ∈ lines second := by
      rw [otherLine]
      exact List.mem_cons_of_mem _ member
    exact valid.single heads follows
  subst second
  rw [line] at otherLine
  obtain ⟨rfl, rfl⟩ := List.cons.inj otherLine
  exact (List.nodup_cons.mp (line ▸ valid.nodup first)).1 member

omit [DecidableEq ρ] in
/-- No client waits, directly or through others, for itself. -/
theorem WellFormed.no_circular_wait {lines : Lines ρ ι}
    (valid : lines.WellFormed) (client : ι) :
    ¬ Relation.TransGen lines.WaitsFor client client := by
  intro cycle
  obtain ⟨next, first, rest⟩ := Relation.TransGen.head'_iff.mp cycle
  rcases Relation.ReflTransGen.cases_head rest with same | ⟨later, second, _⟩
  · subst next
    exact valid.owner_does_not_wait first first
  · exact valid.owner_does_not_wait first second

end Lines

end Foundation
