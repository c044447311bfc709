import Mathlib.Data.Fintype.Card
import Mathlib.Logic.Function.Basic

/-!
# Tables of slots

A table has slots that are free or hold an entry, and an entry has a key.  A new
entry goes to the slot that has its key; without one it goes to a free slot, and
without a free slot another entry makes room.  The keys in such a table stay
distinct, and a full table has as many keys as slots.
-/

namespace Foundation

open Function

variable {Slot Entry Key : Type}

/-- An entry is in the table. -/
def Held (table : Slot → Option Entry) (entry : Entry) : Prop :=
  ∃ slot, table slot = some entry

/-- No two slots have entries with the same key. -/
def KeysDistinct (key : Entry → Key) (table : Slot → Option Entry) : Prop :=
  ∀ left right first second, table left = some first →
    table right = some second → key first = key second → left = right

/-- No entry has the key. -/
def Absent (key : Entry → Key) (table : Slot → Option Entry) (wanted : Key) :
    Prop :=
  ∀ entry, Held table entry → key entry ≠ wanted

/-- Where an entry with a key is written. -/
inductive Chosen (key : Entry → Key) (table : Slot → Option Entry)
    (wanted : Key) (slot : Slot) : Prop where
  | same (old : Entry) (here : table slot = some old) (held : key old = wanted)
  | free (absent : Absent key table wanted) (empty : table slot = none)
  | evicts (absent : Absent key table wanted)
      (full : ∀ other, table other ≠ none)

variable {key : Entry → Key} {table : Slot → Option Entry} {slot : Slot}
  {entry new : Entry}

theorem KeysDistinct.eq_of_held (distinct : KeysDistinct key table)
    {other : Entry} (first : Held table entry) (second : Held table other)
    (same : key entry = key other) : entry = other := by
  obtain ⟨left, here⟩ := first
  obtain ⟨right, there⟩ := second
  obtain rfl := distinct left right entry other here there same
  rw [here] at there
  exact Option.some.inj there

/-- A full table with distinct keys has as many of them as slots. -/
theorem KeysDistinct.card_le [Fintype Slot]
    (distinct : KeysDistinct key table) (full : ∀ other, table other ≠ none)
    (keys : Finset Key)
    (known : ∀ entry, Held table entry → key entry ∈ keys) :
    Fintype.card Slot ≤ keys.card := by
  choose content filled using fun other =>
    Option.ne_none_iff_exists'.mp (full other)
  rw [← Finset.card_univ]
  apply Finset.card_le_card_of_injOn fun other => key (content other)
  · intro other _
    exact known (content other) ⟨other, filled other⟩
  · intro left _ right _ same
    exact distinct left right _ _ (filled left) (filled right) same

variable {wanted : Key}

theorem Chosen.elsewhere (distinct : KeysDistinct key table)
    (chosen : Chosen key table wanted slot) {other : Slot}
    (away : other ≠ slot) (found : table other = some entry) :
    key entry ≠ wanted := by
  intro held
  cases chosen with
  | same old here same =>
    exact away (distinct other slot entry old found here
      (held.trans same.symm))
  | free absent empty => exact absent entry ⟨other, found⟩ held
  | evicts absent full => exact absent entry ⟨other, found⟩ held

section Write

variable [DecidableEq Slot]

theorem held_update :
    Held (update table slot (some new)) entry ↔
      entry = new ∨ ∃ other, other ≠ slot ∧ table other = some entry := by
  constructor
  · rintro ⟨other, found⟩
    by_cases here : other = slot
    · rw [here, update_self] at found
      exact .inl (Option.some.inj found).symm
    · rw [update_of_ne here] at found
      exact .inr ⟨other, here, found⟩
  · rintro (rfl | ⟨other, elsewhere, found⟩)
    · exact ⟨slot, update_self _ _ _⟩
    · exact ⟨other, by rw [update_of_ne elsewhere, found]⟩

theorem Chosen.distinct (distinct : KeysDistinct key table)
    (chosen : Chosen key table (key new) slot) :
    KeysDistinct key (update table slot (some new)) := by
  intro left right first second here there same
  by_cases leftHere : left = slot
  · by_cases rightHere : right = slot
    · rw [leftHere, rightHere]
    · rw [leftHere, update_self] at here
      rw [update_of_ne rightHere] at there
      obtain rfl := Option.some.inj here
      exact absurd same.symm (chosen.elsewhere distinct rightHere there)
  · rw [update_of_ne leftHere] at here
    by_cases rightHere : right = slot
    · rw [rightHere, update_self] at there
      obtain rfl := Option.some.inj there
      exact absurd same (chosen.elsewhere distinct leftHere here)
    · rw [update_of_ne rightHere] at there
      exact distinct left right first second here there same

theorem Chosen.held_before (other : key entry ≠ key new)
    (after : Held (update table slot (some new)) entry) :
    Held table entry := by
  rcases held_update.mp after with rfl | ⟨elsewhere, _, found⟩
  · exact absurd rfl other
  · exact ⟨elsewhere, found⟩

/-- Writing loses at most the entry of the slot. -/
theorem Held.survives (held : Held table entry)
    (away : table slot ≠ some entry) :
    Held (update table slot (some new)) entry := by
  obtain ⟨other, found⟩ := held
  apply held_update.mpr
  refine .inr ⟨other, ?_, found⟩
  rintro rfl
  exact away found

/-- Writing loses nothing when there is a free slot, or when the table has the
key. -/
theorem Chosen.spares (chosen : Chosen key table wanted slot)
    (spare : (∃ free, table free = none) ∨ ¬Absent key table wanted)
    (held : Held table entry) (other : key entry ≠ wanted) :
    Held (update table slot (some new)) entry := by
  apply held.survives
  intro here
  cases chosen with
  | same old there same =>
    rw [here] at there
    obtain rfl := Option.some.inj there
    exact other same
  | free absent empty =>
    rw [here] at empty
    cases empty
  | evicts absent full =>
    rcases spare with ⟨free, empty⟩ | present
    · exact full free empty
    · exact present absent

end Write

end Foundation
