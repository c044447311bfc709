import Mathlib.Data.Nat.ModEq
import Mathlib.Logic.Function.Basic

/-!
# Circular buffers as queues

A circular buffer is an array, a head index and a length.  `ringContents`
reads it back as a list, oldest element first.  The lemmas say how the usual
array updates (store one element at the tail, copy a block at the tail,
advance the head) act on that list.
-/

namespace Foundation

universe u

variable {capacity : Nat}

variable {α : Type u} (cells : Nat → α)

/-- The elements of a circular buffer, oldest first. -/
def ringContents (capacity : Nat) (cells : Nat → α) (head len : Nat) : List α :=
  (List.range len).map fun offset => cells ((head + offset) % capacity)

@[simp] theorem ringContents_length (capacity : Nat) (cells : Nat → α)
    (head len : Nat) : (ringContents capacity cells head len).length = len := by
  simp [ringContents]

@[simp] theorem ringContents_zero (capacity : Nat) (cells : Nat → α)
    (head : Nat) : ringContents capacity cells head 0 = [] := rfl

theorem ringContents_eq_nil {cells : Nat → α} {head len : Nat} :
    ringContents capacity cells head len = [] ↔ len = 0 := by
  rw [← List.length_eq_zero_iff, ringContents_length]

theorem ringIndex_ne {capacity head near far : Nat}
    (apart : near < far) (fits : far < near + capacity) :
    (head + near) % capacity ≠ (head + far) % capacity := by
  intro same
  have cancelled : near ≡ far [MOD capacity] := Nat.ModEq.add_left_cancel' head same
  have divides : capacity ∣ far - near :=
    (Nat.modEq_iff_dvd' apart.le).mp cancelled
  have wraps : capacity ≤ far - near := Nat.le_of_dvd (by omega) divides
  omega

/-- Cells outside the occupied part do not matter. -/
theorem ringContents_congr {cells other : Nat → α} {head len : Nat}
    (agree : ∀ offset, offset < len →
      cells ((head + offset) % capacity) = other ((head + offset) % capacity)) :
    ringContents capacity cells head len =
      ringContents capacity other head len := by
  apply List.map_congr_left
  intro offset member
  exact agree offset (List.mem_range.mp member)

theorem ringContents_head {head other : Nat}
    (same : head % capacity = other % capacity) (len : Nat) :
    ringContents capacity cells head len =
      ringContents capacity cells other len := by
  apply List.map_congr_left
  intro offset _
  rw [Nat.add_mod, same, ← Nat.add_mod]

theorem ringContents_add (capacity : Nat) (cells : Nat → α)
    (head first rest : Nat) :
    ringContents capacity cells head (first + rest) =
      ringContents capacity cells head first ++
        ringContents capacity cells ((head + first) % capacity) rest := by
  simp only [ringContents, List.range_add, List.map_append, List.map_map]
  congr 1
  apply List.map_congr_left
  intro offset _
  simp [Nat.add_assoc]

theorem ringContents_succ (capacity : Nat) (cells : Nat → α)
    (head len : Nat) :
    ringContents capacity cells head (len + 1) =
      cells (head % capacity) ::
        ringContents capacity cells ((head + 1) % capacity) len := by
  rw [Nat.add_comm len 1, ringContents_add]
  simp [ringContents]

theorem ringContents_push (capacity : Nat) (cells : Nat → α)
    (head len : Nat) (value : α) (room : len < capacity) :
    ringContents capacity
        (Function.update cells ((head + len) % capacity) value) head (len + 1) =
      ringContents capacity cells head len ++ [value] := by
  rw [ringContents_add]
  congr 1
  · apply ringContents_congr
    intro offset below
    rw [Function.update_of_ne (ringIndex_ne below (by omega))]
  · simp [ringContents]

/-! ## Blocks -/

/-- Copy a block into an array. -/
def writeBlock (cells : Nat → α) (position : Nat) (block : List α) : Nat → α :=
  fun index =>
    if position ≤ index then (block[index - position]?).getD (cells index)
    else cells index

theorem writeBlock_inside (position : Nat) {block : List α} {offset : Nat}
    (inside : offset < block.length) :
    writeBlock cells position block (position + offset) = block[offset] := by
  simp [writeBlock, inside]

theorem writeBlock_outside {position index : Nat} {block : List α}
    (outside : index < position ∨ position + block.length ≤ index) :
    writeBlock cells position block index = cells index := by
  unfold writeBlock
  split
  · rename_i reached
    have missing : block[index - position]? = none := by
      apply List.getElem?_eq_none
      omega
    rw [missing, Option.getD_none]
  · rfl

/-- Copy a block into a circular array in at most two pieces. -/
def wrapBlock (capacity : Nat) (cells : Nat → α) (tail : Nat)
    (block : List α) : Nat → α :=
  let first := min block.length (capacity - tail)
  writeBlock (writeBlock cells tail (block.take first)) 0 (block.drop first)

theorem wrapBlock_hit {tail : Nat} {block : List α} (valid : tail < capacity)
    (room : block.length ≤ capacity) {offset : Nat}
    (inside : offset < block.length) :
    wrapBlock capacity cells tail block ((tail + offset) % capacity) =
      block[offset] := by
  unfold wrapBlock
  by_cases early : tail + offset < capacity
  · -- the cell lies before the seam, behind everything the second piece wrote
    rw [Nat.mod_eq_of_lt early, writeBlock_outside]
    · rw [writeBlock_inside _ _ (by simp; omega), List.getElem_take]
    · right
      simp only [List.length_drop]
      omega
  · have wrapped : (tail + offset) % capacity = 0 + (tail + offset - capacity) := by
      rw [Nat.zero_add, Nat.mod_eq_sub_mod (by omega), Nat.mod_eq_of_lt]
      omega
    rw [wrapped, writeBlock_inside _ _ (by simp; omega), List.getElem_drop]
    congr 1
    omega

theorem wrapBlock_miss {tail : Nat} {block : List α} (valid : tail < capacity)
    (room : block.length ≤ capacity) {index : Nat}
    (missed : ∀ offset, offset < block.length →
      (tail + offset) % capacity ≠ index) :
    wrapBlock capacity cells tail block index = cells index := by
  unfold wrapBlock
  rw [writeBlock_outside, writeBlock_outside]
  · by_contra within
    simp only [not_or, Nat.not_lt, Nat.not_le, List.length_take] at within
    apply missed (index - tail) (by omega)
    rw [Nat.mod_eq_of_lt (by omega)]
    omega
  · by_contra within
    simp only [not_or, Nat.not_lt, Nat.not_le, List.length_drop] at within
    apply missed (capacity - tail + index) (by omega)
    have seam : tail + (capacity - tail + index) = index + capacity := by omega
    rw [seam, Nat.add_mod_right, Nat.mod_eq_of_lt]
    omega

/-- Copying a block at the tail appends it. -/
theorem ringContents_wrapBlock (head len : Nat) (block : List α)
    (positive : 0 < capacity) (room : len + block.length ≤ capacity) :
    ringContents capacity
        (wrapBlock capacity cells ((head + len) % capacity) block) head
        (len + block.length) =
      ringContents capacity cells head len ++ block := by
  have valid := Nat.mod_lt (head + len) positive
  rw [ringContents_add]
  congr 1
  · apply ringContents_congr
    intro offset below
    apply wrapBlock_miss cells valid (by omega)
    intro later inside same
    rw [Nat.mod_add_mod, Nat.add_assoc] at same
    exact ringIndex_ne (by omega) (by omega) same.symm
  · apply List.ext_getElem
    · simp
    · intro offset inside inBlock
      simp only [ringContents, List.getElem_map, List.getElem_range]
      exact wrapBlock_hit cells valid (by omega) inBlock

/-- Reading a circular array in at most two pieces. -/
theorem ringContents_pieces {head count : Nat} (valid : head < capacity)
    (room : count ≤ capacity) :
    (List.range (min count (capacity - head))).map
          (fun offset => cells (head + offset)) ++
        (List.range (count - min count (capacity - head))).map cells =
      ringContents capacity cells head count := by
  have split : ringContents capacity cells head count =
      ringContents capacity cells head
        (min count (capacity - head) +
          (count - min count (capacity - head))) := by
    congr 1
    omega
  rw [split, ringContents_add]
  congr 1
  · apply List.map_congr_left
    intro offset member
    have below := List.mem_range.mp member
    rw [Nat.mod_eq_of_lt (by omega)]
  · apply List.map_congr_left
    intro offset member
    have below := List.mem_range.mp member
    have seam : head + min count (capacity - head) = capacity := by omega
    rw [seam, Nat.mod_self, Nat.zero_add, Nat.mod_eq_of_lt (by omega)]

end Foundation
