import Mathlib.Data.List.Basic

/-!
# Byte areas

Blocks of memory with a fixed number of bytes.  Bytes are copied into an area
only if they stay inside it.
-/

namespace Foundation

/-- A block of memory. -/
abbrev Area (size : Nat) := Fin size → UInt8

namespace Area

variable {offset : Nat}

variable {size : Nat}

/-- An area of zeros. -/
def zero (size : Nat) : Area size := fun _ => 0

/-- Copy bytes into an area, or fail if they would not stay inside. -/
def store (area : Area size) (offset : Nat) (data : List UInt8) :
    Option (Area size) :=
  if offset + data.length ≤ size then
    some fun place =>
      if offset ≤ place.val then data.getD (place.val - offset) (area place)
      else area place
  else none

/-- The first bytes of an area. -/
def first (area : Area size) (count : Nat) : List UInt8 :=
  (List.range count).map fun place =>
    if inside : place < size then area ⟨place, inside⟩ else 0

theorem store_isSome (area : Area size) {data : List UInt8}
    (fits : offset + data.length ≤ size) :
    ∃ after, area.store offset data = some after :=
  ⟨_, if_pos fits⟩

section Stored

variable {area after : Area size} {offset : Nat} {data : List UInt8}
  (stored : area.store offset data = some after)
include stored

theorem store_eq (place : Fin size) :
    after place =
      if offset ≤ place.val then data.getD (place.val - offset) (area place)
      else area place := by
  unfold store at stored
  split at stored
  · cases stored
    rfl
  · cases stored

/-- What was copied is there. -/
theorem store_inside (index : Nat) {byte : UInt8}
    (there : data[index]? = some byte) {place : Fin size}
    (same : place.val = offset + index) : after place = byte := by
  rw [store_eq stored place, if_pos (by omega), same, Nat.add_sub_cancel_left,
    List.getD_eq_getElem?_getD, there]
  rfl

theorem store_outside {place : Fin size}
    (outside : place.val < offset ∨ offset + data.length ≤ place.val) :
    after place = area place := by
  rw [store_eq stored place]
  split
  · rw [List.getD_eq_getElem?_getD, List.getElem?_eq_none (by omega)]
    rfl
  · rfl

end Stored

theorem store_nil (area : Area size) (fits : offset ≤ size) :
    area.store offset [] = some area := by
  obtain ⟨after, stored⟩ : ∃ after, area.store offset [] = some after :=
    area.store_isSome fits
  rw [stored, Option.some_inj]
  funext place
  apply store_outside stored
  rw [List.length_nil]
  omega

/-- Two pieces are copied one behind the other. -/
theorem store_append {area middle after : Area size} {left right : List UInt8}
    (leftStored : area.store offset left = some middle)
    (rightStored : middle.store (offset + left.length) right = some after) :
    area.store offset (left ++ right) = some after := by
  have fits : offset + left.length + right.length ≤ size := by
    unfold store at rightStored
    split at rightStored
    · assumption
    · cases rightStored
  obtain ⟨whole, stored⟩ := area.store_isSome
    (show offset + (left ++ right).length ≤ size by
      rw [List.length_append]
      omega)
  rw [stored, Option.some_inj]
  funext place
  rcases Nat.lt_or_ge place.val offset with before | behind
  · rw [store_outside stored (.inl before),
      store_outside rightStored (.inl (by omega)),
      store_outside leftStored (.inl before)]
  rcases Nat.lt_or_ge place.val (offset + left.length) with inLeft | later
  · have there : left[place.val - offset]? = some left[place.val - offset] :=
      List.getElem?_eq_getElem (by omega)
    have both : (left ++ right)[place.val - offset]? =
        some left[place.val - offset] := by
      rw [List.getElem?_append_left (by omega), there]
    rw [store_inside stored _ both (by omega),
      store_outside rightStored (.inl inLeft),
      store_inside leftStored _ there (by omega)]
  rcases Nat.lt_or_ge place.val (offset + left.length + right.length) with
    inRight | beyond
  · have there : right[place.val - offset - left.length]? =
        some right[place.val - offset - left.length] :=
      List.getElem?_eq_getElem (by omega)
    have both : (left ++ right)[place.val - offset]? =
        some right[place.val - offset - left.length] := by
      rw [List.getElem?_append_right (by omega), there]
    rw [store_inside stored _ both (by omega),
      store_inside rightStored _ there (by omega)]
  · rw [store_outside stored (.inr (by rw [List.length_append]; omega)),
      store_outside rightStored (.inr beyond),
      store_outside leftStored (.inr later)]

/-- An area that is zero behind its first bytes holds nothing else. -/
theorem store_first (area : Area size) {count : Nat} (fits : count ≤ size)
    (rest : ∀ place : Fin size, count ≤ place.val → area place = 0) :
    (zero size).store 0 (area.first count) = some area := by
  have length : (area.first count).length = count := by simp [first]
  obtain ⟨after, stored⟩ := (zero size).store_isSome
    (show 0 + (area.first count).length ≤ size by omega)
  rw [stored, Option.some_inj]
  funext place
  rcases Nat.lt_or_ge place.val count with within | behind
  · refine store_inside stored place.val ?_ (by omega)
    simp [first, within]
  · rw [store_outside stored (.inr (by omega)), rest place behind]
    rfl

end Area

end Foundation
