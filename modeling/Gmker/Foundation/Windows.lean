import Mathlib.Data.Nat.Notation

/-!
# Checked accesses

Code that reads a buffer through a window gets a byte only if its index lies
below the limit of the window, which lies inside the buffer; anything else is a
fault.  Copies into a buffer of some size and subtractions of lengths are
checked in the same way.  An area of a window that fits is read without fault,
field by field and block by block.
-/

namespace Foundation

/-- What a checked access finds wrong. -/
inductive Fault where
  | read (index : Nat)
  | write (index : Nat)
  | underflow (left right : Nat)
  deriving DecidableEq, Repr

/-- A buffer that is read below a limit. -/
structure Window where
  bytes : List UInt8
  limit : Nat
  inside : limit ≤ bytes.length

namespace Window

variable {start len index count : Nat}

/-- All of a buffer. -/
def whole (bytes : List UInt8) : Window :=
  ⟨bytes, bytes.length, Nat.le_refl bytes.length⟩

theorem narrow_inside {window : Window} {limit : Nat}
    (less : limit ≤ window.limit) : limit ≤ window.bytes.length :=
  Nat.le_trans less window.inside

/-- The window with a smaller limit. -/
def narrow (window : Window) (limit : Nat) : Except Fault Window :=
  if less : limit ≤ window.limit then
    .ok ⟨window.bytes, limit, narrow_inside less⟩
  else .error (.read limit)

def read (window : Window) (index : Nat) : Except Fault UInt8 :=
  if index < window.limit then .ok (window.bytes.getD index 0)
  else .error (.read index)

theorem write_inside {window : Window} (index : Nat) (byte : UInt8) :
    window.limit ≤ (window.bytes.set index byte).length := by
  rw [List.length_set]
  exact window.inside

def write (window : Window) (index : Nat) (byte : UInt8) :
    Except Fault Window :=
  if index < window.limit then
    .ok ⟨window.bytes.set index byte, window.limit, write_inside index byte⟩
  else .error (.write index)

/-- Some bytes one after the other. -/
def readBlock (window : Window) : Nat → Nat → Except Fault (List UInt8)
  | _, 0 => .ok []
  | index, count + 1 =>
    match window.read index with
    | .error fault => .error fault
    | .ok byte =>
      match window.readBlock (index + 1) count with
      | .error fault => .error fault
      | .ok rest => .ok (byte :: rest)

/-- An area of the buffer. -/
def area (window : Window) (start len : Nat) : List UInt8 :=
  (window.bytes.drop start).take len

variable {window : Window}

theorem area_length (fits : start + len ≤ window.limit) :
    (window.area start len).length = len := by
  have inside := window.inside
  rw [area, List.length_take, List.length_drop]
  omega

theorem read_area (fits : start + len ≤ window.limit) (below : index < len) :
    window.read (start + index) =
      .ok ((window.area start len).getD index 0) := by
  have value : (window.area start len).getD index 0 =
      window.bytes.getD (start + index) 0 := by
    rw [area, List.getD_eq_getElem?_getD, List.getElem?_take_of_lt below,
      List.getElem?_drop, ← List.getD_eq_getElem?_getD]
  rw [read, if_pos (by omega), value]

theorem readBlock_ok (fits : index + count ≤ window.limit) :
    window.readBlock index count = .ok (window.area index count) := by
  induction count generalizing index with
  | zero => simp [readBlock, area]
  | succ count induction =>
    have inside := window.inside
    have below : index < window.bytes.length := by omega
    have first : window.read index = .ok window.bytes[index] := by
      rw [read, if_pos (by omega), List.getD_eq_getElem?_getD,
        List.getElem?_eq_getElem below]
      rfl
    have next : window.area index (count + 1) =
        window.bytes[index] :: window.area (index + 1) count := by
      rw [area, List.drop_eq_getElem_cons below, List.take_succ_cons]
      rfl
    rw [readBlock, first, induction (by omega), next]

theorem area_area (below : index + count ≤ len) :
    ((window.area start len).drop index).take count =
      window.area (start + index) count := by
  rw [area, area, List.drop_take, List.drop_drop, List.take_take,
    Nat.min_eq_left (by omega)]

theorem readBlock_area (fits : start + len ≤ window.limit)
    (below : index + count ≤ len) :
    window.readBlock (start + index) count =
      .ok (((window.area start len).drop index).take count) := by
  rw [readBlock_ok (by omega), area_area below]

theorem read_whole {bytes : List UInt8} {byte : UInt8}
    (here : bytes[index]? = some byte) :
    (whole bytes).read index = .ok byte := by
  have below : index < (whole bytes).limit :=
    (List.getElem?_eq_some_iff.mp here).1
  rw [read, if_pos below, whole, List.getD_eq_getElem?_getD, here]
  rfl

/-- What a write behind some bytes makes of them and of what lies outside. -/
theorem write_ok (below : index < window.limit) (byte : UInt8) :
    ∃ written, window.write index byte = .ok written ∧
      written.limit = window.limit ∧
      written.bytes.take (index + 1) = window.bytes.take index ++ [byte] ∧
      written.bytes.drop window.limit = window.bytes.drop window.limit := by
  have inside := window.inside
  refine ⟨⟨window.bytes.set index byte, window.limit, write_inside index byte⟩,
    by rw [write, if_pos below], rfl, ?_, List.drop_set_of_lt below⟩
  rw [List.take_succ_eq_append_getElem (by
    rw [List.length_set]
    omega), List.getElem_set_self, List.take_set_of_le (Nat.le_refl _)]

theorem narrow_ok {limit : Nat} (less : limit ≤ window.limit) :
    window.narrow limit = .ok ⟨window.bytes, limit, narrow_inside less⟩ := by
  rw [narrow, dif_pos less]

end Window

/-- Copy some bytes to a place in a buffer of some size. -/
def copyInto (size start count : Nat) : Except Fault Unit :=
  if count = 0 ∨ start + count ≤ size then .ok ()
  else .error (.write (start + count - 1))

theorem copyInto_ok {size start count : Nat} (fits : start + count ≤ size) :
    copyInto size start count = .ok () := by
  rw [copyInto, if_pos (.inr fits)]

/-- Subtract lengths of 16 bits. -/
def subtract (left right : UInt16) : Except Fault UInt16 :=
  if right ≤ left then .ok (left - right)
  else .error (.underflow left.toNat right.toNat)

theorem subtract_ok {left right : UInt16} (less : right.toNat ≤ left.toNat) :
    ∃ rest, subtract left right = .ok rest ∧
      rest.toNat = left.toNat - right.toNat := by
  have ordered : right ≤ left := UInt16.le_iff_toNat_le.mpr less
  refine ⟨left - right, ?_, UInt16.toNat_sub_of_le _ _ ordered⟩
  rw [subtract, if_pos ordered]

end Foundation
