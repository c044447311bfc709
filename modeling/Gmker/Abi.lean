/-!
# Shared constants and C strings

Constants of `gmabi.h` and `gmker.h`, and the string helpers of `core.c`.  A C
string is a list of bytes whose end stands for the terminating NUL; a NUL
inside the list ends the string early, exactly as it does in memory.
-/

namespace Gmker

/-- The bytes of an ASCII literal. -/
def ascii (text : String) : List UInt8 :=
  text.toList.map fun symbol => UInt8.ofNat symbol.toNat

abbrev gmTickHz : Nat := 100

abbrev gmProgramBase : Nat := 0x40000000
abbrev gmProgramImageMax : Nat := 65536
abbrev gmProgramHeaderSize : Nat := 24
abbrev gmProgramArgSize : Nat := 4096
abbrev gmProgramStackSize : Nat := 16384
abbrev gmProgramGuardSize : Nat := 4096
abbrev gmProgramArg : Nat := gmProgramBase + gmProgramImageMax
abbrev gmProgramGuard : Nat := gmProgramArg + gmProgramArgSize
abbrev gmProgramStack : Nat := gmProgramGuard + gmProgramGuardSize
abbrev gmProgramEnd : Nat := gmProgramStack + gmProgramStackSize
abbrev gmProgramMaxTicks : Nat := 1000

abbrev gmStoreBlock : Nat := 1024
abbrev gmUdpMax : Nat := 1024

abbrev gmResourceTcp : Nat := 1
abbrev gmResourceUdp : Nat := 2

/-- The characters of a C string. -/
def cString (bytes : List UInt8) : List UInt8 := bytes.takeWhile (· != 0)

/-- `gm_streq`: both strings agree up to and including their terminator. -/
def gmStreq : List UInt8 → List UInt8 → Bool
  | [], [] => true
  | [], other :: _ => other == 0
  | symbol :: _, [] => symbol == 0
  | symbol :: rest, other :: others =>
    if symbol ≠ 0 ∧ other ≠ 0 then
      if symbol ≠ other then false else gmStreq rest others
    else symbol == other

/-- A string that `gm_streq` takes for one without an inner NUL is that one, or
goes on behind a NUL. -/
theorem gmStreq_cases {left right : List UInt8} (whole : 0 ∉ right)
    (same : gmStreq left right = true) :
    left = right ∨ right ++ [0] <+: left := by
  induction left generalizing right with
  | nil =>
    cases right with
    | nil => exact .inl rfl
    | cons other others =>
      have ends : other = 0 := by simpa [gmStreq] using same
      exact absurd (ends ▸ List.mem_cons_self) whole
  | cons symbol rest induction =>
    cases right with
    | nil =>
      have ends : symbol = 0 := by simpa [gmStreq] using same
      exact .inr ⟨rest, by rw [ends]; rfl⟩
    | cons other others =>
      have inside : other ≠ 0 := by
        rintro rfl
        exact whole List.mem_cons_self
      by_cases ends : symbol = 0
      · rw [gmStreq, if_neg (by simp [ends]), beq_iff_eq] at same
        exact absurd (same.symm.trans ends) inside
      rw [gmStreq, if_pos ⟨ends, inside⟩] at same
      split at same
      · cases same
      rename_i agree
      obtain rfl := Decidable.not_not.mp agree
      rcases induction (fun member => whole (List.mem_cons_of_mem _ member))
        same with rfl | longer
      · exact .inl rfl
      · exact .inr (List.cons_prefix_cons.mpr ⟨rfl, longer⟩)

/-- `gm_starts`: the string begins with the bytes of `expected`. -/
def gmStarts : List UInt8 → List UInt8 → Bool
  | _, [] => true
  | text, wanted :: expected =>
    if wanted = 0 then true
    else
      match text with
      | [] => false
      | symbol :: rest =>
        if symbol ≠ wanted then false else gmStarts rest expected

end Gmker
