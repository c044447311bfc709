import Gmker.Abi
import Mathlib.Algebra.Group.Nat.Defs
import Mathlib.Data.List.Basic

/-!
# The GM01 format

The header of a program image as `gmabi.h` fixes it, and the byte helpers that
`gmpack.c` and `programs.c` each have of their own.
-/

namespace Gmker.Image

abbrev gmApiVersion : UInt32 := 2
abbrev gmArchX8664 : UInt32 := 1
abbrev gmArchAarch64 : UInt32 := 2
abbrev gmArchRiscv64 : UInt32 := 3
abbrev gmImageMagic : UInt32 := 0x31304d47

/-- `GM_ARCH_NATIVE` of the only backend. -/
abbrev gmArchNative : UInt32 := gmArchX8664

structure GmImageHeader where
  magic : UInt32
  api : UInt32
  arch : UInt32
  imageSize : UInt32
  entry : UInt32
  checksum : UInt32
  deriving DecidableEq, Repr

/-- The loop of both checksum functions. -/
def gmFnvLoop (data : List UInt8) : UInt32 :=
  data.foldl (fun hash byte => (hash ^^^ byte.toUInt32) * 16777619) 2166136261

/-- `gm_checksum` of `gmpack.c`. -/
def gmChecksum (data : List UInt8) : UInt32 := gmFnvLoop data

/-- `gm_image_checksum` of `programs.c`. -/
def gmImageChecksum (data : List UInt8) : UInt32 := gmFnvLoop data

/-- `gm_put32`. -/
def gmPut32 (value : UInt32) : List UInt8 :=
  [value.toUInt8, (value >>> 8).toUInt8, (value >>> 16).toUInt8,
    (value >>> 24).toUInt8]

/-- `gm_u32`. -/
def gmU32 (bytes : List UInt8) : UInt32 :=
  (bytes.getD 0 0).toUInt32 ||| (bytes.getD 1 0).toUInt32 <<< 8 |||
    (bytes.getD 2 0).toUInt32 <<< 16 ||| (bytes.getD 3 0).toUInt32 <<< 24

/-- The header as `gm_program_load` takes it apart. -/
def gmHeaderOf (raw : List UInt8) : GmImageHeader where
  magic := gmU32 raw
  api := gmU32 (raw.drop 4)
  arch := gmU32 (raw.drop 8)
  imageSize := gmU32 (raw.drop 12)
  entry := gmU32 (raw.drop 16)
  checksum := gmU32 (raw.drop 20)

/-- The bits of one byte in its place. -/
theorem byte_testBit {number place bit : Nat} (low : place ≤ 24) :
    ((number >>> place % 2 ^ 8) <<< place % 2 ^ 32).testBit bit =
      (decide (place ≤ bit ∧ bit < place + 8) && number.testBit bit) := by
  simp only [Nat.testBit_mod_two_pow, Nat.testBit_shiftLeft,
    Nat.testBit_shiftRight]
  by_cases inside : place ≤ bit ∧ bit < place + 8
  · simp [inside, show bit < 32 by omega, show bit - place < 8 by omega,
      show place + (bit - place) = bit by omega]
  · by_cases above : place ≤ bit
    · simp [above, show ¬ bit < place + 8 by omega,
        show ¬ bit - place < 8 by omega]
    · simp [above]

theorem four_bytes {number : Nat} (small : number < 2 ^ 32) :
    number % 256 ||| (number >>> 8 % 256) <<< 8 % 2 ^ 32 |||
      (number >>> 16 % 256) <<< 16 % 2 ^ 32 |||
      (number >>> 24 % 256) <<< 24 % 2 ^ 32 = number := by
  apply Nat.eq_of_testBit_eq
  intro bit
  rw [show 256 = 2 ^ 8 from rfl, Nat.testBit_or, Nat.testBit_or,
    Nat.testBit_or, Nat.testBit_mod_two_pow, byte_testBit (by decide),
    byte_testBit (by decide), byte_testBit (by decide)]
  cases set : number.testBit bit with
  | false => simp
  | true =>
    have inside : bit < 32 := by
      by_contra beyond
      have clear := Nat.testBit_lt_two_pow (Nat.lt_of_lt_of_le small
        (Nat.pow_le_pow_right (by decide) (Nat.not_lt.mp beyond)))
      rw [clear] at set
      cases set
    simp only [Bool.and_true, Bool.or_eq_true, decide_eq_true_eq]
    omega

theorem gmU32_put32 (value : UInt32) (rest : List UInt8) :
    gmU32 (gmPut32 value ++ rest) = value := by
  change value.toUInt8.toUInt32 ||| (value >>> 8).toUInt8.toUInt32 <<< 8 |||
    (value >>> 16).toUInt8.toUInt32 <<< 16 |||
    (value >>> 24).toUInt8.toUInt32 <<< 24 = value
  apply UInt32.toNat_inj.mp
  simp only [UInt32.toNat_or, UInt32.toNat_shiftLeft, UInt8.toNat_toUInt32,
    UInt32.toNat_toUInt8, UInt32.toNat_shiftRight]
  exact four_bytes value.toNat_lt

end Gmker.Image
