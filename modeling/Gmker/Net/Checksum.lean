import Gmker.Foundation.InternetChecksum
import Gmker.Net.Wire

/-!
# Header fields and checksums

Header fields are read back as they were written, and the checksum loops of the
kernel compute Internet checksums.
-/

namespace Gmker.Net

open Foundation

/-! ## Fields of 16 bits -/

theorem or_byte {low : Nat} (small : low < 256) (high : Nat) :
    low ||| 256 * high = low + 256 * high := by
  rw [Nat.or_comm, ← Nat.two_pow_add_eq_or_of_lt (show low < 2 ^ 8 from small)]
  exact Nat.add_comm _ _

theorem gmSwap16_toNat (value : UInt16) :
    (gmSwap16 value).toNat =
      value.toNat / 256 + 256 * (value.toNat % 256) := by
  have bound := value.toNat_lt
  have high : value.toNat * 256 % 65536 = 256 * (value.toNat % 256) := by
    omega
  rw [← or_byte (by omega), ← high]
  simp [gmSwap16, UInt16.toNat_or, UInt16.toNat_shiftRight,
    UInt16.toNat_shiftLeft, Nat.shiftRight_eq_div_pow, Nat.shiftLeft_eq]

theorem gmSwap16_gmSwap16 (value : UInt16) :
    gmSwap16 (gmSwap16 value) = value := by
  have bound := value.toNat_lt
  apply UInt16.toNat_inj.mp
  rw [gmSwap16_toNat, gmSwap16_toNat]
  omega

theorem load16_toNat (data : List UInt8) (offset : Nat) :
    (load16 data offset).toNat = (data.getD offset 0).toNat +
      256 * (data.getD (offset + 1) 0).toNat := by
  unfold load16
  generalize data.getD offset 0 = low
  generalize data.getD (offset + 1) 0 = high
  have bottom := low.toNat_lt
  have top := high.toNat_lt
  have shifted : high.toNat * 256 % 65536 = 256 * high.toNat := by omega
  rw [← or_byte bottom, ← shifted]
  simp [UInt16.toNat_or, UInt16.toNat_shiftLeft, Nat.shiftLeft_eq]

theorem load16_store16 (value : UInt16) (rest : List UInt8) :
    load16 (store16 value ++ rest) 0 = value := by
  have bound := value.toNat_lt
  apply UInt16.toNat_inj.mp
  rw [load16_toNat]
  simp [store16, Nat.shiftRight_eq_div_pow]
  omega

/-! ## Fields of 32 bits -/

theorem load32_store32 (value : UInt32) (rest : List UInt8) :
    load32 (store32 value ++ rest) 0 = value := by
  have bound := value.toNat_lt
  have low : load16 (store32 value ++ rest) 0 = value.toUInt16 :=
    load16_store16 value.toUInt16 _
  have high : load16 (store32 value ++ rest) 2 = (value >>> 16).toUInt16 :=
    load16_store16 (value >>> 16).toUInt16 rest
  have shifted : value.toNat / 65536 * 65536 % 4294967296 =
      2 ^ 16 * (value.toNat / 65536) := by omega
  have joined : value.toNat % 65536 |||
      value.toNat / 65536 * 65536 % 4294967296 = value.toNat := by
    rw [shifted, Nat.or_comm, ← Nat.two_pow_add_eq_or_of_lt
      (show value.toNat % 65536 < 2 ^ 16 from Nat.mod_lt _ (by decide))]
    omega
  have small : value.toNat / 65536 % 65536 = value.toNat / 65536 := by omega
  apply UInt32.toNat_inj.mp
  unfold load32
  rw [low, high]
  simp [UInt32.toNat_or, UInt32.toNat_shiftLeft, UInt32.toNat_shiftRight,
    Nat.shiftRight_eq_div_pow, Nat.shiftLeft_eq, small, joined]

theorem mask_bits (bit : Nat) :
    (0x000000ff#32).getLsbD bit = decide (bit < 8) ∧
    (0x0000ff00#32).getLsbD bit = decide (8 ≤ bit ∧ bit < 16) ∧
    (0x00ff0000#32).getLsbD bit = decide (16 ≤ bit ∧ bit < 24) ∧
    (0xff000000#32).getLsbD bit = decide (24 ≤ bit ∧ bit < 32) := by
  have inside : ∀ bit, bit < 32 →
      (0x000000ff#32).getLsbD bit = decide (bit < 8) ∧
      (0x0000ff00#32).getLsbD bit = decide (8 ≤ bit ∧ bit < 16) ∧
      (0x00ff0000#32).getLsbD bit = decide (16 ≤ bit ∧ bit < 24) ∧
      (0xff000000#32).getLsbD bit = decide (24 ≤ bit ∧ bit < 32) := by
    decide
  by_cases small : bit < 32
  · exact inside bit small
  · have beyond : ∀ mask : BitVec 32, mask.getLsbD bit = false := fun mask =>
      BitVec.getLsbD_of_ge mask bit (Nat.le_of_not_lt small)
    refine ⟨?_, ?_, ?_, ?_⟩ <;> rw [beyond] <;> simp <;> omega

/-- Where a bit of a swapped word comes from. -/
theorem gmSwap32_bit (value : UInt32) {bit : Nat} (small : bit < 32) :
    (gmSwap32 value).toBitVec.getLsbD bit =
      value.toBitVec.getLsbD (24 - bit / 8 * 8 + bit % 8) := by
  unfold gmSwap32
  simp only [UInt32.toBitVec_or, UInt32.toBitVec_shiftRight,
    UInt32.toBitVec_shiftLeft, UInt32.toBitVec_and]
  have amounts : (24#32 % 32).toNat = 24 ∧ (8#32 % 32).toNat = 8 := by decide
  simp only [BitVec.getLsbD_or, UInt32.toBitVec_ofNat, BitVec.shiftLeft_eq',
    BitVec.ushiftRight_eq', amounts, BitVec.getLsbD_shiftLeft,
    BitVec.getLsbD_ushiftRight, BitVec.getLsbD_and, mask_bits]
  -- Each of the four bytes goes its own way.
  have byte : bit / 8 = 0 ∨ bit / 8 = 1 ∨ bit / 8 = 2 ∨ bit / 8 = 3 := by omega
  rcases byte with byte | byte | byte | byte
  · rw [show 24 - bit / 8 * 8 + bit % 8 = 24 + bit by omega]
    have low : bit < 8 := by omega
    have fits : ¬ 16 ≤ 8 + bit ∧ 24 + bit < 32 ∧ bit < 24 := by omega
    simp [low, fits]
  · rw [show 24 - bit / 8 * 8 + bit % 8 = 8 + bit by omega]
    have high : ¬ bit < 8 ∧ bit < 24 := by omega
    have fits : 16 ≤ 8 + bit ∧ 8 + bit < 24 ∧ ¬ 24 + bit < 32 ∧
        ¬ 8 ≤ bit - 8 := by omega
    simp [high, fits]
  · rw [show 24 - bit / 8 * 8 + bit % 8 = bit - 8 by omega]
    have high : ¬ bit < 8 ∧ bit < 24 := by omega
    have fits : ¬ 8 + bit < 24 ∧ ¬ 24 + bit < 32 ∧ 8 ≤ bit - 8 ∧
        bit - 8 < 16 := by omega
    simp [high, fits, small]
  · rw [show 24 - bit / 8 * 8 + bit % 8 = bit - 24 by omega]
    have high : ¬ bit < 8 ∧ ¬ bit < 24 := by omega
    have fits : ¬ 8 + bit < 24 ∧ ¬ 24 + bit < 32 ∧ ¬ bit - 8 < 16 ∧
        bit - 24 < 8 := by omega
    simp [high, fits, small]

theorem gmSwap32_gmSwap32 (value : UInt32) :
    gmSwap32 (gmSwap32 value) = value := by
  apply UInt32.eq_of_toBitVec_eq
  apply BitVec.eq_of_getLsbD_eq
  intro bit small
  rw [gmSwap32_bit _ small, gmSwap32_bit value (by omega)]
  congr 1
  omega

/-! ## Checksums -/

theorem gmSumAdd_toNat (sum : UInt32) (bytes : List UInt8)
    (fits : sum.toNat + wordSum bytes < 4294967296) :
    (gmSumAdd sum bytes).toNat = sum.toNat + wordSum bytes := by
  have shifted : ∀ byte : UInt8,
      (byte.toUInt32 <<< 8).toNat = 256 * byte.toNat := by
    intro byte
    have small := byte.toNat_lt
    simp [UInt32.toNat_shiftLeft, Nat.shiftLeft_eq]
    omega
  fun_induction wordSum bytes generalizing sum with
  | case1 high low rest induction =>
    have top := high.toNat_lt
    have bottom := low.toNat_lt
    have word : ((high.toUInt32 <<< 8) ||| low.toUInt32).toNat =
        256 * high.toNat + low.toNat := by
      rw [UInt32.toNat_or, shifted, UInt8.toNat_toUInt32, Nat.or_comm,
        or_byte bottom, Nat.add_comm]
    have added : (sum + ((high.toUInt32 <<< 8) ||| low.toUInt32)).toNat =
        sum.toNat + (256 * high.toNat + low.toNat) := by
      rw [UInt32.toNat_add, word]
      omega
    rw [gmSumAdd, induction _ (by rw [added]; omega), added]
    omega
  | case2 high =>
    rw [gmSumAdd, UInt32.toNat_add, shifted]
    omega
  | case3 => rfl

theorem shift16_toNat (sum : UInt32) :
    (sum >>> 16).toNat = sum.toNat / 65536 := by
  simp [UInt32.toNat_shiftRight, Nat.shiftRight_eq_div_pow]

theorem shift16_eq_zero (sum : UInt32) :
    sum >>> 16 = 0 ↔ sum.toNat < 65536 := by
  rw [← UInt32.toNat_inj, shift16_toNat]
  change sum.toNat / 65536 = 0 ↔ _
  omega

theorem gmSumFold_toNat (sum : UInt32) :
    (gmSumFold 2 sum).toNat = endAround sum.toNat := by
  have turn : ∀ sum : UInt32,
      ((sum &&& (0xffff : UInt32)) + (sum >>> 16)).toNat =
        sum.toNat % 65536 + sum.toNat / 65536 := by
    intro sum
    have bound := sum.toNat_lt
    have low : (sum &&& (0xffff : UInt32)).toNat = sum.toNat % 65536 :=
      Nat.and_two_pow_sub_one_eq_mod sum.toNat 16
    rw [UInt32.toNat_add, low, shift16_toNat]
    omega
  have bound := sum.toNat_lt
  simp only [gmSumFold, ne_eq, shift16_eq_zero, Nat.not_lt]
  split
  · split
    · rw [turn, turn, ← endAround_fold sum.toNat, ← endAround_fold]
      rw [endAround_small (by omega)]
    · rename_i small
      rw [turn] at small ⊢
      rw [← endAround_fold, endAround_small (by omega)]
  · rw [endAround_small (by omega)]

theorem gmSumFinish_toNat (sum : UInt32) :
    (gmSumFinish sum).toNat = 65535 - endAround sum.toNat := by
  have small := endAround_lt sum.toNat
  have folded := gmSumFold_toNat sum
  rw [gmSumFinish, UInt32.toNat_toUInt16, UInt32.toNat_not, folded]
  change (4294967296 - 1 - endAround sum.toNat) % 65536 = _
  omega

/-- A checksum of zero says that the words are all ones. -/
theorem gmSumFinish_zero {sum : UInt32} (full : endAround sum.toNat = 65535) :
    gmSumFinish sum = 0 := by
  apply UInt16.toNat_inj.mp
  rw [gmSumFinish_toNat, full]
  rfl

theorem store16_gmSwap16 (value : UInt16) :
    store16 (gmSwap16 value) = [(value >>> 8).toUInt8, value.toUInt8] := by
  have bound := value.toNat_lt
  have swapped := gmSwap16_toNat value
  have high : (gmSwap16 value).toUInt8 = (value >>> 8).toUInt8 := by
    apply UInt8.toNat_inj.mp
    rw [UInt16.toNat_toUInt8, UInt16.toNat_toUInt8, UInt16.toNat_shiftRight,
      swapped]
    simp only [Nat.shiftRight_eq_div_pow]
    change _ = value.toNat / 256 % 256
    omega
  have low : (gmSwap16 value >>> 8).toUInt8 = value.toUInt8 := by
    apply UInt8.toNat_inj.mp
    rw [UInt16.toNat_toUInt8, UInt16.toNat_toUInt8, UInt16.toNat_shiftRight,
      swapped]
    simp only [Nat.shiftRight_eq_div_pow]
    change (value.toNat / 256 + 256 * (value.toNat % 256)) / 256 % 256 = _
    rw [Nat.add_mul_div_left _ _ (by decide), Nat.div_eq_of_lt (by omega),
      Nat.zero_add, Nat.mod_mod]
  rw [store16, high, low]

theorem wordSum_store16 (value : UInt16) (rest : List UInt8) :
    wordSum (store16 (gmSwap16 value) ++ rest) =
      value.toNat + wordSum rest := by
  have bound := value.toNat_lt
  have high : ((value >>> 8).toUInt8).toNat = value.toNat / 256 := by
    rw [UInt16.toNat_toUInt8, UInt16.toNat_shiftRight]
    simp only [Nat.shiftRight_eq_div_pow]
    change value.toNat / 256 % 256 = _
    omega
  rw [store16_gmSwap16, List.cons_append, List.cons_append, List.nil_append,
    wordSum, high, UInt16.toNat_toUInt8]
  omega

section Field

variable (start : UInt32) {front back : List UInt8}
  (even : front.length % 2 = 0)
  (fits : start.toNat + wordSum front + 65535 + wordSum back < 4294967296)
include even fits

/-- A field adds its value to the sum of the words around it. -/
theorem gmSumAdd_field (field : UInt16) :
    (gmSumAdd start (front ++ (store16 (gmSwap16 field) ++ back))).toNat =
      start.toNat + wordSum front + wordSum back + field.toNat := by
  have small := field.toNat_lt
  have words : wordSum (front ++ (store16 (gmSwap16 field) ++ back)) =
      wordSum front + (field.toNat + wordSum back) := by
    rw [wordSum_append even, wordSum_store16]
  rw [gmSumAdd_toNat _ _ (by rw [words]; omega), words]
  omega

/-- The checksum of words with an empty field, put into the field, makes the
checksum zero. -/
theorem gmSumFinish_closes :
    gmSumFinish (gmSumAdd start (front ++ (store16 (gmSwap16 (gmSumFinish
      (gmSumAdd start (front ++ (store16 (gmSwap16 0) ++ back))))) ++
        back))) = 0 := by
  apply gmSumFinish_zero
  rw [gmSumAdd_field start even fits, gmSumFinish_toNat,
    gmSumAdd_field start even fits]
  exact endAround_complement _

/-- If that checksum is itself zero, all ones do as well. -/
theorem gmSumFinish_closes_ones
    (none : gmSumFinish (gmSumAdd start
      (front ++ (store16 (gmSwap16 0) ++ back))) = 0) :
    gmSumFinish (gmSumAdd start
      (front ++ (store16 (gmSwap16 0xffff) ++ back))) = 0 := by
  have small := endAround_lt
    (start.toNat + wordSum front + wordSum back + (0 : UInt16).toNat)
  have full := congrArg UInt16.toNat none
  rw [gmSumFinish_toNat, gmSumAdd_field start even fits] at full
  apply gmSumFinish_zero
  rw [gmSumAdd_field start even fits]
  exact endAround_ones (Nat.le_antisymm (Nat.le_of_lt_succ small)
    (Nat.le_of_sub_eq_zero full))

end Field

end Gmker.Net
