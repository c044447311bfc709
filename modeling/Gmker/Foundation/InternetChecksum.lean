import Mathlib.Data.Nat.Notation

/-!
# The Internet checksum

Ones' complement sums of 16-bit words.  A sum of words is folded until its
carries are gone; what is left depends only on the sum modulo 65535, except that
only the empty sum folds to zero.  A sum and the complement of its fold add up
to all ones, which is what a receiver looks for.
-/

namespace Foundation

/-- The sum of the words of some bytes, high bytes first.  An odd last byte is
the high byte of a word. -/
def wordSum : List UInt8 → Nat
  | high :: low :: rest => 256 * high.toNat + low.toNat + wordSum rest
  | [high] => 256 * high.toNat
  | [] => 0

theorem wordSum_append {first : List UInt8} (even : first.length % 2 = 0)
    (second : List UInt8) :
    wordSum (first ++ second) = wordSum first + wordSum second := by
  fun_induction wordSum first with
  | case1 high low rest induction =>
    have shorter : rest.length % 2 = 0 := by
      simp only [List.length_cons] at even
      omega
    rw [List.cons_append, List.cons_append, wordSum, induction shorter]
    omega
  | case2 high => simp at even
  | case3 => simp

theorem wordSum_le (bytes : List UInt8) :
    wordSum bytes ≤ 65535 * ((bytes.length + 1) / 2) := by
  fun_induction wordSum bytes with
  | case1 high low rest induction =>
    have top := high.toNat_lt
    have bottom := low.toNat_lt
    simp only [List.length_cons]
    omega
  | case2 high =>
    have top := high.toNat_lt
    simp only [List.length_singleton]
    omega
  | case3 => exact Nat.zero_le _

/-- Changing one byte changes the sum by a multiple of the difference. -/
theorem wordSum_set {bytes : List UInt8} {index : Nat}
    (inside : index < bytes.length) (byte : UInt8) :
    ∃ weight, (weight = 1 ∨ weight = 256) ∧
      wordSum (bytes.set index byte) + weight * (bytes.getD index 0).toNat =
        wordSum bytes + weight * byte.toNat := by
  fun_induction wordSum bytes generalizing index with
  | case1 high low rest induction =>
    match index with
    | 0 =>
      refine ⟨256, .inr rfl, ?_⟩
      simp only [List.set_cons_zero, List.getD_cons_zero, wordSum]
      omega
    | 1 =>
      refine ⟨1, .inl rfl, ?_⟩
      simp only [List.set_cons_succ, List.set_cons_zero,
        List.getD_cons_succ, List.getD_cons_zero, wordSum]
      omega
    | index + 2 =>
      have shorter : index < rest.length := by
        simp only [List.length_cons] at inside
        omega
      obtain ⟨weight, kind, changed⟩ := induction shorter
      refine ⟨weight, kind, ?_⟩
      simp only [List.set_cons_succ, List.getD_cons_succ, wordSum]
      omega
  | case2 high =>
    simp only [List.length_singleton, Nat.lt_one_iff] at inside
    subst inside
    refine ⟨256, .inr rfl, ?_⟩
    simp only [List.set_cons_zero, List.getD_cons_zero, wordSum]
    omega
  | case3 => simp at inside

/-- A sum with its carries added in. -/
def endAround (sum : Nat) : Nat :=
  if sum = 0 then 0 else (sum - 1) % 65535 + 1

theorem endAround_lt (sum : Nat) : endAround sum < 65536 := by
  unfold endAround
  split <;> omega

theorem endAround_small {sum : Nat} (small : sum < 65536) :
    endAround sum = sum := by
  unfold endAround
  split <;> omega

/-- Adding the carries of one fold changes nothing. -/
theorem endAround_fold (sum : Nat) :
    endAround (sum % 65536 + sum / 65536) = endAround sum := by
  unfold endAround
  split <;> split <;> omega

/-- A sum and the complement of it are all ones. -/
theorem endAround_complement (sum : Nat) :
    endAround (sum + (65535 - endAround sum)) = 65535 := by
  unfold endAround
  split <;> split <;> omega

theorem endAround_ones {sum : Nat} (full : endAround sum = 65535) :
    endAround (sum + 65535) = 65535 := by
  unfold endAround at full ⊢
  split at full <;> split <;> omega

/-- A sum that is all ones is so no longer when one byte changes. -/
theorem endAround_changed {sum changed weight old new : Nat}
    (full : endAround sum = 65535) (kind : weight = 1 ∨ weight = 256)
    (small : old < 256) (small' : new < 256) (other : new ≠ old)
    (shift : changed + weight * old = sum + weight * new) :
    endAround changed ≠ 65535 := by
  unfold endAround at full ⊢
  rcases kind with rfl | rfl
  · split at full <;> split <;> omega
  · split at full <;> split <;> omega

/-! ## Ones' complement addition -/

/-- The words of some bytes; a zero byte is added to an odd last one. -/
def words : List UInt8 → List Nat
  | high :: low :: rest => (256 * high.toNat + low.toNat) :: words rest
  | [high] => [256 * high.toNat]
  | [] => []

/-- Addition of 16-bit words with the carry added in at the other end. -/
def onesAdd (left right : Nat) : Nat :=
  if left + right < 65536 then left + right else left + right - 65535

/-- The ones' complement sum of some words. -/
def onesSum (values : List Nat) : Nat := values.foldl onesAdd 0

theorem onesAdd_eq {left right : Nat} (small : left < 65536)
    (small' : right < 65536) : onesAdd left right = endAround (left + right) := by
  unfold onesAdd endAround
  split <;> split <;> omega

theorem endAround_add (left right : Nat) :
    endAround (endAround left + right) = endAround (left + right) := by
  unfold endAround
  split <;> split <;> split <;> omega

/-- Folding the plain sum once gives the ones' complement sum. -/
theorem onesSum_words (bytes : List UInt8) :
    onesSum (words bytes) = endAround (wordSum bytes) := by
  have general : ∀ sum, sum < 65536 →
      (words bytes).foldl onesAdd sum = endAround (sum + wordSum bytes) := by
    fun_induction wordSum bytes with
    | case1 high low rest induction =>
      intro sum small
      have top := high.toNat_lt
      have bottom := low.toNat_lt
      rw [words, List.foldl_cons, onesAdd_eq small (by omega),
        induction _ (endAround_lt _), endAround_add]
      congr 1
      omega
    | case2 high =>
      intro sum small
      have top := high.toNat_lt
      rw [words, List.foldl_cons, onesAdd_eq small (by omega)]
      rfl
    | case3 =>
      intro sum small
      exact (endAround_small small).symm
  rw [onesSum, general 0 (by decide), Nat.zero_add]

end Foundation
