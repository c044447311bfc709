import Gmker.Net.Store
import Gmker.Server.Commands
import Mathlib.Data.List.TakeWhile

/-!
# Decimal numbers

The kernel writes numbers with one digit loop and reads them in three places:
`gm_store_number`, `gm_decimal` and `gm_parse_u64`.  Two of the readers guard
against overflow by the last digits of the bound and one by a division; all
three stop exactly at the numbers that need more than 64 bits.
-/

namespace Gmker

open Net Server

variable {value : UInt64} {text : List UInt8}

/-! ## Writing -/

/-- A row of digits with its value. -/
structure Server.PlainDecimal (text : List UInt8) (value : Nat) : Prop where
  nonempty : text ≠ []
  digits : ∀ symbol ∈ text, isDigit symbol = true
  value : decimalValue text = value

/-- The decimal representation of a number, without leading zeros. -/
structure ShortDecimal (text : List UInt8) (value : Nat) : Prop
    extends PlainDecimal text value where
  lead : text.head? = some 48 → text = [48]

/-- `gm_print_u64`.  Its buffer has room for 24 digits. -/
def gmPrintU64 (value : UInt64) : List UInt8 :=
  if value = 0 then [48] else (gmStoreDigits 24 value).reverse

theorem decimalValue_snoc (digits : List UInt8) (digit : UInt8) :
    decimalValue (digits ++ [digit]) =
      decimalValue digits * 10 + (digit.toNat - 48) := by
  unfold decimalValue
  rw [List.foldl_append]
  rfl

theorem lastDigit_toNat (value : UInt64) :
    (48 + (value % 10).toUInt8).toNat = 48 + value.toNat % 10 := by
  have digit : (value % 10).toNat = value.toNat % 10 := UInt64.toNat_mod _ _
  have small : (value % 10).toUInt8.toNat = value.toNat % 10 := by
    rw [UInt64.toNat_toUInt8, digit]
    omega
  rw [UInt8.toNat_add, small]
  show (48 + value.toNat % 10) % 2 ^ 8 = _
  omega

theorem lastDigit_isDigit (value : UInt64) :
    isDigit (48 + (value % 10).toUInt8) = true := by
  simp only [isDigit, Bool.and_eq_true, decide_eq_true_eq,
    UInt8.le_iff_toNat_le, lastDigit_toNat]
  constructor
  · show 48 ≤ _
    omega
  · show _ ≤ 57
    omega

/-- The digit loop leaves the digits of the number, none in front of the first
that counts, as soon as it may take enough turns. -/
theorem gmStoreDigits_short {fuel : Nat} (enough : value.toNat < 10 ^ fuel)
    (positive : value ≠ 0) :
    ShortDecimal (gmStoreDigits fuel value).reverse value.toNat := by
  induction fuel generalizing value with
  | zero =>
    have zero : value.toNat = 0 := by simpa using enough
    exact absurd (UInt64.toNat_inj.1 zero) positive
  | succ fuel induction =>
    have quotient : (value / 10).toNat = value.toNat / 10 :=
      UInt64.toNat_div _ _
    have digit := lastDigit_toNat value
    unfold gmStoreDigits
    rw [if_neg positive, List.reverse_cons]
    by_cases last : value / 10 = 0
    · -- the leading digit
      have small : value.toNat / 10 = 0 := by rw [← quotient, last]; rfl
      have none : gmStoreDigits fuel (value / 10) = [] := by
        cases fuel <;> simp [gmStoreDigits, last]
      rw [none]
      refine ⟨⟨by simp, by simpa using lastDigit_isDigit value, ?_⟩, by simp⟩
      rw [List.reverse_nil, decimalValue_snoc, digit]
      show 0 * 10 + _ = _
      omega
    · have rest : (value / 10).toNat < 10 ^ fuel := by
        rw [quotient]
        rw [Nat.pow_succ] at enough
        omega
      obtain ⟨⟨nonempty, digits, worth⟩, lead⟩ := induction rest last
      refine ⟨⟨by simp, ?_, ?_⟩, fun zero => ?_⟩
      · intro symbol member
        rcases List.mem_append.1 member with front | back
        · exact digits symbol front
        · rw [List.mem_singleton.1 back]
          exact lastDigit_isDigit value
      · rw [decimalValue_snoc, worth, quotient, digit]
        omega
      · rw [List.head?_append_of_ne_nil _ nonempty] at zero
        rw [lead zero] at worth
        exact absurd (UInt64.toNat_inj.1 worth.symm) last

theorem gmStoreDigits_length {fuel places : Nat}
    (small : value.toNat < 10 ^ places) :
    (gmStoreDigits fuel value).length ≤ places := by
  induction fuel generalizing value places with
  | zero => exact Nat.zero_le _
  | succ fuel inductionHypothesis =>
    unfold gmStoreDigits
    by_cases zero : value = 0
    · rw [if_pos zero]
      exact Nat.zero_le _
    rw [if_neg zero, List.length_cons]
    cases places with
    | zero =>
      have none : value.toNat = 0 := by simpa using small
      exact absurd (UInt64.toNat_inj.1 none) zero
    | succ places =>
      have quotient : (value / 10).toNat = value.toNat / 10 :=
        UInt64.toNat_div _ _
      have rest : (value / 10).toNat < 10 ^ places := by
        rw [quotient]
        rw [Nat.pow_succ] at small
        omega
      exact Nat.succ_le_succ (inductionHypothesis rest)

theorem shortDecimal_or_zero (fuel : Nat) (enough : 20 ≤ fuel)
    (value : UInt64) :
    ShortDecimal
      (if value = 0 then [48] else (gmStoreDigits fuel value).reverse)
      value.toNat := by
  split
  · rename_i zero
    rw [zero]
    refine ⟨⟨by simp, fun symbol member => ?_, rfl⟩, fun _ => rfl⟩
    rw [List.mem_singleton.1 member]
    rfl
  · rename_i positive
    refine gmStoreDigits_short ?_ positive
    calc value.toNat < 10 ^ 20 := Nat.lt_trans value.toNat_lt (by decide)
      _ ≤ 10 ^ fuel := Nat.pow_le_pow_right (by decide) enough

theorem gmStoreDec_short (value : UInt64) :
    ShortDecimal (gmStoreDec value) value.toNat :=
  shortDecimal_or_zero 20 (by decide) value

theorem gmPrintU64_short (value : UInt64) :
    ShortDecimal (gmPrintU64 value) value.toNat :=
  shortDecimal_or_zero 24 (by decide) value

theorem gmStoreDec_length {places : Nat}
    (small : value.toNat < 10 ^ (places + 1)) :
    (gmStoreDec value).length ≤ places + 1 := by
  unfold gmStoreDec
  split
  · exact Nat.succ_le_succ (Nat.zero_le places)
  · rw [List.length_reverse]
    exact gmStoreDigits_length small

theorem cString_digits (digits : ∀ symbol ∈ text, isDigit symbol = true) :
    cString text = text := by
  refine List.takeWhile_eq_self_iff.2 fun symbol member => ?_
  rw [bne_iff_ne]
  rintro rfl
  exact absurd (digits 0 member) (by decide)

/-! ## Reading -/

/-- The loop of `gm_decimal`, which divides the bound. -/
def gmDecimalLoop : List UInt8 → UInt64 → Option UInt64
  | [], number => some number
  | symbol :: rest, number =>
    if symbol = 0 then some number
    else if symbol < 48 ∨ 57 < symbol then none
    else
      let digit := (symbol - 48).toUInt64
      if (~~~0 - digit) / 10 < number then none
      else gmDecimalLoop rest (number * 10 + digit)

/-- `gm_decimal`. -/
def gmDecimal (text : List UInt8) : Option UInt64 :=
  if cString text = [] then none else gmDecimalLoop text 0

/-- The loop of `gm_parse_u64`, with the flag behind `ok`. -/
def gmParseU64Loop : List UInt8 → UInt64 → Nat → UInt64 × Bool
  | [], value, digits => (value, digits != 0)
  | symbol :: rest, value, digits =>
    if 48 ≤ symbol ∧ symbol ≤ 57 then
      let digit := (symbol - 48).toUInt64
      if 1844674407370955161 < value ∨
          value = 1844674407370955161 ∧ 5 < digit then (0, false)
      else gmParseU64Loop rest (value * 10 + digit) (digits + 1)
    else (value, digits != 0)

/-- `gm_parse_u64`. -/
def gmParseU64 (text : List UInt8) : UInt64 × Bool :=
  gmParseU64Loop text 0 0

/-- The value of further digits. -/
def decimalFrom (value : Nat) (digits : List UInt8) : Nat :=
  digits.foldl (fun value digit => value * 10 + (digit.toNat - 48)) value

theorem le_decimalFrom (value : Nat) (digits : List UInt8) :
    value ≤ decimalFrom value digits := by
  induction digits generalizing value with
  | nil => exact Nat.le_refl value
  | cons digit digits induction =>
    have next := induction (value * 10 + (digit.toNat - 48))
    exact Nat.le_trans (by omega) next

/-- The loop stops at a number that does not fit into 64 bits. -/
theorem gmStoreNumber_digit (value digit : UInt64) (small : digit.toNat ≤ 9) :
    (1844674407370955161 < value ∨ value = 1844674407370955161 ∧ 5 < digit) ∧
        2 ^ 64 ≤ value.toNat * 10 + digit.toNat ∨
      ¬(1844674407370955161 < value ∨
          value = 1844674407370955161 ∧ 5 < digit) ∧
        (value * 10 + digit).toNat = value.toNat * 10 + digit.toNat := by
  have limit : (1844674407370955161 : UInt64).toNat = 1844674407370955161 :=
    rfl
  have five : (5 : UInt64).toNat = 5 := rfl
  have ten : (10 : UInt64).toNat = 10 := rfl
  simp only [UInt64.lt_iff_toNat_lt, ← UInt64.toNat_inj, UInt64.toNat_add,
    UInt64.toNat_mul, limit, five, ten]
  omega

/-- Both guards against overflow are the same. -/
theorem gmDecimal_guard (value digit : UInt64) (small : digit.toNat ≤ 9) :
    (~~~0 - digit) / 10 < value ↔
      1844674407370955161 < value ∨
        value = 1844674407370955161 ∧ 5 < digit := by
  have limit : (1844674407370955161 : UInt64).toNat = 1844674407370955161 :=
    rfl
  have five : (5 : UInt64).toNat = 5 := rfl
  have ten : (10 : UInt64).toNat = 10 := rfl
  have all : (~~~0 : UInt64).toNat = 18446744073709551615 := rfl
  have below : digit ≤ ~~~0 := by
    rw [UInt64.le_iff_toNat_le, all]
    omega
  simp only [UInt64.lt_iff_toNat_lt, ← UInt64.toNat_inj, UInt64.toNat_div,
    UInt64.toNat_sub_of_le _ _ below, limit, five, ten, all]
  omega

theorem digit_toNat {symbol : UInt8} (digit : 48 ≤ symbol ∧ symbol ≤ 57) :
    (symbol - 48).toUInt64.toNat = symbol.toNat - 48 ∧ symbol.toNat ≤ 57 := by
  rw [UInt8.toNat_toUInt64, UInt8.toNat_sub_of_le _ _ digit.1]
  exact ⟨rfl, UInt8.le_iff_toNat_le.1 digit.2⟩

theorem gmStoreNumberLoop_iff (text : List UInt8) (value : UInt64)
    (seen : Nat) (result : UInt64) :
    gmStoreNumberLoop text value seen = some result ↔
      (cString text).all isDigit ∧ (seen ≠ 0 ∨ cString text ≠ []) ∧
        decimalFrom value.toNat (cString text) = result.toNat := by
  induction text generalizing value seen with
  | nil =>
    by_cases none : seen = 0 <;>
      simp [gmStoreNumberLoop, none, cString, decimalFrom, UInt64.toNat_inj]
  | cons symbol rest induction =>
    unfold gmStoreNumberLoop
    by_cases nul : symbol = 0
    · subst nul
      by_cases none : seen = 0 <;>
        simp [none, cString, decimalFrom, UInt64.toNat_inj]
    have text : cString (symbol :: rest) = symbol :: cString rest := by
      simp [cString, nul]
    by_cases digit : 48 ≤ symbol ∧ symbol ≤ 57
    · obtain ⟨worth, high⟩ := digit_toNat digit
      have least := le_decimalFrom (value.toNat * 10 + (symbol.toNat - 48))
        (cString rest)
      have value64 := result.toNat_lt
      rw [if_pos digit, text]
      dsimp only
      rcases gmStoreNumber_digit value (symbol - 48).toUInt64 (by omega) with
        ⟨beyond, large⟩ | ⟨fits, next⟩
      · rw [if_pos beyond]
        refine ⟨nofun, fun ⟨_, _, same⟩ => ?_⟩
        rw [decimalFrom, List.foldl_cons, ← decimalFrom] at same
        omega
      · rw [if_neg fits, induction, next, worth]
        simp [isDigit, digit, decimalFrom]
    · have other : isDigit symbol = false := by simpa [isDigit] using digit
      simp [digit, nul, text, other]

theorem gmStoreNumber_iff (text : List UInt8) (value : UInt64) :
    gmStoreNumber text = some value ↔
      PlainDecimal (cString text) value.toNat := by
  rw [gmStoreNumber, gmStoreNumberLoop_iff]
  constructor
  · rintro ⟨digits, seen, worth⟩
    exact ⟨by simpa using seen, List.all_eq_true.1 digits, worth⟩
  · rintro ⟨nonempty, digits, worth⟩
    exact ⟨List.all_eq_true.2 digits, .inr nonempty, worth⟩

/-- Behind the first digit the loop of the shell is the loop of the client. -/
theorem gmDecimalLoop_eq (text : List UInt8) (value : UInt64) (seen : Nat) :
    gmDecimalLoop text value = gmStoreNumberLoop text value (seen + 1) := by
  induction text generalizing value seen with
  | nil => simp [gmDecimalLoop, gmStoreNumberLoop]
  | cons symbol rest induction =>
    unfold gmDecimalLoop gmStoreNumberLoop
    by_cases digit : 48 ≤ symbol ∧ symbol ≤ 57
    · obtain ⟨worth, high⟩ := digit_toNat digit
      have nul : symbol ≠ 0 := by
        rintro rfl
        exact absurd digit.1 (by decide)
      simp only [digit, nul, UInt8.not_lt.2 digit.1, UInt8.not_lt.2 digit.2,
        or_self, if_false, and_self, if_true,
        gmDecimal_guard value (symbol - 48).toUInt64 (by omega),
        induction _ (seen + 1)]
    · have other : symbol < 48 ∨ 57 < symbol := by
        simpa only [← UInt8.not_le, ← not_and_or] using digit
      by_cases nul : symbol = 0 <;> simp [digit, other, nul]

theorem gmDecimal_eq (text : List UInt8) :
    gmDecimal text = gmStoreNumber text := by
  unfold gmDecimal
  by_cases empty : cString text = []
  · rw [if_pos empty]
    cases read : gmStoreNumber text with
    | none => rfl
    | some value =>
      exact absurd empty ((gmStoreNumber_iff text value).1 read).nonempty
  · rw [if_neg empty]
    apply Option.ext
    intro value
    rw [gmDecimalLoop_eq text 0 0, gmStoreNumber, gmStoreNumberLoop_iff,
      gmStoreNumberLoop_iff]
    simp [empty]

/-- `gm_parse_u64` reads the digits in front as the client reads a line of
them. -/
theorem gmParseU64Loop_iff (text : List UInt8) (value : UInt64) (seen : Nat)
    (number : UInt64) :
    gmParseU64Loop text value seen = (number, true) ↔
      gmStoreNumberLoop (text.takeWhile isDigit) value seen = some number := by
  induction text generalizing value seen with
  | nil =>
    by_cases none : seen = 0 <;> simp [gmParseU64Loop, gmStoreNumberLoop, none]
  | cons symbol rest induction =>
    unfold gmParseU64Loop
    by_cases digit : 48 ≤ symbol ∧ symbol ≤ 57
    · have front : isDigit symbol = true := by simpa [isDigit] using digit
      rw [if_pos digit, List.takeWhile_cons_of_pos front, gmStoreNumberLoop,
        if_pos digit]
      dsimp only
      split
      · simp
      · exact induction _ _
    · have other : isDigit symbol = false := by simpa [isDigit] using digit
      by_cases none : seen = 0 <;>
        simp [digit, other, gmStoreNumberLoop, none]

theorem gmParseU64_iff (text : List UInt8) (value : UInt64) :
    gmParseU64 text = (value, true) ↔
      PlainDecimal (text.takeWhile isDigit) value.toNat := by
  rw [gmParseU64, gmParseU64Loop_iff, ← gmStoreNumber, gmStoreNumber_iff,
    cString_digits fun symbol => List.mem_takeWhile_imp]

/-- The readers agree on every text and give back what the writer wrote. -/
theorem decimals_agree (text : List UInt8) (value : UInt64) :
    (gmStoreNumber text = some value ↔
        PlainDecimal (cString text) value.toNat) ∧
      (gmDecimal text = some value ↔
        PlainDecimal (cString text) value.toNat) ∧
      (gmParseU64 text = (value, true) ↔
        PlainDecimal (text.takeWhile isDigit) value.toNat) ∧
      (gmStoreDec value).length ≤ 20 ∧
      ((gmStoreDec value).head? = some 48 → gmStoreDec value = [48]) ∧
      gmStoreNumber (gmStoreDec value) = some value ∧
      gmDecimal (gmStoreDec value) = some value := by
  have short := gmStoreDec_short value
  have back : gmStoreNumber (gmStoreDec value) = some value := by
    rw [gmStoreNumber_iff, cString_digits short.digits]
    exact short.toPlainDecimal
  have length : (gmStoreDec value).length ≤ 20 :=
    gmStoreDec_length (Nat.lt_trans value.toNat_lt (by decide))
  simp only [gmDecimal_eq]
  exact ⟨gmStoreNumber_iff text value, gmStoreNumber_iff text value,
    gmParseU64_iff text value, length, short.lead, back, back⟩

end Gmker
