import Mathlib.Data.Int.Log
import Mathlib.Data.List.DropRight
import Mathlib.Data.Rat.Floor
import Mathlib.Tactic.FieldSimp
import Mathlib.Tactic.Linarith
import Mathlib.Tactic.NormNum
import LoadBalance.Lib.Scientific

/-!
# Numbers with six significant digits

`%g`, which is also how `<<` prints a floating point number. A number is rounded to six
digits, half of the last one to the even digit. It is printed with a power of ten if it is
below 0.0001 or has more than six digits in front of the point, and without the zeros at
its end. What is read back differs from the number by no more than 1 in 200000.
-/

namespace Scientific

open Decimal

/-- The nearest integer, of two the even one. -/
def roundEven (value : ℚ) : ℤ :=
  if value - ⌊value⌋ < 1 / 2 then ⌊value⌋
  else if 1 / 2 < value - ⌊value⌋ then ⌊value⌋ + 1
  else if ⌊value⌋ % 2 = 0 then ⌊value⌋ else ⌊value⌋ + 1

/-- Six digits, as an integer, and the power of ten of the first of them. -/
structure Rounded where
  significand : ℕ
  exponent : ℤ

def Rounded.value (rounded : Rounded) : ℚ := rounded.significand * 10 ^ (rounded.exponent - 5)

def round (value : ℚ) : Rounded :=
  let exponent := Int.log 10 value
  let significand := (roundEven (value / 10 ^ (exponent - 5))).toNat
  if significand = 10 ^ 6 then ⟨10 ^ 5, exponent + 1⟩ else ⟨significand, exponent⟩

/-- The digits of a fraction without the zeros at the end. -/
def strip (digits : List Char) : List Char := digits.rdropWhile fun char => char = '0'

/-- An exponent has two digits at least. -/
def exponentDigits (exponent : ℕ) : List Char :=
  if exponent < 10 then '0' :: Nat.toDigits 10 exponent else Nat.toDigits 10 exponent

def general (value : ℚ) : Numeral :=
  if value = 0 then ⟨false, ['0'], [], none, []⟩
  else
    let rounded := round |value|
    let digits := Nat.toDigits 10 rounded.significand
    let negative := decide (value < 0)
    if rounded.exponent < -4 ∨ 6 ≤ rounded.exponent then
      ⟨negative, digits.take 1, strip (digits.drop 1),
        some (decide (rounded.exponent < 0), exponentDigits rounded.exponent.natAbs), []⟩
    else if rounded.exponent < 0 then
      ⟨negative, ['0'], strip (List.replicate (rounded.exponent.natAbs - 1) '0' ++ digits), none,
        []⟩
    else
      ⟨negative, digits.take (rounded.exponent.toNat + 1),
        strip (digits.drop (rounded.exponent.toNat + 1)), none, []⟩

/-- `%g` -/
def print (value : ℚ) : List Char := (general value).text

example : [0, 100, -25 / 2, 1 / 3, 2 / 3000000, 123456789, 999999 / 1000000].map print =
    ["0", "100", "-12.5", "0.333333", "6.66667e-07", "1.23457e+08", "0.999999"].map
      String.toList := by decide +kernel

theorem abs_roundEven_sub_le (value : ℚ) : |(roundEven value : ℚ) - value| ≤ 1 / 2 := by
  have below := Int.floor_le value
  have above := Int.lt_floor_add_one value
  rw [abs_le, roundEven]
  split
  · constructor <;> linarith
  · split
    · push_cast
      constructor <;> linarith
    · split
      · constructor <;> linarith
      · push_cast
        constructor <;> linarith

section Rounding

variable {value : ℚ}

theorem zpow_five (exponent : ℤ) : (10 : ℚ) ^ exponent = 10 ^ (exponent - 5) * 10 ^ (5 : ℕ) := by
  rw [← zpow_natCast, ← zpow_add₀ (by norm_num)]
  congr 1
  omega

/-- Of a positive number, six digits are rounded up to the next power of ten at most. -/
theorem roundEven_bounds (positive : 0 < value) :
    10 ^ 5 ≤ roundEven (value / 10 ^ (Int.log 10 value - 5)) ∧
      roundEven (value / 10 ^ (Int.log 10 value - 5)) ≤ 10 ^ 6 := by
  have unit : (0 : ℚ) < 10 ^ (Int.log 10 value - 5) := zpow_pos (by norm_num) _
  have low : (10 : ℚ) ^ Int.log 10 value ≤ value := Int.zpow_log_le_self (by norm_num) positive
  have high : value < (10 : ℚ) ^ (Int.log 10 value + 1) :=
    Int.lt_zpow_succ_log_self (by norm_num) value
  rw [zpow_add_one₀ (by norm_num)] at high
  rw [zpow_five] at low high
  have lowQuotient : (10 : ℚ) ^ 5 ≤ value / 10 ^ (Int.log 10 value - 5) := by
    rw [le_div_iff₀ unit]
    linarith
  have highQuotient : value / 10 ^ (Int.log 10 value - 5) < (10 : ℚ) ^ 6 := by
    rw [div_lt_iff₀ unit]
    linarith
  have near := abs_le.mp (abs_roundEven_sub_le (value / 10 ^ (Int.log 10 value - 5)))
  constructor
  · have strict : ((10 ^ 5 - 1 : ℤ) : ℚ) <
        roundEven (value / 10 ^ (Int.log 10 value - 5)) := by
      push_cast
      linarith [near.1]
    have above := Int.cast_lt.mp strict
    omega
  · have strict : (roundEven (value / 10 ^ (Int.log 10 value - 5)) : ℚ) <
        ((10 ^ 6 + 1 : ℤ) : ℚ) := by
      push_cast
      linarith [near.2]
    have below := Int.cast_lt.mp strict
    omega

/-- What is rounded up to seven digits is a power of ten. -/
theorem value_round (positive : 0 < value) :
    (round value).value = roundEven (value / 10 ^ (Int.log 10 value - 5)) *
      10 ^ (Int.log 10 value - 5) := by
  have bounds := roundEven_bounds positive
  have cast : ((roundEven (value / 10 ^ (Int.log 10 value - 5))).toNat : ℚ) =
      roundEven (value / 10 ^ (Int.log 10 value - 5)) := by
    have whole := Int.toNat_of_nonneg (a := roundEven (value / 10 ^ (Int.log 10 value - 5)))
      (by omega)
    exact_mod_cast congrArg (Int.cast : ℤ → ℚ) whole
  rw [Rounded.value, round]
  split
  · rename_i carry
    rw [← cast, carry]
    have next : Int.log 10 value + 1 - 5 = Int.log 10 value - 5 + 1 := by omega
    simp only [next]
    rw [zpow_add_one₀ (by norm_num)]
    push_cast
    ring
  · rw [← cast]

theorem significand_round (positive : 0 < value) :
    10 ^ 5 ≤ (round value).significand ∧ (round value).significand < 10 ^ 6 := by
  have bounds := roundEven_bounds positive
  rw [round]
  split
  · exact ⟨le_refl _, by norm_num⟩
  · rename_i noCarry
    simp only
    omega

theorem abs_value_round_sub_le (positive : 0 < value) :
    |(round value).value - value| ≤ value / 200000 := by
  have unit : (0 : ℚ) < 10 ^ (Int.log 10 value - 5) := zpow_pos (by norm_num) _
  have low : (10 : ℚ) ^ Int.log 10 value ≤ value := Int.zpow_log_le_self (by norm_num) positive
  rw [zpow_five] at low
  have near := abs_roundEven_sub_le (value / 10 ^ (Int.log 10 value - 5))
  have scaled : (round value).value - value =
      (roundEven (value / 10 ^ (Int.log 10 value - 5)) -
        value / 10 ^ (Int.log 10 value - 5)) * 10 ^ (Int.log 10 value - 5) := by
    rw [value_round positive, sub_mul, div_mul_cancel₀ _ (ne_of_gt unit)]
  rw [scaled, abs_mul, abs_of_pos unit]
  calc _ ≤ 1 / 2 * (10 : ℚ) ^ (Int.log 10 value - 5) :=
        mul_le_mul_of_nonneg_right near (le_of_lt unit)
    _ ≤ value / 200000 := by linarith

end Rounding

section Digits

variable {whole digits : List Char}

/-- The number which these digits stand for, with a point between them. -/
def mantissa (whole fraction : List Char) : ℚ :=
  (Nat.ofDigitChars 10 (whole ++ fraction) 0 : ℚ) * 10 ^ (-(fraction.length : ℤ))

theorem Numeral.value_eq (numeral : Numeral) :
    numeral.value = (if numeral.negative then -1 else 1) *
      mantissa numeral.whole numeral.fraction * 10 ^ numeral.power := by
  have split : (10 : ℚ) ^ (numeral.power - numeral.fraction.length) =
      10 ^ (-(numeral.fraction.length : ℤ)) * 10 ^ numeral.power := by
    rw [← zpow_add₀ (by norm_num)]
    congr 1
    omega
  rw [Numeral.value, split, mantissa]
  ring

theorem strip_append_zeros (digits : List Char) :
    ∃ count, digits = strip digits ++ List.replicate count '0' := by
  refine ⟨(digits.rtakeWhile fun char => char = '0').length, ?_⟩
  have zeros : digits.rtakeWhile (fun char => char = '0') =
      List.replicate (digits.rtakeWhile fun char => char = '0').length '0' := by
    apply List.eq_replicate_of_mem
    intro char charMem
    exact of_decide_eq_true (@List.mem_rtakeWhile_imp _ (fun char => decide (char = '0')) _ _
      charMem)
  rw [← zeros]
  exact List.rdropWhile_append_rtakeWhile.symm

theorem mem_of_mem_strip {char : Char} (charMem : char ∈ strip digits) : char ∈ digits :=
  (List.rdropWhile_prefix (fun char => char = '0') digits).subset charMem

/-- The zeros at the end of a fraction do not count. -/
theorem mantissa_strip (whole digits : List Char) :
    mantissa whole (strip digits) = mantissa whole digits := by
  rcases strip_append_zeros digits with ⟨count, split⟩
  generalize strip digits = kept at split
  subst split
  have power : (10 : ℚ) ^ (-((kept.length + count : ℕ) : ℤ)) * 10 ^ count =
      10 ^ (-(kept.length : ℤ)) := by
    rw [← zpow_natCast, ← zpow_add₀ (by norm_num)]
    congr 1
    push_cast
    omega
  rw [mantissa, mantissa, ← List.append_assoc, @Nat.ofDigitChars_append _ (whole ++ kept),
    Nat.ofDigitChars_replicate_zero, List.length_append, List.length_replicate, ← power]
  push_cast
  ring

theorem mantissa_of_append {fraction : List Char} {number : ℕ}
    (split : Nat.ofDigitChars 10 (whole ++ fraction) 0 = number) :
    mantissa whole (strip fraction) = number * 10 ^ (-(fraction.length : ℤ)) := by
  rw [mantissa_strip, mantissa, split]

theorem ofDigitChars_exponentDigits (exponent : ℕ) :
    Nat.ofDigitChars 10 (exponentDigits exponent) 0 = exponent := by
  rw [exponentDigits]
  split
  · rw [Nat.ofDigitChars_cons]
    exact Nat.ofDigitChars_ten_toDigits
  · exact Nat.ofDigitChars_ten_toDigits

theorem isDigit_of_mem_exponentDigits {exponent : ℕ} {char : Char}
    (charMem : char ∈ exponentDigits exponent) : char.isDigit = true := by
  rw [exponentDigits] at charMem
  split at charMem
  · rcases List.mem_cons.mp charMem with rfl | charMem
    · rfl
    · exact isDigit_of_mem_toDigits charMem
  · exact isDigit_of_mem_toDigits charMem

end Digits

section General

variable {value : ℚ}

/-- Six digits are printed, as many as there are in the significand. -/
theorem length_digits (nonzero : value ≠ 0) :
    (Nat.toDigits 10 (round |value|).significand).length = 6 := by
  have bounds := significand_round (abs_pos.mpr nonzero)
  have most := (Nat.length_toDigits_le_iff (b := 10) (by decide) (by decide : 0 < 6)).mpr bounds.2
  have least := (Nat.length_toDigits_le_iff (b := 10) (n := (round |value|).significand)
    (by decide) (by decide : 0 < 5)).not.mpr (not_lt.mpr bounds.1)
  omega

theorem general_printed (value : ℚ) : (general value).Printed := by
  rw [general]
  split
  · constructor <;> simp [Numeral.Stops]
  · rename_i nonzero
    have length := length_digits nonzero
    have digits : ∀ char ∈ Nat.toDigits 10 (round |value|).significand, char.isDigit = true :=
      fun char => isDigit_of_mem_toDigits
    simp only
    split
    · constructor
      case some =>
        intro none
        have empty := congrArg List.length none
        simp only [List.length_take, length, List.length_nil] at empty
        omega
      case whole => exact fun char charMem => digits char (List.mem_of_mem_take charMem)
      case fraction =>
        exact fun char charMem => digits char (List.mem_of_mem_drop (mem_of_mem_strip charMem))
      case exponent =>
        rintro _ ⟨⟩
        refine ⟨?_, fun char => isDigit_of_mem_exponentDigits⟩
        simp only [exponentDigits]
        split
        · exact List.cons_ne_nil _ _
        · exact Nat.toDigits_ne_nil
      case ends => simp [Numeral.Stops]
    · split
      · constructor
        case some => exact List.cons_ne_nil _ _
        case whole => simp
        case fraction =>
          intro char charMem
          rcases List.mem_append.mp (mem_of_mem_strip charMem) with zero | charMem
          · rw [List.eq_of_mem_replicate zero]
            rfl
          · exact digits char charMem
        case exponent => simp
        case ends => simp [Numeral.Stops]
      · constructor
        case some =>
          intro none
          have empty := congrArg List.length none
          simp only [List.length_take, length, List.length_nil] at empty
          omega
        case whole => exact fun char charMem => digits char (List.mem_of_mem_take charMem)
        case fraction =>
          exact fun char charMem => digits char (List.mem_of_mem_drop (mem_of_mem_strip charMem))
        case exponent => simp
        case ends => simp [Numeral.Stops]

theorem shift_point (sign number : ℚ) {places power exponent : ℤ}
    (sum : -places + power = exponent - 5) :
    sign * (number * 10 ^ (-places)) * 10 ^ power = sign * (number * 10 ^ (exponent - 5)) := by
  rw [← sum, zpow_add₀ (by norm_num)]
  ring

/-- What is printed is the rounded number. -/
theorem value_general (nonzero : value ≠ 0) :
    (general value).value = (if value < 0 then -1 else 1) * (round |value|).value := by
  have length := length_digits nonzero
  have whole : ∀ count, Nat.ofDigitChars 10
      ((Nat.toDigits 10 (round |value|).significand).take count ++
        (Nat.toDigits 10 (round |value|).significand).drop count) 0 =
      (round |value|).significand := by
    intro count
    rw [List.take_append_drop, Nat.ofDigitChars_ten_toDigits]
  rw [Numeral.value_eq, general, if_neg nonzero, Rounded.value]
  simp only
  split
  · have power : (if (round |value|).exponent < 0 then
        -((round |value|).exponent.natAbs : ℤ) else (round |value|).exponent.natAbs) =
          (round |value|).exponent := by
      split
      · omega
      · omega
    simp only [mantissa_of_append (whole 1), List.length_drop, length, Numeral.power,
      ofDigitChars_exponentDigits, decide_eq_true_eq, power]
    exact shift_point _ _ (by omega)
  · rename_i small
    split
    · rename_i negative
      have zeros : Nat.ofDigitChars 10 (['0'] ++
          (List.replicate ((round |value|).exponent.natAbs - 1) '0' ++
            Nat.toDigits 10 (round |value|).significand)) 0 = (round |value|).significand := by
        rw [List.singleton_append, Nat.ofDigitChars_cons, Nat.ofDigitChars_append,
          Nat.ofDigitChars_replicate_zero]
        exact Nat.ofDigitChars_ten_toDigits
      simp only [mantissa_of_append zeros, List.length_append, List.length_replicate, length,
        Numeral.power, decide_eq_true_eq]
      exact shift_point _ _ (by omega)
    · simp only [mantissa_of_append (whole _), List.length_drop, length, Numeral.power,
        decide_eq_true_eq]
      exact shift_point _ _ (by omega)

/-- Printed with six digits, a number changes by no more than 1 in 200000. -/
theorem abs_value_general_sub_le (value : ℚ) :
    |(general value).value - value| ≤ |value| / 200000 := by
  by_cases zero : value = 0
  · subst zero
    simp [general, Numeral.value, Numeral.power, Nat.ofDigitChars]
  · have near := abs_value_round_sub_le (abs_pos.mpr zero)
    rw [value_general zero]
    by_cases negative : value < 0
    · rw [abs_of_neg negative] at near ⊢
      have turned : (-1 : ℚ) * (round (-value)).value - value =
          -((round (-value)).value - -value) := by ring
      rw [if_pos negative, turned, abs_neg]
      exact near
    · have positive := le_of_not_gt negative
      rw [abs_of_nonneg positive] at near ⊢
      rw [if_neg negative, one_mul]
      exact near

/-- No mark other than these stands in a printed number. -/
theorem mem_print {char : Char} (charMem : char ∈ print value) :
    char.isDigit = true ∨ char ∈ ['-', '+', '.', 'e'] := by
  have printed := general_printed value
  have rest : (general value).rest = [] := by
    rw [general]
    split
    · rfl
    · simp only
      split
      · rfl
      · split <;> rfl
  rw [print, Numeral.text, rest] at charMem
  simp only [List.mem_append, List.not_mem_nil, or_false] at charMem
  rcases charMem with sign | whole | point | power
  · split at sign
    · simp only [List.mem_singleton] at sign
      simp [sign]
    · cases sign
  · exact .inl (printed.whole char whole)
  · rw [Numeral.pointText] at point
    split at point
    · cases point
    · rcases List.mem_cons.mp point with rfl | digit
      · simp
      · exact .inl (printed.fraction char digit)
  · cases exponent : (general value).exponent with
    | none =>
        rw [exponent] at power
        cases power
    | some pair =>
        rw [exponent] at power
        rcases pair with ⟨negative, digits⟩
        simp only [Numeral.powerText, List.mem_cons] at power
        rcases power with rfl | rfl | digit
        · simp
        · cases negative <;> simp
        · exact .inl ((printed.exponent _ exponent).2 char digit)

end General

end Scientific
