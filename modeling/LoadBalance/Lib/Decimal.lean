import Mathlib.Algebra.Order.Ring.Int
import Mathlib.Data.List.Basic

/-!
# Decimal numbers in a text

Integers are printed with a sign if they are negative, and in decimal digits. Read back
is the longest beginning of a text which is an optional sign and digits, so that a
number ends where no digit follows. White space is that of the C locale.
-/

namespace Decimal

/-- `isspace` -/
def isSpace (char : Char) : Bool := char = ' ' || (9 ≤ char.toNat && char.toNat ≤ 13)

def dropSpace (text : List Char) : List Char := text.dropWhile isSpace

/-- An optional sign and the digits behind it, cut off a text. -/
structure Numeral where
  negative : Bool
  digits : List Char
  rest : List Char
deriving DecidableEq

/-- Whether a text starts with a minus sign, and the text behind its sign. -/
def unsign : List Char → Bool × List Char
  | '-' :: text => (true, text)
  | '+' :: text => (false, text)
  | text => (false, text)

def numeral (text : List Char) : Numeral where
  negative := (unsign text).1
  digits := (unsign text).2.takeWhile Char.isDigit
  rest := (unsign text).2.dropWhile Char.isDigit

def Numeral.value (numeral : Numeral) : ℤ :=
  if numeral.negative then -(Nat.ofDigitChars 10 numeral.digits 0 : ℤ)
  else Nat.ofDigitChars 10 numeral.digits 0

/-- `%d` and its variants for the other types -/
def print (value : ℤ) : List Char :=
  if value < 0 then '-' :: Nat.toDigits 10 value.natAbs else Nat.toDigits 10 value.natAbs

/-- Numbers, each behind a blank. -/
def columns (values : List ℤ) : List Char := values.flatMap fun value => ' ' :: print value

/-- No digit follows. -/
def Ends (text : List Char) : Prop := ∀ char ∈ text.head?, char.isDigit = false

instance (text : List Char) : Decidable (Ends text) :=
  match text with
  | [] => .isTrue nofun
  | char :: rest => decidable_of_iff (char.isDigit = false) (by simp [Ends])

theorem ends_cons {char : Char} (notDigit : char.isDigit = false) (rest : List Char) :
    Ends (char :: rest) := by
  intro first firstMem
  rw [List.head?_cons, Option.mem_some_iff] at firstMem
  rwa [← firstMem]

section Lists

variable {α : Type*} {test : α → Bool} {first second : List α}

theorem takeWhile_append_of_stop (passing : ∀ item ∈ first, test item = true)
    (stop : ∀ item ∈ second.head?, test item = false) :
    (first ++ second).takeWhile test = first := by
  rw [List.takeWhile_append_of_pos passing]
  cases second with
  | nil => exact List.append_nil first
  | cons item rest =>
      have stopped := stop item rfl
      rw [List.takeWhile_cons_of_neg (by simp [stopped]), List.append_nil]

theorem dropWhile_append_of_stop (passing : ∀ item ∈ first, test item = true)
    (stop : ∀ item ∈ second.head?, test item = false) :
    (first ++ second).dropWhile test = second := by
  rw [List.dropWhile_append_of_pos passing]
  cases second with
  | nil => rfl
  | cons item rest =>
      have stopped := stop item rfl
      exact List.dropWhile_cons_of_neg (by simp [stopped])

end Lists

theorem isDigit_of_mem_toDigits {number : ℕ} {char : Char}
    (charMem : char ∈ Nat.toDigits 10 number) : char.isDigit = true :=
  Nat.isDigit_of_mem_toDigits (by decide) (by decide) charMem

theorem not_isSpace_of_isDigit {char : Char} (digit : char.isDigit = true) :
    isSpace char = false := by
  rw [Char.isDigit_iff_toNat] at digit
  have above : 48 ≤ char.toNat := digit.1
  have notSpace : char ≠ ' ' := by
    rintro rfl
    exact absurd above (by decide)
  simp only [isSpace, notSpace, decide_false, Bool.false_or, Bool.and_eq_false_iff,
    decide_eq_false_iff_not]
  omega

theorem not_isSpace_of_isAlpha {char : Char} (letter : char.isAlpha = true) :
    isSpace char = false := by
  have above : 65 ≤ char.toNat := by
    rcases (Bool.or_eq_true char.isUpper char.isLower).mp letter with upper | lower
    · exact (of_decide_eq_true upper).1
    · exact Nat.le_trans (by decide) (of_decide_eq_true (Bool.and_eq_true_iff.mp lower).1)
  have notSpace : char ≠ ' ' := by
    rintro rfl
    exact absurd above (by decide)
  simp only [isSpace, notSpace, decide_false, Bool.false_or, Bool.and_eq_false_iff,
    decide_eq_false_iff_not]
  omega

theorem unsign_of_isDigit {text : List Char} (digit : ∀ char ∈ text.head?, char.isDigit = true) :
    unsign text = (false, text) := by
  cases text with
  | nil => rfl
  | cons char text =>
      have first := digit char rfl
      unfold unsign
      split
      · rename_i equal
        cases equal
        exact absurd first (by decide)
      · rename_i equal
        cases equal
        exact absurd first (by decide)
      · rfl

theorem length_unsign_le (text : List Char) : (unsign text).2.length ≤ text.length := by
  unfold unsign
  split
  · exact Nat.le_succ _
  · exact Nat.le_succ _
  · exact Nat.le_refl _

/-- Digits are taken off the text. -/
theorem length_rest_numeral_lt {text : List Char} (some : (numeral text).digits ≠ []) :
    (numeral text).rest.length < text.length := by
  have parts : (numeral text).digits.length + (numeral text).rest.length =
      (unsign text).2.length := by
    rw [← List.length_append, numeral, List.takeWhile_append_dropWhile]
  have unsigned := length_unsign_le text
  have digits := List.length_pos_iff.mpr some
  omega

/-- A printed number is read back, whatever follows it other than a digit. -/
theorem numeral_print_append (value : ℤ) {rest : List Char} (ends : Ends rest) :
    numeral (print value ++ rest) =
      ⟨decide (value < 0), Nat.toDigits 10 value.natAbs, rest⟩ := by
  have digits : ∀ char ∈ Nat.toDigits 10 value.natAbs, char.isDigit = true :=
    fun char => isDigit_of_mem_toDigits
  have taken := takeWhile_append_of_stop digits ends
  have dropped := dropWhile_append_of_stop digits ends
  by_cases negative : value < 0
  · have unsigned : unsign (print value ++ rest) =
        (true, Nat.toDigits 10 value.natAbs ++ rest) := by
      rw [print, if_pos negative]
      rfl
    simp only [numeral, unsigned, taken, dropped, negative, decide_true]
  · have unsigned : unsign (print value ++ rest) =
        (false, Nat.toDigits 10 value.natAbs ++ rest) := by
      rw [print, if_neg negative]
      apply unsign_of_isDigit
      intro char charMem
      rw [List.head?_append_of_ne_nil _ Nat.toDigits_ne_nil] at charMem
      exact digits char (List.mem_of_mem_head? charMem)
    simp only [numeral, unsigned, taken, dropped, negative, decide_false]

@[simp]
theorem value_printed (value : ℤ) (rest : List Char) :
    Numeral.value ⟨decide (value < 0), Nat.toDigits 10 value.natAbs, rest⟩ = value := by
  simp only [Numeral.value, Nat.ofDigitChars_ten_toDigits, decide_eq_true_eq]
  split
  · omega
  · omega

theorem print_ne_nil (value : ℤ) : print value ≠ [] := by
  rw [print]
  split
  · exact List.cons_ne_nil _ _
  · exact Nat.toDigits_ne_nil

theorem mem_print {value : ℤ} {char : Char} (charMem : char ∈ print value) :
    char = '-' ∨ char.isDigit = true := by
  rw [print] at charMem
  split at charMem
  · rcases List.mem_cons.mp charMem with minus | charMem
    · exact .inl minus
    · exact .inr (isDigit_of_mem_toDigits charMem)
  · exact .inr (isDigit_of_mem_toDigits charMem)

theorem not_isSpace_of_mem_print {value : ℤ} {char : Char} (charMem : char ∈ print value) :
    isSpace char = false := by
  rcases mem_print charMem with rfl | digit
  · rfl
  · exact not_isSpace_of_isDigit digit

theorem mem_columns {values : List ℤ} {char : Char} (charMem : char ∈ columns values) :
    char = ' ' ∨ char = '-' ∨ char.isDigit = true := by
  rcases List.mem_flatMap.mp charMem with ⟨value, _, charMem⟩
  rcases List.mem_cons.mp charMem with blank | charMem
  · exact .inl blank
  · exact .inr (mem_print charMem)

/-- Nothing is skipped in front of a text which does not start with white space. -/
theorem dropSpace_append {space text : List Char} (isBlank : ∀ char ∈ space, isSpace char = true)
    (starts : ∀ char ∈ text.head?, isSpace char = false) : dropSpace (space ++ text) = text :=
  dropWhile_append_of_stop isBlank starts

theorem head_print_append {value : ℤ} {rest : List Char} :
    ∀ char ∈ (print value ++ rest).head?, isSpace char = false := by
  intro char charMem
  rw [List.head?_append_of_ne_nil _ (print_ne_nil value)] at charMem
  exact not_isSpace_of_mem_print (List.mem_of_mem_head? charMem)

theorem columns_cons_append (value : ℤ) (values : List ℤ) (rest : List Char) :
    columns (value :: values) ++ rest = [' '] ++ (print value ++ (columns values ++ rest)) := by
  simp [columns]

theorem ends_columns_append {values : List ℤ} {rest : List Char} (ends : Ends rest) :
    Ends (columns values ++ rest) := by
  cases values with
  | nil => exact ends
  | cons value values => exact ends_cons rfl _

/-- The text is a number and nothing else. -/
def Denotes (text : List Char) (value : ℤ) : Prop :=
  (numeral text).digits ≠ [] ∧ (numeral text).rest = [] ∧ (numeral text).value = value

end Decimal
