import Mathlib.Algebra.Order.Field.Rat
import LoadBalance.Lib.IStream

/-!
# Decimal numbers with a fraction

What is read for a floating point number: a sign, digits with a point among them, and a
power of ten. The digits behind an `e` belong to the number even if there are none, and
then it is not a number. The range of the type into which a number is read plays no part.
-/

namespace Scientific

open Decimal

/-- A number cut off a text. The exponent is its sign and its digits. -/
structure Numeral where
  negative : Bool
  whole : List Char
  fraction : List Char
  exponent : Option (Bool × List Char)
  rest : List Char
deriving DecidableEq

/-- The digits behind a point, and what is left. -/
def fraction : List Char → List Char × List Char
  | [] => ([], [])
  | char :: text =>
      if char = '.' then (text.takeWhile Char.isDigit, text.dropWhile Char.isDigit)
      else ([], char :: text)

/-- The power of ten, and what is left. -/
def exponent : List Char → Option (Bool × List Char) × List Char
  | [] => (none, [])
  | char :: text =>
      if char = 'e' ∨ char = 'E' then
        (some ((unsign text).1, (unsign text).2.takeWhile Char.isDigit),
          (unsign text).2.dropWhile Char.isDigit)
      else (none, char :: text)

/-- The longest beginning of a text which can belong to a number. -/
def numeral (text : List Char) : Numeral :=
  let whole := (unsign text).2.takeWhile Char.isDigit
  let point := fraction ((unsign text).2.dropWhile Char.isDigit)
  let power := if whole ++ point.1 = [] then (none, point.2) else exponent point.2
  { negative := (unsign text).1
    whole := whole
    fraction := point.1
    exponent := power.1
    rest := power.2 }

namespace Numeral

variable {numeral : Numeral}

/-- There are digits, also in the exponent if there is one. -/
def WellFormed (numeral : Numeral) : Prop :=
  numeral.whole ++ numeral.fraction ≠ [] ∧ ∀ power ∈ numeral.exponent, power.2 ≠ []

instance (numeral : Numeral) : Decidable numeral.WellFormed :=
  inferInstanceAs (Decidable (_ ∧ _))

def power (numeral : Numeral) : ℤ :=
  match numeral.exponent with
  | none => 0
  | some (negative, digits) =>
      if negative then -(Nat.ofDigitChars 10 digits 0 : ℤ) else Nat.ofDigitChars 10 digits 0

def value (numeral : Numeral) : ℚ :=
  (if numeral.negative then -1 else 1) *
    (Nat.ofDigitChars 10 (numeral.whole ++ numeral.fraction) 0 : ℚ) *
    10 ^ (numeral.power - numeral.fraction.length)

/-- No part of a number follows. -/
def Stops (text : List Char) : Prop :=
  ∀ char ∈ text.head?, char.isDigit = false ∧ char ≠ '.' ∧ char ≠ 'e' ∧ char ≠ 'E'

def pointText (fraction : List Char) : List Char :=
  if fraction = [] then [] else '.' :: fraction

def powerText : Option (Bool × List Char) → List Char
  | none => []
  | some (negative, digits) => 'e' :: (if negative then '-' else '+') :: digits

/-- The number in front of what is left. -/
def text (numeral : Numeral) : List Char :=
  (if numeral.negative then ['-'] else []) ++ (numeral.whole ++
    (pointText numeral.fraction ++ (powerText numeral.exponent ++ numeral.rest)))

/-- What can be printed and read back. -/
structure Printed (numeral : Numeral) : Prop where
  some : numeral.whole ≠ []
  whole : ∀ char ∈ numeral.whole, char.isDigit = true
  fraction : ∀ char ∈ numeral.fraction, char.isDigit = true
  exponent : ∀ power ∈ numeral.exponent, power.2 ≠ [] ∧ ∀ char ∈ power.2, char.isDigit = true
  ends : Stops numeral.rest

theorem Printed.wellFormed (printed : numeral.Printed) : numeral.WellFormed :=
  ⟨List.append_ne_nil_of_left_ne_nil printed.some _,
    fun power powerMem => (printed.exponent power powerMem).1⟩

end Numeral

section Parts

open Numeral

variable {rest : List Char}

theorem head_powerText_append {power : Option (Bool × List Char)} (ends : Stops rest) :
    ∀ char ∈ (powerText power ++ rest).head?, char.isDigit = false ∧ char ≠ '.' := by
  intro char charMem
  cases power with
  | none => exact ⟨(ends char charMem).1, (ends char charMem).2.1⟩
  | some power =>
      cases charMem
      exact ⟨rfl, by decide⟩

theorem exponent_powerText_append {power : Option (Bool × List Char)}
    (digits : ∀ pair ∈ power, ∀ char ∈ pair.2, char.isDigit = true) (ends : Stops rest) :
    exponent (powerText power ++ rest) = (power, rest) := by
  cases power with
  | none =>
      cases rest with
      | nil => rfl
      | cons char rest =>
          have apart := (ends char rfl).2.2
          simp only [powerText, List.nil_append, exponent]
          rw [if_neg (not_or.mpr apart)]
  | some power =>
      have stop : ∀ char ∈ rest.head?, char.isDigit = false :=
        fun char charMem => (ends char charMem).1
      have taken := takeWhile_append_of_stop (digits power rfl) stop
      have dropped := dropWhile_append_of_stop (digits power rfl) stop
      rcases power with ⟨negative, digits⟩
      cases negative with
      | true => simp [powerText, exponent, unsign, taken, dropped]
      | false => simp [powerText, exponent, unsign, taken, dropped]

theorem head_pointText_append {digits : List Char}
    (stop : ∀ char ∈ rest.head?, char.isDigit = false ∧ char ≠ '.') :
    ∀ char ∈ (pointText digits ++ rest).head?, char.isDigit = false := by
  intro char charMem
  rw [pointText] at charMem
  split at charMem
  · exact (stop char charMem).1
  · cases charMem
    rfl

theorem fraction_pointText_append {digits : List Char}
    (isDigits : ∀ char ∈ digits, char.isDigit = true)
    (stop : ∀ char ∈ rest.head?, char.isDigit = false ∧ char ≠ '.') :
    fraction (pointText digits ++ rest) = (digits, rest) := by
  rw [pointText]
  split
  · rename_i none
    cases rest with
    | nil => rw [none]; rfl
    | cons char rest => simp [fraction, none, (stop char rfl).2]
  · have behind : ∀ char ∈ rest.head?, char.isDigit = false :=
      fun char charMem => (stop char charMem).1
    simp [fraction, takeWhile_append_of_stop isDigits behind,
      dropWhile_append_of_stop isDigits behind]

end Parts

/-- A printed number is read back. -/
theorem numeral_text {printed : Numeral} (isPrinted : printed.Printed) :
    numeral printed.text = printed := by
  rcases printed with ⟨negative, whole, digits, power, rest⟩
  rcases isPrinted with ⟨nonempty, isWhole, isFraction, isExponent, stops⟩
  have stop := @head_powerText_append rest power stops
  have cut := exponent_powerText_append (fun pair pairMem => (isExponent pair pairMem).2) stops
  have point := fraction_pointText_append isFraction stop
  have behind := @head_pointText_append _ digits stop
  have taken := takeWhile_append_of_stop isWhole behind
  have dropped := dropWhile_append_of_stop isWhole behind
  have unsigned : unsign (Numeral.text ⟨negative, whole, digits, power, rest⟩) = (negative,
      whole ++ (Numeral.pointText digits ++ (Numeral.powerText power ++ rest))) := by
    cases negative with
    | true => rfl
    | false =>
        apply unsign_of_isDigit
        intro char charMem
        change char ∈ (whole ++ _).head? at charMem
        rw [List.head?_append_of_ne_nil _ nonempty] at charMem
        exact isWhole char (List.mem_of_mem_head? charMem)
  have some : whole ++ digits ≠ [] := List.append_ne_nil_of_left_ne_nil nonempty _
  simp only [numeral, unsigned, taken, dropped, point, some, if_false, cut]

end Scientific

namespace IStream

open Decimal

variable {R : Type*}

/-- The conversion to a floating point type. -/
def readFloating (ofRat : ℚ → R) (text : List Char) : R × IStream :=
  let read := Scientific.numeral text
  let atEnd := decide (read.rest = [])
  if read.WellFormed then (ofRat read.value, ⟨read.rest, atEnd, false⟩)
  else (ofRat 0, ⟨read.rest, atEnd, true⟩)

/-- `>>` into a `double`, for the conversion of a number to it -/
def floating (ofRat : ℚ → R) : R → IStream → R × IStream := extract (readFloating ofRat)

theorem head_text {printed : Scientific.Numeral} (isPrinted : printed.Printed) :
    ∀ char ∈ printed.text.head?, isSpace char = false := by
  intro char charMem
  rw [Scientific.Numeral.text] at charMem
  split at charMem
  · cases charMem
    rfl
  · rw [List.nil_append, List.head?_append_of_ne_nil _ isPrinted.some] at charMem
    exact not_isSpace_of_isDigit (isPrinted.whole char (List.mem_of_mem_head? charMem))

/-- A number is read whatever follows it. -/
theorem floating_text (ofRat : ℚ → R) {printed : Scientific.Numeral}
    (isPrinted : printed.Printed) (old : R) :
    floating ofRat old (ofText printed.text) =
      (ofRat printed.value, ⟨printed.rest, decide (printed.rest = []), false⟩) := by
  have skipped : dropSpace printed.text = printed.text :=
    dropSpace_append (List.forall_mem_nil _) (head_text isPrinted)
  have nonempty : printed.text ≠ [] := by
    rw [Scientific.Numeral.text]
    apply List.append_ne_nil_of_right_ne_nil
    exact List.append_ne_nil_of_left_ne_nil isPrinted.some _
  rw [floating, extract_of_text (by rwa [skipped]), skipped, readFloating,
    Scientific.numeral_text isPrinted]
  exact if_pos isPrinted.wellFormed

end IStream
