import Mathlib.Data.List.TakeWhile
import LoadBalance.Lib.Decimal

/-!
# Formatted input from a stream

`fscanf` with conversions of integers only, on a stream of which a part is there. White
space in front of a number is skipped. A number ends at the first byte which does not
belong to it; this byte is pushed back, but it has to be there, so that a call waits for it
unless the stream has ended.
-/

namespace Scan

open Decimal

/-- One conversion: `none` while it waits, else the number, if there is one, and what is left. -/
def number (eof : Bool) (text : List Char) : Option (Option ℤ × List Char) :=
  let read := numeral (dropSpace text)
  if read.rest = [] ∧ eof = false then none
  else if read.digits = [] then some (none, read.rest)
  else some (some read.value, read.rest)

/-- Several conversions, up to the first which does not find a number. -/
def numbers (eof : Bool) : ℕ → List Char → Option (List ℤ × List Char)
  | 0, text => some ([], text)
  | count + 1, text =>
      match number eof text with
      | none => none
      | some (none, rest) => some ([], rest)
      | some (some value, rest) =>
          (numbers eof count rest).map fun (values, rest) => (value :: values, rest)

/-- A line of `printf` with a blank between two numbers. -/
def line : List ℤ → List Char
  | [] => ['\n']
  | [value] => print value ++ ['\n']
  | value :: next :: values => print value ++ ' ' :: line (next :: values)

theorem number_print_append (eof : Bool) (value : ℤ) {space rest : List Char}
    (isBlank : ∀ char ∈ space, isSpace char = true) (ends : Ends rest) (more : rest ≠ []) :
    number eof (space ++ (print value ++ rest)) = some (some value, rest) := by
  have skipped := dropSpace_append isBlank (@head_print_append value rest)
  simp only [number, skipped, numeral_print_append value ends, value_printed, more, false_and,
    if_false, Nat.toDigits_ne_nil]

/-- A line is read back, up to its end, which is left to the next call. -/
theorem numbers_line_append (eof : Bool) {values : List ℤ} (nonempty : values ≠ [])
    {space more : List Char} (isBlank : ∀ char ∈ space, isSpace char = true) :
    numbers eof values.length (space ++ (line values ++ more)) = some (values, '\n' :: more) := by
  induction values generalizing space with
  | nil => exact absurd rfl nonempty
  | cons value values ih =>
      cases values with
      | nil =>
          have ends : Ends ('\n' :: more) := ends_cons rfl more
          have read := number_print_append eof value isBlank ends (List.cons_ne_nil _ _)
          rw [line, List.append_assoc, List.singleton_append, List.length_singleton, numbers, read]
          rfl
      | cons next values =>
          have ends : Ends (' ' :: (line (next :: values) ++ more)) := ends_cons rfl _
          have read := number_print_append eof value isBlank ends (List.cons_ne_nil _ _)
          have rest := @ih (List.cons_ne_nil _ _) [' '] (List.forall_mem_singleton.mpr rfl)
          rw [List.singleton_append] at rest
          rw [line, List.append_assoc, List.cons_append, List.length_cons, numbers, read]
          simp only [rest, Option.map_some]

/-- Nothing but white space: the next number has not come yet. -/
theorem number_of_blank {text : List Char} (isBlank : ∀ char ∈ text, isSpace char = true) :
    number false text = none := by
  have nothing : dropSpace text = [] := List.dropWhile_eq_nil_iff.mpr isBlank
  rw [number, nothing]
  rfl

end Scan
