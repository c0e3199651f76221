import Mathlib.Data.List.TakeWhile
import LoadBalance.Lib.Decimal

/-!
# Formatted extraction

`>>` of an `istringstream`. The state of a stream is the text which is left, with the bits
for the end of the text and for a failure. An extraction from a stream which is not good,
or in which only white space is left, does not touch its variable. A number which is out of
range is read to its end and the variable gets the nearest bound; what is no number at all
gives zero. The end of the text is noticed when something would have been read behind it.
-/

open Decimal

structure IStream where
  rest : List Char
  eofbit : Bool
  failbit : Bool
deriving DecidableEq, Repr

namespace IStream

/-- A stream which is good, with this text left. -/
def ofText (text : List Char) : IStream where
  rest := text
  eofbit := false
  failbit := false

/-- `>>`: what is in front of every kind of extraction. -/
def extract {α : Type*} (read : List Char → α × IStream) (old : α) (stream : IStream) :
    α × IStream :=
  if stream.eofbit || stream.failbit then (old, { stream with failbit := true })
  else if dropSpace stream.rest = [] then (old, ⟨[], true, true⟩)
  else read (dropSpace stream.rest)

/-- The conversion to an integer type with these bounds. -/
def readInteger (low high : ℤ) (text : List Char) : ℤ × IStream :=
  let read := numeral text
  let atEnd := decide (read.rest = [])
  if read.digits = [] then (0, ⟨read.rest, atEnd, true⟩)
  else if read.value < low then (low, ⟨read.rest, atEnd, true⟩)
  else if high < read.value then (high, ⟨read.rest, atEnd, true⟩)
  else (read.value, ⟨read.rest, atEnd, false⟩)

def notSpace (char : Char) : Bool := !isSpace char

def readWord (text : List Char) : List Char × IStream :=
  let rest := text.dropWhile notSpace
  (text.takeWhile notSpace, ⟨rest, decide (rest = []), false⟩)

def readChar (text : List Char) : Char × IStream := (text.headD ' ', ofText text.tail)

def integer (low high : ℤ) : ℤ → IStream → ℤ × IStream := extract (readInteger low high)

/-- `>>` into a `string` -/
def word : List Char → IStream → List Char × IStream := extract readWord

/-- `>>` into a `char` -/
def char : Char → IStream → Char × IStream := extract readChar

/-- `>>` into an `int` -/
def int : ℤ → IStream → ℤ × IStream := integer (-2 ^ 31) (2 ^ 31 - 1)

/-- `>>` into a `long long` -/
def longLong : ℤ → IStream → ℤ × IStream := integer (-2 ^ 63) (2 ^ 63 - 1)

section Extract

variable {α : Type*} {read : List Char → α × IStream} {old : α} {stream : IStream}

theorem extract_of_failbit (failed : stream.failbit = true) :
    extract read old stream = (old, stream) := by
  rw [extract, if_pos (by rw [failed, Bool.or_true])]
  cases stream
  simp only at failed
  rw [failed]

theorem extract_of_eofbit (ended : stream.eofbit = true) :
    extract read old stream = (old, { stream with failbit := true }) := by
  rw [extract, if_pos (by rw [ended, Bool.true_or])]

theorem extract_of_blank {text : List Char} (blank : dropSpace text = []) :
    extract read old (ofText text) = (old, ⟨[], true, true⟩) := by
  simp [extract, ofText, blank]

theorem extract_of_text {text : List Char} (nonblank : dropSpace text ≠ []) :
    extract read old (ofText text) = read (dropSpace text) := by
  simp [extract, ofText, nonblank]

end Extract

section Failed

variable {low high : ℤ} {rest : List Char} {eofbit : Bool}

@[simp]
theorem integer_failed (old : ℤ) :
    integer low high old ⟨rest, eofbit, true⟩ = (old, ⟨rest, eofbit, true⟩) :=
  extract_of_failbit rfl

end Failed

section Printed

variable {low high value : ℤ} {space rest : List Char}

/-- The white space in front of a number is skipped, and then the number is there. -/
theorem integer_ofText (isBlank : ∀ char ∈ space, isSpace char = true) (old : ℤ) :
    integer low high old (ofText (space ++ (print value ++ rest))) =
      readInteger low high (print value ++ rest) := by
  have skipped : dropSpace (space ++ (print value ++ rest)) = print value ++ rest :=
    dropSpace_append isBlank head_print_append
  have nonblank : dropSpace (space ++ (print value ++ rest)) ≠ [] := by
    rw [skipped]
    exact List.append_ne_nil_of_left_ne_nil (print_ne_nil value) rest
  rw [integer, extract_of_text nonblank, skipped]

theorem integer_print_append (isBlank : ∀ char ∈ space, isSpace char = true) (ends : Ends rest)
    (more : rest ≠ []) (fits : low ≤ value ∧ value ≤ high) (old : ℤ) :
    integer low high old (ofText (space ++ (print value ++ rest))) = (value, ofText rest) := by
  rw [integer_ofText isBlank]
  simp only [readInteger, numeral_print_append value ends, value_printed, Nat.toDigits_ne_nil,
    more, not_lt_of_ge fits.1, not_lt_of_ge fits.2, if_false, decide_false]
  rfl

/-- A number above the range is skipped, and the stream has failed behind it. -/
theorem integer_print_append_of_lt (isBlank : ∀ char ∈ space, isSpace char = true)
    (ends : Ends rest) (more : rest ≠ []) (ordered : low ≤ high) (large : high < value)
    (old : ℤ) :
    integer low high old (ofText (space ++ (print value ++ rest))) =
      (high, ⟨rest, false, true⟩) := by
  have above : ¬value < low := by omega
  rw [integer_ofText isBlank]
  simp only [readInteger, numeral_print_append value ends, value_printed, Nat.toDigits_ne_nil,
    more, above, large, if_false, if_true, decide_false]

section Columns

variable {values : List ℤ}

theorem integer_columns (ends : Ends rest) (more : rest ≠ [])
    (fits : low ≤ value ∧ value ≤ high) (old : ℤ) :
    integer low high old (ofText (columns (value :: values) ++ rest)) =
      (value, ofText (columns values ++ rest)) := by
  have blank : ∀ char ∈ [' '], isSpace char = true := List.forall_mem_singleton.mpr rfl
  rw [columns_cons_append]
  exact integer_print_append blank (ends_columns_append ends)
    (List.append_ne_nil_of_right_ne_nil _ more) fits old

theorem integer_columns_of_lt (ends : Ends rest) (more : rest ≠ []) (ordered : low ≤ high)
    (large : high < value) (old : ℤ) :
    integer low high old (ofText (columns (value :: values) ++ rest)) =
      (high, ⟨columns values ++ rest, false, true⟩) := by
  have blank : ∀ char ∈ [' '], isSpace char = true := List.forall_mem_singleton.mpr rfl
  rw [columns_cons_append]
  exact integer_print_append_of_lt blank (ends_columns_append ends)
    (List.append_ne_nil_of_right_ne_nil _ more) ordered large old

end Columns

theorem word_append {name : List Char} (isBlank : ∀ char ∈ space, isSpace char = true)
    (nonempty : name ≠ []) (isWord : ∀ char ∈ name, isSpace char = false)
    (ends : ∀ char ∈ rest.head?, isSpace char = true) (more : rest ≠ []) (old : List Char) :
    word old (ofText (space ++ (name ++ rest))) = (name, ofText rest) := by
  have skipped : dropSpace (space ++ (name ++ rest)) = name ++ rest := by
    apply dropSpace_append isBlank
    intro char charMem
    rw [List.head?_append_of_ne_nil _ nonempty] at charMem
    exact isWord char (List.mem_of_mem_head? charMem)
  have nonblank : dropSpace (space ++ (name ++ rest)) ≠ [] := by
    rw [skipped]
    exact List.append_ne_nil_of_left_ne_nil nonempty rest
  have passing : ∀ char ∈ name, notSpace char = true := by
    intro char charMem
    rw [notSpace, isWord char charMem, Bool.not_false]
  have stop : ∀ char ∈ rest.head?, notSpace char = false := by
    intro char charMem
    rw [notSpace, ends char charMem, Bool.not_true]
  rw [word, extract_of_text nonblank, skipped]
  simp only [readWord, takeWhile_append_of_stop passing stop,
    dropWhile_append_of_stop passing stop, more, decide_false]
  rfl

theorem char_append {char : Char} (isBlank : ∀ char ∈ space, isSpace char = true)
    (isWord : isSpace char = false) (old : Char) :
    IStream.char old (ofText (space ++ char :: rest)) = (char, ofText rest) := by
  have skipped : dropSpace (space ++ char :: rest) = char :: rest := by
    apply dropSpace_append isBlank
    intro first firstMem
    rw [List.head?_cons, Option.mem_some_iff] at firstMem
    rw [← firstMem, isWord]
  have nonblank : dropSpace (space ++ char :: rest) ≠ [] := by
    rw [skipped]
    exact List.cons_ne_nil char rest
  rw [IStream.char, extract_of_text nonblank, skipped]
  rfl

end Printed

end IStream
