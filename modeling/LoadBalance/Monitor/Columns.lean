import Mathlib.Logic.Relation
import LoadBalance.Monitor.Diskstats

/-!
# The end of the loop over the disks

The loop of `IoData::parse` asks for the end of the text only. What the stream is after some
extractions does not depend on the variables. Every twentieth of them is a word, the others
are numbers. The first of the numbers which is not there makes the stream fail where it is,
and a stream which has failed does not come to the end of its text.
-/

namespace LoadBalance.Monitor

open Decimal

/-- The loop comes to its end. -/
def IoData.Terminates (stale : Stale) (text : List Char) : Prop :=
  ∃ fuel data, IoData.parse fuel stale text = some data

/-- How many extractions have been made, and the text they have left. -/
structure Place where
  extracted : ℕ
  text : List Char

namespace Place

/-- The name of a device is due. -/
def WordDue (extracted : ℕ) : Prop := extracted % 20 = 2

instance (extracted : ℕ) : Decidable (WordDue extracted) := inferInstanceAs (Decidable (_ = _))

/-- There are digits, and the number is that of a `long long`. -/
def IsLongLong (numeral : Numeral) : Prop :=
  numeral.digits ≠ [] ∧ -2 ^ 63 ≤ numeral.value ∧ numeral.value ≤ 2 ^ 63 - 1

/-- What is due can be read. -/
def Fits (place : Place) : Prop :=
  WordDue place.extracted ∨ IsLongLong (numeral (dropSpace place.text))

/-- The text behind it. -/
def rest (place : Place) : List Char :=
  if WordDue place.extracted then (dropSpace place.text).dropWhile IStream.notSpace
  else (numeral (dropSpace place.text)).rest

def next (place : Place) : Place where
  extracted := place.extracted + 1
  text := place.rest

/-- One extraction which does not come to the end of the text. -/
def Follows (place following : Place) : Prop :=
  place.Fits ∧ place.rest ≠ [] ∧ following = place.next

/-- A number is due, and in front of the end of the text is something else. -/
def Blocked (place : Place) : Prop := ¬place.Fits ∧ place.rest ≠ []

end Place

namespace IoParser

/-- The stream after an extraction, so many extractions having been made before. -/
def take (extracted : ℕ) (stream : IStream) : IStream :=
  if Place.WordDue extracted then (IStream.word [] stream).2
  else (IStream.longLong 0 stream).2

/-- The stream after the first extractions. -/
def taken (stream : IStream) : ℕ → IStream
  | 0 => stream
  | extracted + 1 => take extracted (taken stream extracted)

variable {parser : IoParser} {stream : IStream}

theorem longLong_snd (old : ℤ) (stream : IStream) :
    (IStream.longLong old stream).2 = (IStream.longLong 0 stream).2 := by
  simp only [IStream.longLong, IStream.integer, IStream.extract]
  split
  · rfl
  · split
    · rfl
    · rfl

theorem word_snd (old : List Char) (stream : IStream) :
    (IStream.word old stream).2 = (IStream.word [] stream).2 := by
  simp only [IStream.word, IStream.extract]
  split
  · rfl
  · split
    · rfl
    · rfl

theorem taken_number {extracted : ℕ} (due : ¬Place.WordDue extracted) (old : ℤ) :
    (IStream.longLong old (taken stream extracted)).2 = taken stream (extracted + 1) := by
  rw [taken, take, if_neg due, longLong_snd]

theorem taken_word {extracted : ℕ} (due : Place.WordDue extracted) (old : List Char) :
    (IStream.word old (taken stream extracted)).2 = taken stream (extracted + 1) := by
  rw [taken, take, if_pos due, word_snd]

theorem iss_header {round : ℕ} (here : parser.iss = taken stream (20 * round)) :
    parser.header.iss = taken stream (20 * round + 3) := by
  have major : ¬Place.WordDue (20 * round) := by
    rw [Place.WordDue]
    omega
  have minor : ¬Place.WordDue (20 * round + 1) := by
    rw [Place.WordDue]
    omega
  have name : Place.WordDue (20 * round + 2) := by
    rw [Place.WordDue]
    omega
  simp only [header, here, taken_number major, taken_number minor, taken_word name]

theorem iss_foldl_count {round column : ℕ} (first length : ℕ)
    (here : parser.iss = taken stream (20 * round + column)) (behindName : 3 ≤ column)
    (inside : column + length ≤ 20) :
    ((List.range' first length).foldl count parser).iss =
      taken stream (20 * round + (column + length)) := by
  induction length generalizing parser first column with
  | zero => exact here
  | succ length ih =>
      have due : ¬Place.WordDue (20 * round + column) := by
        rw [Place.WordDue]
        omega
      have counted : (parser.count first).iss = taken stream (20 * round + (column + 1)) := by
        simp only [count, here, taken_number due]
        rfl
      rw [List.range'_succ, List.foldl_cons, ih (first + 1) counted (by omega) (by omega)]
      apply congrArg
      omega

theorem iss_body {round : ℕ} (here : parser.iss = taken stream (20 * round)) :
    parser.body.iss = taken stream (20 * (round + 1)) :=
  iss_foldl_count 1 17 (iss_header here) (Nat.le_refl 3) (Nat.le_refl 20)

/-- The loop ends when the stream at the start of a round has noticed the end. -/
theorem loop_eq_some_of_eofbit {round fuel : ℕ} (here : parser.iss = taken stream (20 * round))
    (ended : (taken stream (20 * (round + fuel))).eofbit = true) :
    ∃ final, loop fuel parser = some final := by
  induction fuel generalizing parser round with
  | zero =>
      refine ⟨parser, if_pos ?_⟩
      rw [here]
      exact ended
  | succ fuel ih =>
      rw [loop]
      by_cases eof : parser.iss.eofbit = true
      · exact ⟨parser, if_pos eof⟩
      · rw [if_neg eof]
        apply ih (iss_body here)
        rwa [Nat.add_right_comm]

theorem eofbit_of_loop_eq_some {round fuel : ℕ} {final : IoParser}
    (here : parser.iss = taken stream (20 * round)) (ended : loop fuel parser = some final) :
    ∃ extracted, (taken stream extracted).eofbit = true := by
  induction fuel generalizing parser round with
  | zero =>
      rw [loop] at ended
      split at ended
      · rename_i eof
        exact ⟨_, here ▸ eof⟩
      · cases ended
  | succ fuel ih =>
      rw [loop] at ended
      split at ended
      · rename_i eof
        exact ⟨_, here ▸ eof⟩
      · exact ih (iss_body here) ended

theorem eofbit_take {extracted : ℕ} (ended : stream.eofbit = true) :
    (take extracted stream).eofbit = true := by
  rw [take, IStream.word, IStream.longLong, IStream.integer, IStream.extract_of_eofbit ended,
    IStream.extract_of_eofbit ended]
  split
  · exact ended
  · exact ended

theorem eofbit_taken_of_le {extracted more : ℕ} (ended : (taken stream extracted).eofbit = true)
    (further : extracted ≤ more) : (taken stream more).eofbit = true := by
  induction further with
  | refl => exact ended
  | step _ ih => exact eofbit_take ih

theorem take_of_failbit {extracted : ℕ} (failed : stream.failbit = true) :
    take extracted stream = stream := by
  rw [take, IStream.word, IStream.longLong, IStream.integer, IStream.extract_of_failbit failed,
    IStream.extract_of_failbit failed, ite_self]

/-- A stream which has failed stays where it is. -/
theorem taken_of_failbit {extracted more : ℕ} (failed : (taken stream extracted).failbit = true)
    (further : extracted ≤ more) : taken stream more = taken stream extracted := by
  induction further with
  | refl => rfl
  | step _ ih =>
      rw [taken, ih]
      exact take_of_failbit failed

theorem not_eofbit_taken {extracted : ℕ} (failed : (taken stream extracted).failbit = true)
    (notEnded : (taken stream extracted).eofbit = false) (other : ℕ) :
    (taken stream other).eofbit = false := by
  rw [← Bool.not_eq_true]
  intro ended
  have later := eofbit_taken_of_le ended (Nat.le_max_left other extracted)
  rw [taken_of_failbit failed (Nat.le_max_right other extracted), notEnded] at later
  cases later

end IoParser

theorem terminates_iff_eofbit (stale : Stale) (text : List Char) :
    IoData.Terminates stale text ↔
      ∃ extracted, (IoParser.taken (.ofText text) extracted).eofbit = true := by
  have here : (IoParser.start stale text).iss = IoParser.taken (.ofText text) (20 * 0) := rfl
  constructor
  · rintro ⟨fuel, data, parsed⟩
    rcases Option.map_eq_some_iff.mp parsed with ⟨final, ended, _⟩
    exact IoParser.eofbit_of_loop_eq_some here ended
  · rintro ⟨extracted, ended⟩
    have later := IoParser.eofbit_taken_of_le ended (by omega : extracted ≤ 20 * (0 + extracted))
    rcases IoParser.loop_eq_some_of_eofbit here later with ⟨final, looped⟩
    exact ⟨extracted, _, Option.map_eq_some_iff.mpr ⟨final, looped, rfl⟩⟩

namespace Place

instance (numeral : Numeral) : Decidable (IsLongLong numeral) :=
  inferInstanceAs (Decidable (_ ∧ _ ∧ _))

instance (place : Place) : Decidable place.Fits := inferInstanceAs (Decidable (_ ∨ _))

theorem readInteger_snd (text : List Char) :
    (IStream.readInteger (-2 ^ 63) (2 ^ 63 - 1) text).2 =
      ⟨(numeral text).rest, decide ((numeral text).rest = []),
        decide (¬IsLongLong (numeral text))⟩ := by
  simp only [IStream.readInteger]
  split
  · rename_i none
    have wrong : ¬IsLongLong (numeral text) := fun number => number.1 none
    rw [decide_eq_true wrong]
  · rename_i some
    split
    · rename_i below
      have wrong : ¬IsLongLong (numeral text) := fun number => not_le_of_gt below number.2.1
      rw [decide_eq_true wrong]
    · rename_i low
      split
      · rename_i above
        have wrong : ¬IsLongLong (numeral text) := fun number => not_le_of_gt above number.2.2
        rw [decide_eq_true wrong]
      · rename_i high
        have right : IsLongLong (numeral text) := ⟨some, not_lt.mp low, not_lt.mp high⟩
        rw [decide_eq_false (not_not.mpr right)]

theorem take_ofText (place : Place) :
    IoParser.take place.extracted (.ofText place.text) =
      ⟨place.rest, decide (place.rest = []),
        decide (dropSpace place.text = [] ∨ ¬place.Fits)⟩ := by
  rw [IoParser.take, IStream.word, IStream.longLong, IStream.integer, rest]
  by_cases blank : dropSpace place.text = []
  · rw [IStream.extract_of_blank blank, IStream.extract_of_blank blank]
    by_cases due : WordDue place.extracted
    · simp [due, blank]
    · simp [due, blank, numeral, unsign]
  · rw [IStream.extract_of_text blank, IStream.extract_of_text blank]
    by_cases due : WordDue place.extracted
    · simp [Fits, due, blank, IStream.readWord]
    · simpa [Fits, due, blank] using readInteger_snd (dropSpace place.text)

theorem dropSpace_ne_nil {place : Place} (more : place.rest ≠ []) : dropSpace place.text ≠ [] := by
  intro blank
  apply more
  rw [rest, blank]
  exact ite_self []

theorem length_rest_lt {place : Place} (fits : place.Fits) (more : place.rest ≠ []) :
    place.rest.length < place.text.length := by
  have nonblank := dropSpace_ne_nil more
  have skipped : (dropSpace place.text).length ≤ place.text.length :=
    (List.dropWhile_suffix isSpace).length_le
  apply Nat.lt_of_lt_of_le _ skipped
  rw [rest]
  by_cases due : WordDue place.extracted
  · rw [if_pos due]
    rcases List.exists_cons_of_ne_nil nonblank with ⟨first, others, split⟩
    have starts := List.head?_dropWhile_not isSpace place.text
    have notSpace : IStream.notSpace first = true := by
      rw [← dropSpace, split, List.head?_cons] at starts
      rw [IStream.notSpace, starts, Bool.not_false]
    have shorter : (others.dropWhile IStream.notSpace).length ≤ others.length :=
      (List.dropWhile_suffix IStream.notSpace).length_le
    rw [split, List.dropWhile_cons_of_pos notSpace, List.length_cons]
    omega
  · rw [if_neg due]
    exact length_rest_numeral_lt (fits.resolve_left due).1

theorem taken_of_reached {text : List Char} {place : Place}
    (reached : Relation.ReflTransGen Follows ⟨0, text⟩ place) :
    IoParser.taken (.ofText text) place.extracted = .ofText place.text := by
  induction reached with
  | refl => rfl
  | @tail before _ _ follows ih =>
      rcases follows with ⟨fits, more, rfl⟩
      have nonblank := dropSpace_ne_nil more
      change IoParser.take before.extracted (IoParser.taken _ before.extracted) = _
      rw [ih, take_ofText]
      simp [next, IStream.ofText, more, nonblank, fits]

/-- Without something else where a number is due, the end is come to. -/
theorem eofbit_of_free {stream : IStream} {place : Place}
    (here : IoParser.taken stream place.extracted = .ofText place.text)
    (free : ∀ reached, Relation.ReflTransGen Follows place reached → ¬reached.Blocked) :
    ∃ extracted, (IoParser.taken stream extracted).eofbit = true := by
  induction size : place.text.length using Nat.strong_induction_on generalizing place with
  | _ size ih =>
      have further : IoParser.taken stream (place.extracted + 1) =
          ⟨place.rest, decide (place.rest = []),
            decide (dropSpace place.text = [] ∨ ¬place.Fits)⟩ := by
        rw [IoParser.taken, here, take_ofText]
      by_cases more : place.rest = []
      · refine ⟨place.extracted + 1, ?_⟩
        rw [further]
        exact decide_eq_true more
      · have fits : place.Fits := by
          by_contra unfit
          exact free place .refl ⟨unfit, more⟩
        have nonblank := dropSpace_ne_nil more
        have follows : place.Follows place.next := ⟨fits, more, rfl⟩
        refine @ih place.rest.length (size ▸ length_rest_lt fits more) place.next ?_ ?_ rfl
        · change IoParser.taken stream (place.extracted + 1) = .ofText place.rest
          rw [further]
          simp [IStream.ofText, more, nonblank, fits]
        · intro reached ahead
          exact free reached (.head follows ahead)

end Place

/--
For every text, the loop ends if and only if it does not come to a place where a number of
type `long long` is due, and where something else is found before the end of the text.
-/
theorem terminates_iff_not_blocked (stale : Stale) (text : List Char) :
    IoData.Terminates stale text ↔
      ¬∃ place, Relation.ReflTransGen Place.Follows ⟨0, text⟩ place ∧ place.Blocked := by
  rw [terminates_iff_eofbit]
  constructor
  · rintro ⟨extracted, ended⟩ ⟨place, reached, unfit, more⟩
    have failed : IoParser.taken (.ofText text) (place.extracted + 1) =
        ⟨place.rest, false, true⟩ := by
      rw [IoParser.taken, Place.taken_of_reached reached, Place.take_ofText]
      simp [more, unfit]
    have never := @IoParser.not_eofbit_taken (.ofText text) (place.extracted + 1)
      (by rw [failed]) (by rw [failed]) extracted
    rw [ended] at never
    cases never
  · intro none
    have start : IoParser.taken (.ofText text) (Place.mk 0 text).extracted = .ofText text := rfl
    apply Place.eofbit_of_free start
    intro reached ahead blocked
    exact none ⟨reached, ahead, blocked⟩

/-- The line of a disk on a kernel which prints eleven counters. -/
def elevenCounters (name : List Char) : List Char :=
  ['8', ' ', '0', ' '] ++ name ++ columns (List.replicate 11 1) ++ ['\n']

/-- With two such lines, the name of the second disk is met where a number is due. -/
theorem not_terminates_elevenCounters :
    ¬∀ stale, IoData.Terminates stale (elevenCounters ['s', 'd', 'a'] ++
      elevenCounters ['s', 'd', 'b']) := by
  intro terminates
  have failed : IoParser.taken (.ofText (elevenCounters ['s', 'd', 'a'] ++
      elevenCounters ['s', 'd', 'b'])) 17 =
        ⟨(elevenCounters ['s', 'd', 'b']).drop 4, false, true⟩ := by decide +kernel
  rcases (terminates_iff_eofbit ⟨0, 0, 0, ' '⟩ _).mp (terminates ⟨0, 0, 0, ' '⟩) with
    ⟨extracted, ended⟩
  have never := IoParser.not_eofbit_taken (by rw [failed]) (by rw [failed]) extracted
  rw [ended] at never
  cases never

end LoadBalance.Monitor
