import Mathlib.Algebra.BigOperators.Group.List.Basic
import Mathlib.Data.BitVec
import LoadBalance.Lib.IStream
import LoadBalance.Monitor.Procmon

/-!
# The statistics of the disks

`IoData::parse` of `pm.h`, which `promon_all.cc` has as well. Its loop ends when the stream
has noticed the end of the text, and it extracts seventeen numbers after a name whatever a
line holds. Behind the last newline the loop body is executed once more: nothing is
extracted there, and the variables are as the last line has left them.
-/

namespace LoadBalance.Monitor

open Decimal

/-- What the variables of `IoData::parse` hold before anything was extracted, and the byte in
front of an empty `name`. -/
structure Stale where
  p1 : ℤ
  p2 : ℤ
  tmp : ℤ
  front : Char

structure IoParser where
  iss : IStream
  p1 : ℤ
  p2 : ℤ
  name : List Char
  tmp : ℤ
  ioRun : BitVec 64
  front : Char

namespace IoParser

def start (stale : Stale) (text : List Char) : IoParser where
  iss := .ofText text
  p1 := stale.p1
  p2 := stale.p2
  name := []
  tmp := stale.tmp
  ioRun := 0
  front := stale.front

/-- `name.back() < '0' || name.back() > '9'`: the name is not that of a partition. -/
def Whole (parser : IoParser) : Prop := (parser.name.getLastD parser.front).isDigit = false

instance (parser : IoParser) : Decidable parser.Whole := inferInstanceAs (Decidable (_ = _))

/-- `iss >> p1 >> p2 >> name` -/
def header (parser : IoParser) : IoParser :=
  let (p1, iss) := IStream.longLong parser.p1 parser.iss
  let (p2, iss) := IStream.longLong parser.p2 iss
  let (name, iss) := IStream.word parser.name iss
  { parser with iss, p1, p2, name }

/-- The body of the inner loop. -/
def count (parser : IoParser) (i : ℕ) : IoParser :=
  let (tmp, iss) := IStream.longLong parser.tmp parser.iss
  { parser with
    iss, tmp
    ioRun := if i = 10 ∧ parser.Whole then parser.ioRun + BitVec.ofInt 64 tmp
      else parser.ioRun }

def body (parser : IoParser) : IoParser := (List.range' 1 17).foldl count parser.header

/-- `while(!iss.eof())`, for at most so many rounds. -/
def loop : ℕ → IoParser → Option IoParser
  | 0, parser => if parser.iss.eofbit then some parser else none
  | fuel + 1, parser => if parser.iss.eofbit then some parser else loop fuel parser.body

end IoParser

/-- `IoData::parse`, on an object which is zero. -/
def IoData.parse (fuel : ℕ) (stale : Stale) (ioinfo : List Char) : Option IoData :=
  (IoParser.loop fuel (.start stale ioinfo)).map fun parser => ⟨parser.ioRun.toInt⟩

/-- A line as the kernel prints it, with blanks in front of the two numbers of the device. -/
structure DiskLine where
  indent : ℕ
  gap : ℕ
  major : ℤ
  minor : ℤ
  name : List Char
  counters : List ℤ
  nonempty : name ≠ []
  isWord : ∀ char ∈ name, isSpace char = false
  length_counters : counters.length = 17
  fits : ∀ value ∈ major :: minor :: counters, -2 ^ 63 ≤ value ∧ value ≤ 2 ^ 63 - 1

namespace DiskLine

def blanks (count : ℕ) : List Char := List.replicate count ' '

def text (line : DiskLine) : List Char :=
  blanks line.indent ++ (print line.major ++ (blanks (line.gap + 1) ++ (print line.minor ++
    (blanks 1 ++ (line.name ++ (columns line.counters ++ ['\n']))))))

/-- The counter `c10`. -/
def ioTime (line : DiskLine) : ℤ := line.counters.getD 9 0

/-- The name does not end in a digit. -/
def Whole (line : DiskLine) : Prop := (line.name.getLast line.nonempty).isDigit = false

instance (line : DiskLine) : Decidable line.Whole := inferInstanceAs (Decidable (_ = _))

end DiskLine

/-- The text of `/proc/diskstats`. -/
def diskstats (lines : List DiskLine) : List Char := lines.flatMap DiskLine.text

/-- The time of the whole disks. -/
def diskTime (lines : List DiskLine) : ℤ :=
  ((lines.filter fun line => line.Whole).map DiskLine.ioTime).sum

/-- The loop ends, with the time of the whole disks. -/
def SumsDisks (stale : Stale) (lines : List DiskLine) : Prop :=
  ∃ fuel data, IoData.parse fuel stale (diskstats lines) = some data ∧
    data.ioRun = diskTime lines

namespace IoParser

variable {parser : IoParser}

theorem loop_of_le {fuel more : ℕ} {final : IoParser} (ended : loop fuel parser = some final)
    (enough : fuel ≤ more) : loop more parser = some final := by
  induction fuel generalizing parser more with
  | zero =>
      rw [loop] at ended
      split at ended
      · rename_i eof
        cases more with
        | zero => rwa [loop, if_pos eof]
        | succ more => rwa [loop, if_pos eof]
      · cases ended
  | succ fuel ih =>
      cases more with
      | zero => omega
      | succ more =>
          rw [loop] at ended ⊢
          split
          · rename_i eof
            rwa [if_pos eof] at ended
          · rename_i notEof
            rw [if_neg notEof] at ended
            exact ih ended (by omega)

theorem loop_unique {fuel fuel' : ℕ} {final final' : IoParser}
    (ended : loop fuel parser = some final) (ended' : loop fuel' parser = some final') :
    final = final' := by
  have first := loop_of_le ended (Nat.le_max_left fuel fuel')
  have second := loop_of_le ended' (Nat.le_max_right fuel fuel')
  exact Option.some.inj (first.symm.trans second)

/-- What is added at the tenth of the numbers behind the name. -/
def added (parser : IoParser) (value : ℤ) : BitVec 64 :=
  if parser.Whole then BitVec.ofInt 64 value else 0

/-- The inner loop on a stream which has failed: `tmp` is added as it is. -/
theorem foldl_count_of_failbit (failed : parser.iss.failbit = true) (first length : ℕ) :
    (List.range' first length).foldl count parser =
      { parser with
        ioRun := parser.ioRun +
          if first ≤ 10 ∧ 10 < first + length then parser.added parser.tmp else 0 } := by
  induction length generalizing parser first with
  | zero =>
      rw [if_neg (by omega), add_zero]
      rfl
  | succ length ih =>
      have unchanged : parser.count first = { parser with
          ioRun := parser.ioRun + if first = 10 then parser.added parser.tmp else 0 } := by
        simp only [count, IStream.longLong, IStream.integer, IStream.extract_of_failbit failed,
          added]
        split
        · rename_i tenth
          rw [if_pos tenth.1, if_pos tenth.2]
        · rename_i other
          by_cases tenth : first = 10
          · rw [if_pos tenth, if_neg fun whole => other ⟨tenth, whole⟩, add_zero]
          · rw [if_neg tenth, add_zero]
      rw [List.range'_succ, List.foldl_cons, unchanged, ih]
      swap
      · exact failed
      by_cases tenth : first = 10
      · subst tenth
        simp [added, Whole]
      · have same : (first + 1 ≤ 10 ∧ 10 < first + 1 + length) ↔
            (first ≤ 10 ∧ 10 < first + (length + 1)) := by omega
        simp only [tenth, if_false, add_zero, same]

theorem body_of_blank {space : List Char} (here : parser.iss = .ofText space)
    (isBlank : ∀ char ∈ space, isSpace char = true) :
    parser.body = { parser with
      iss := ⟨[], true, true⟩
      ioRun := parser.ioRun + parser.added parser.tmp } := by
  have nothing : dropSpace space = [] := List.dropWhile_eq_nil_iff.mpr isBlank
  have ended : parser.header = { parser with iss := ⟨[], true, true⟩ } := by
    have failed : (⟨[], true, true⟩ : IStream).failbit = true := rfl
    simp only [header, IStream.longLong, IStream.integer, IStream.word, here,
      IStream.extract_of_blank nothing, IStream.extract_of_failbit failed]
  rw [body, ended, foldl_count_of_failbit rfl]
  rfl

theorem foldl_count_columns {counters : List ℤ} {rest : List Char}
    (fits : ∀ value ∈ counters, -2 ^ 63 ≤ value ∧ value ≤ 2 ^ 63 - 1)
    (here : parser.iss = .ofText (columns counters ++ '\n' :: rest)) (first : ℕ) :
    (List.range' first counters.length).foldl count parser =
      { parser with
        iss := .ofText ('\n' :: rest)
        tmp := counters.getLastD parser.tmp
        ioRun := parser.ioRun +
          if first ≤ 10 then parser.added (counters.getD (10 - first) 0) else 0 } := by
  induction counters generalizing parser first with
  | nil =>
      have nothing : parser.added 0 = 0 := by simp [added]
      cases parser
      simp_all [columns]
  | cons value counters ih =>
      simp only [List.forall_mem_cons] at fits
      have newline : Ends ('\n' :: rest) := ends_cons rfl rest
      have read := @IStream.integer_columns _ _ _ _ counters newline (List.cons_ne_nil _ _) fits.1
        parser.tmp
      have counted : parser.count first = { parser with
          iss := .ofText (columns counters ++ '\n' :: rest)
          tmp := value
          ioRun := parser.ioRun + if first = 10 then parser.added value else 0 } := by
        simp only [count, IStream.longLong, here, read, added]
        by_cases tenth : first = 10
        · by_cases whole : parser.Whole
          · simp [tenth, whole]
          · simp [tenth, whole]
        · simp [tenth]
      rw [List.length_cons, List.range'_succ, List.foldl_cons, counted, ih fits.2 rfl]
      rcases Nat.lt_trichotomy first 10 with before | rfl | behind
      · have shift : 10 - first = (10 - (first + 1)) + 1 := by omega
        rw [if_neg (by omega), if_pos (by omega), if_pos (by omega), shift, List.getD_cons_succ,
          add_zero]
        cases counters <;> rfl
      · simp only [if_true, Nat.not_succ_le_self, if_false, add_zero, le_refl, Nat.sub_self,
          List.getD_cons_zero]
        cases counters <;> rfl
      · rw [if_neg (by omega), if_neg (by omega), if_neg (by omega)]
        simp only [add_zero]
        cases counters <;> rfl

/-- The variables behind a line. -/
def behind (parser : IoParser) (line : DiskLine) (rest : List Char) : IoParser where
  iss := .ofText rest
  p1 := line.major
  p2 := line.minor
  name := line.name
  tmp := line.counters.getD 16 0
  ioRun := parser.ioRun + if line.Whole then BitVec.ofInt 64 line.ioTime else 0
  front := parser.front

theorem isSpace_of_mem_blanks {count : ℕ} :
    ∀ char ∈ DiskLine.blanks count, isSpace char = true := by
  intro char charMem
  rw [List.eq_of_mem_replicate charMem]
  rfl

theorem ends_blanks_append (count : ℕ) (rest : List Char) :
    Ends (DiskLine.blanks (count + 1) ++ rest) :=
  ends_cons rfl (DiskLine.blanks count ++ rest)

theorem blanks_append_ne_nil (count : ℕ) (rest : List Char) :
    DiskLine.blanks (count + 1) ++ rest ≠ [] := by
  simp [DiskLine.blanks]

theorem whole_iff {line : DiskLine} (named : parser.name = line.name) :
    parser.Whole ↔ line.Whole := by
  rw [Whole, DiskLine.Whole, named, List.getLastD_eq_getLast?,
    List.getLast?_eq_some_getLast line.nonempty, Option.getD_some]

/-- A line in front of anything, with white space which was left over before it. -/
theorem body_of_line {line : DiskLine} {space rest : List Char}
    (isBlank : ∀ char ∈ space, isSpace char = true)
    (here : parser.iss = .ofText (space ++ (line.text ++ rest))) :
    parser.body = parser.behind line ('\n' :: rest) := by
  have fits := line.fits
  simp only [List.forall_mem_cons] at fits
  rcases fits with ⟨majorFits, minorFits, countersFit⟩
  have indented : ∀ char ∈ space ++ DiskLine.blanks line.indent, isSpace char = true := by
    intro char charMem
    rcases List.mem_append.mp charMem with old | new
    · exact isBlank char old
    · exact isSpace_of_mem_blanks char new
  have columnsMore : ∀ more, columns line.counters ++ '\n' :: more ≠ [] :=
    fun more => List.append_ne_nil_of_right_ne_nil _ (List.cons_ne_nil _ _)
  have nameEnds : ∀ char ∈ (columns line.counters ++ '\n' :: rest).head?,
      isSpace char = true := by
    have some : line.counters ≠ [] := by
      intro none
      have size := line.length_counters
      rw [none] at size
      cases size
    rcases List.exists_cons_of_ne_nil some with ⟨first, others, split⟩
    rw [split]
    simp [columns]
    rfl
  have text : space ++ (line.text ++ rest) = (space ++ DiskLine.blanks line.indent) ++
      (print line.major ++ (DiskLine.blanks (line.gap + 1) ++ (print line.minor ++
        (DiskLine.blanks 1 ++ (line.name ++ (columns line.counters ++ '\n' :: rest))))))
      := by simp [DiskLine.text]
  have header : parser.header = { parser with
      iss := .ofText (columns line.counters ++ '\n' :: rest)
      p1 := line.major
      p2 := line.minor
      name := line.name } := by
    simp only [IoParser.header, IStream.longLong, here, text,
      IStream.integer_print_append indented (ends_blanks_append _ _)
        (blanks_append_ne_nil _ _) majorFits,
      IStream.integer_print_append isSpace_of_mem_blanks (ends_blanks_append _ _)
        (blanks_append_ne_nil _ _) minorFits,
      IStream.word_append isSpace_of_mem_blanks line.nonempty line.isWord nameEnds
        (columnsMore rest)]
  have counted := @foldl_count_columns parser.header line.counters rest countersFit
    (by rw [header]) 1
  rw [line.length_counters] at counted
  have last : line.counters.getLastD parser.tmp = line.counters.getD 16 0 := by
    have size := line.length_counters
    rw [List.getLastD_eq_getLast?, List.getLast?_eq_getElem?, size, List.getD_eq_getElem?_getD,
      List.getElem?_eq_getElem (by omega)]
    rfl
  have whole : parser.header.Whole ↔ line.Whole := by
    apply whole_iff
    rw [header]
  rw [body, counted]
  simp only [added, whole]
  rw [header]
  simp only [behind, last, DiskLine.ioTime, if_pos (by decide : 1 ≤ 10)]

/-- The variables behind the last of these lines. -/
def after (parser : IoParser) (lines : List DiskLine) : IoParser :=
  lines.foldl (fun parser line => parser.behind line ['\n']) parser

/-- The last round of the loop. -/
def finish (parser : IoParser) : IoParser :=
  { parser with
    iss := ⟨[], true, true⟩
    ioRun := parser.ioRun + parser.added parser.tmp }

theorem loop_lines {lines : List DiskLine} {space : List Char}
    (isBlank : ∀ char ∈ space, isSpace char = true)
    (here : parser.iss = .ofText (space ++ diskstats lines)) :
    loop (lines.length + 1) parser = some (parser.after lines).finish := by
  have notYet : ¬parser.iss.eofbit = true := by simp [here, IStream.ofText]
  induction lines generalizing parser space with
  | nil =>
      rw [diskstats, List.flatMap_nil, List.append_nil] at here
      rw [List.length_nil, loop, if_neg notYet, body_of_blank here isBlank]
      rfl
  | cons line lines ih =>
      have newline : ∀ char ∈ ['\n'], isSpace char = true := List.forall_mem_singleton.mpr rfl
      have rest := @ih (parser.behind line ('\n' :: diskstats lines)) ['\n'] newline rfl
        Bool.false_ne_true
      have split : diskstats (line :: lines) = line.text ++ diskstats lines := rfl
      rw [split] at here
      rw [List.length_cons, loop, if_neg notYet, body_of_line isBlank here, rest]
      cases lines with
      | nil => rfl
      | cons next lines => rfl

theorem ioRun_after (lines : List DiskLine) :
    (parser.after lines).ioRun = parser.ioRun + BitVec.ofInt 64 (diskTime lines) := by
  induction lines generalizing parser with
  | nil => simp [after, diskTime]
  | cons line lines ih =>
      have first : parser.after (line :: lines) = (parser.behind line ['\n']).after lines := rfl
      have here : (parser.behind line ['\n']).ioRun =
          parser.ioRun + if line.Whole then BitVec.ofInt 64 line.ioTime else 0 := rfl
      rw [first, ih, here]
      by_cases whole : line.Whole
      · simp [diskTime, whole, BitVec.ofInt_add, add_assoc]
      · simp [diskTime, whole]

/-- In the last round, the last number of the last line is added. -/
theorem added_after {lines : List DiskLine} {last : DiskLine}
    (isLast : lines.getLast? = some last) :
    (parser.after lines).added (parser.after lines).tmp =
      if last.Whole then BitVec.ofInt 64 (last.counters.getD 16 0) else 0 := by
  rcases List.getLast?_eq_some_iff.mp isLast with ⟨before, rfl⟩
  have here : parser.after (before ++ [last]) = (parser.after before).behind last ['\n'] := by
    simp [after]
  have whole : ((parser.after before).behind last ['\n']).Whole ↔ last.Whole := whole_iff rfl
  rw [here]
  simp only [added, whole]
  rfl

end IoParser

/-- The last number of a line. -/
def DiskLine.lastCounter (line : DiskLine) : ℤ := line.counters.getD 16 0

theorem parse_diskstats (stale : Stale) {lines : List DiskLine} {last : DiskLine}
    (isLast : lines.getLast? = some last) :
    IoData.parse (lines.length + 1) stale (diskstats lines) =
      some ⟨(BitVec.ofInt 64 (diskTime lines) +
        if last.Whole then BitVec.ofInt 64 last.lastCounter else 0).toInt⟩ := by
  have ended := @IoParser.loop_lines (.start stale (diskstats lines)) lines [] nofun rfl
  rw [IoData.parse, ended, Option.map_some]
  simp only [IoParser.finish, IoParser.ioRun_after, IoParser.added_after isLast,
    DiskLine.lastCounter]
  simp [IoParser.start]

theorem parse_nil (stale : Stale) :
    IoData.parse 1 stale [] =
      some ⟨(if stale.front.isDigit = false then BitVec.ofInt 64 stale.tmp else 0).toInt⟩ := by
  have ended : IoParser.loop 1 (.start stale []) = some (IoParser.start stale []).finish :=
    @IoParser.loop_lines (.start stale []) [] [] nofun rfl
  rw [IoData.parse, ended, Option.map_some]
  simp [IoParser.finish, IoParser.added, IoParser.start, IoParser.Whole]

theorem parse_unique {stale : Stale} {text : List Char} {fuel fuel' : ℕ} {data data' : IoData}
    (parsed : IoData.parse fuel stale text = some data)
    (parsed' : IoData.parse fuel' stale text = some data') : data = data' := by
  rcases Option.map_eq_some_iff.mp parsed with ⟨final, ended, rfl⟩
  rcases Option.map_eq_some_iff.mp parsed' with ⟨final', ended', rfl⟩
  rw [IoParser.loop_unique ended ended']

theorem DiskLine.lastCounter_fits (line : DiskLine) :
    -2 ^ 63 ≤ line.lastCounter ∧ line.lastCounter ≤ 2 ^ 63 - 1 := by
  have size := line.length_counters
  have here : line.lastCounter = line.counters[16] := by
    rw [DiskLine.lastCounter, List.getD_eq_getElem?_getD, List.getElem?_eq_getElem (by omega)]
    rfl
  rw [here]
  exact line.fits _ (.tail _ (.tail _ (List.getElem_mem _)))

theorem ofInt_eq_zero {value : ℤ} (fits : -2 ^ 63 ≤ value ∧ value ≤ 2 ^ 63 - 1)
    (zero : BitVec.ofInt 64 value = 0) : value = 0 := by
  have same := congrArg BitVec.toInt zero
  rw [BitVec.toInt_ofInt, Int.bmod_eq_of_le_mul_two (by omega) (by omega)] at same
  exact same

/--
For every text in the format of the kernel, and whatever the uninitialised variables hold,
the loop ends with the time of the whole disks if and only if there is a line, the time
fits, and the last line is that of a partition or has a zero in its last column.
-/
theorem sumsDisks_iff (lines : List DiskLine) :
    (∀ stale, SumsDisks stale lines) ↔
      ∃ last, lines.getLast? = some last ∧ (last.Whole → last.lastCounter = 0) ∧
        -2 ^ 63 ≤ diskTime lines ∧ diskTime lines ≤ 2 ^ 63 - 1 := by
  constructor
  · intro sums
    cases isLast : lines.getLast? with
    | none =>
        rw [List.getLast?_eq_none_iff] at isLast
        subst isLast
        rcases sums ⟨0, 0, 1, ' '⟩ with ⟨fuel, data, parsed, right⟩
        have same := parse_unique parsed (parse_nil ⟨0, 0, 1, ' '⟩)
        rw [same] at right
        exact absurd right (by decide)
    | some last =>
        rcases sums ⟨0, 0, 0, ' '⟩ with ⟨fuel, data, parsed, right⟩
        rw [parse_unique parsed (parse_diskstats _ isLast)] at right
        simp only at right
        have upper := @BitVec.toInt_lt 64 (BitVec.ofInt 64 (diskTime lines) +
          if last.Whole then BitVec.ofInt 64 last.lastCounter else 0)
        have lower := @BitVec.le_toInt 64 (BitVec.ofInt 64 (diskTime lines) +
          if last.Whole then BitVec.ofInt 64 last.lastCounter else 0)
        rw [right] at upper lower
        refine ⟨last, rfl, ?_, lower, by omega⟩
        intro whole
        apply ofInt_eq_zero last.lastCounter_fits
        have same := congrArg (BitVec.ofInt 64) right
        rw [BitVec.ofInt_toInt, if_pos whole] at same
        simpa using same
  · rintro ⟨last, isLast, nothing, lower, upper⟩ stale
    refine ⟨_, _, parse_diskstats stale isLast, ?_⟩
    have extra : (if last.Whole then BitVec.ofInt 64 last.lastCounter else 0) = 0 := by
      split
      · rename_i whole
        rw [nothing whole]
        rfl
      · rfl
    simp only [extra, add_zero]
    rw [BitVec.toInt_ofInt]
    apply Int.bmod_eq_of_le_mul_two
    · omega
    · omega

/-- A disk which has spent some time on flushes, which is its last column. -/
def DiskLine.sda : DiskLine where
  indent := 3
  gap := 6
  major := 8
  minor := 0
  name := ['s', 'd', 'a']
  counters := [1, 0, 8, 1, 0, 0, 0, 0, 0, 5, 6, 0, 0, 0, 0, 0, 7]
  nonempty := List.cons_ne_nil _ _
  isWord := by
    simp only [List.forall_mem_cons]
    exact ⟨rfl, rfl, rfl, List.forall_mem_nil _⟩
  length_counters := rfl
  fits := by decide

/-- The time of a single disk is too long by the last column. -/
theorem not_sumsDisks_sda : ¬∀ stale, SumsDisks stale [.sda] := by
  intro sums
  rcases sums ⟨0, 0, 0, ' '⟩ with ⟨fuel, data, parsed, right⟩
  rw [parse_unique parsed (parse_diskstats _ rfl)] at right
  exact absurd right (by decide)

end LoadBalance.Monitor
