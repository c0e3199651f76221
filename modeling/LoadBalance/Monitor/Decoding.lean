import LoadBalance.Monitor.Process

/-!
# What the monitor of a process makes of a line of the kernel

The line is printed from the values of the kernel, and `tick` decodes it. The name may
contain brackets and blanks, as the brackets around it are the outermost ones. The flags
are unsigned in the kernel and an `int` in `StatData`, so that a process whose highest flag
is set makes the stream fail in the middle of the line. The limit of the resident size may
be too large as well, but it is the last number which is read.
-/

namespace LoadBalance.Process

open Decimal

/-- The values which the kernel prints, in the ranges of their types. -/
structure StatLine where
  pid : ℤ
  comm : List Char
  state : Char
  ppid : ℤ
  pgrp : ℤ
  session : ℤ
  ttyNr : ℤ
  tpgid : ℤ
  flags : ℤ
  minflt : ℤ
  cminflt : ℤ
  majflt : ℤ
  cmajflt : ℤ
  utime : ℤ
  stime : ℤ
  cutime : ℤ
  cstime : ℤ
  priority : ℤ
  nice : ℤ
  numThreads : ℤ
  itrealvalue : ℤ
  starttime : ℤ
  vsize : ℤ
  rss : ℤ
  rsslim : ℤ
  later : List ℤ
  isLetter : state.isAlpha = true
  intsFit : ∀ value ∈ [ppid, pgrp, session, ttyNr, tpgid], -2 ^ 31 ≤ value ∧ value ≤ 2 ^ 31 - 1
  flagsFit : 0 ≤ flags ∧ flags < 2 ^ 32
  longsFit : ∀ value ∈ [minflt, cminflt, majflt, cmajflt, utime, stime, cutime, cstime, priority,
    nice, numThreads, itrealvalue, starttime, vsize, rss],
    -2 ^ 63 ≤ value ∧ value ≤ 2 ^ 63 - 1
  rsslimFits : 0 ≤ rsslim ∧ rsslim < 2 ^ 64

namespace StatLine

def numbers (line : StatLine) : List ℤ :=
  line.ppid :: line.pgrp :: line.session :: line.ttyNr :: line.tpgid :: line.flags ::
    line.minflt :: line.cminflt :: line.majflt :: line.cmajflt :: line.utime :: line.stime ::
    line.cutime :: line.cstime :: line.priority :: line.nice :: line.numThreads ::
    line.itrealvalue :: line.starttime :: line.vsize :: line.rss :: line.rsslim :: line.later

/-- The line behind the brackets. -/
def fields (line : StatLine) : List Char :=
  [' '] ++ line.state :: (columns line.numbers ++ ['\n'])

def text (line : StatLine) : List Char :=
  print line.pid ++ [' '] ++ '(' :: (line.comm ++ ')' :: line.fields)

end StatLine

/-- A tick decodes the line. -/
def Decodes {R : Type*} [Double R] (pm : Procmon R) (kP : R) (stale : Stale) (line : StatLine) :
    Prop :=
  ∃ ticked, pm.tick kP stale line.text = some ticked ∧ ticked.name = line.comm ∧
    ticked.pm.lastStatData.utime = line.utime ∧ ticked.pm.lastStatData.stime = line.stime ∧
    ticked.pm.lastStatData.rssKb = line.rss * pm.kbPerPage

section Parse

variable {line : StatLine} {data : StatData} {stale : Stale} {kbPerPage : ℤ}

theorem ends_newline : Ends ['\n'] := ends_cons rfl []

/-- The last number is cut off, and the stream fails behind it. -/
theorem longLong_rsslim (line : StatLine) (old : ℤ) :
    (IStream.longLong old (.ofText (columns (line.rsslim :: line.later) ++ ['\n']))).1 =
      min line.rsslim (2 ^ 63 - 1) := by
  by_cases large : 2 ^ 63 - 1 < line.rsslim
  · rw [IStream.longLong, IStream.integer_columns_of_lt ends_newline (List.cons_ne_nil _ _)
      (by decide) large, min_eq_right large.le]
  · have fits : -2 ^ 63 ≤ line.rsslim ∧ line.rsslim ≤ 2 ^ 63 - 1 := by
      have positive := line.rsslimFits.1
      omega
    rw [IStream.longLong, IStream.integer_columns ends_newline (List.cons_ne_nil _ _) fits,
      min_eq_left fits.2]

theorem parse_fields (small : line.flags < 2 ^ 31) :
    data.parse stale line.fields kbPerPage = {
      state := line.state
      ppid := line.ppid
      pgrp := line.pgrp
      session := line.session
      ttyNr := line.ttyNr
      tpgid := line.tpgid
      flags := line.flags
      minflt := line.minflt
      cminflt := line.cminflt
      majflt := line.majflt
      cmajflt := line.cmajflt
      utime := line.utime
      stime := line.stime
      cutime := line.cutime
      cstime := line.cstime
      priority := line.priority
      nice := line.nice
      numThreads := line.numThreads
      itrealvalue := line.itrealvalue
      starttime := line.starttime
      vsizeKb := line.vsize.tdiv 1024
      rssKb := toLongLong (line.rss * kbPerPage)
      rsslim := min line.rsslim (2 ^ 63 - 1) } := by
  have blank : ∀ char ∈ [' '], isSpace char = true := List.forall_mem_singleton.mpr rfl
  have more : ['\n'] ≠ [] := List.cons_ne_nil _ _
  have ints := line.intsFit
  have longs := line.longsFit
  have flags : -2 ^ 31 ≤ line.flags ∧ line.flags ≤ 2 ^ 31 - 1 := by
    have positive := line.flagsFit.1
    omega
  simp only [List.forall_mem_cons] at ints longs
  rcases ints with ⟨ppid, pgrp, session, ttyNr, tpgid, -⟩
  rcases longs with ⟨minflt, cminflt, majflt, cmajflt, utime, stime, cutime, cstime, priority,
    nice, numThreads, itrealvalue, starttime, vsize, rss, -⟩
  have rsslim := longLong_rsslim line data.rsslim
  rw [IStream.longLong] at rsslim
  simp only [StatData.parse, StatLine.fields, StatLine.numbers, IStream.int, IStream.longLong,
    IStream.char_append blank (not_isSpace_of_isAlpha line.isLetter),
    IStream.integer_columns ends_newline more ppid,
    IStream.integer_columns ends_newline more pgrp,
    IStream.integer_columns ends_newline more session,
    IStream.integer_columns ends_newline more ttyNr,
    IStream.integer_columns ends_newline more tpgid,
    IStream.integer_columns ends_newline more flags,
    IStream.integer_columns ends_newline more minflt,
    IStream.integer_columns ends_newline more cminflt,
    IStream.integer_columns ends_newline more majflt,
    IStream.integer_columns ends_newline more cmajflt,
    IStream.integer_columns ends_newline more utime,
    IStream.integer_columns ends_newline more stime,
    IStream.integer_columns ends_newline more cutime,
    IStream.integer_columns ends_newline more cstime,
    IStream.integer_columns ends_newline more priority,
    IStream.integer_columns ends_newline more nice,
    IStream.integer_columns ends_newline more numThreads,
    IStream.integer_columns ends_newline more itrealvalue,
    IStream.integer_columns ends_newline more starttime,
    IStream.integer_columns ends_newline more vsize,
    IStream.integer_columns ends_newline more rss, rsslim]

/-- With the highest flag set, the resident size is what its variable has held before. -/
theorem rssKb_parse_fields (large : 2 ^ 31 ≤ line.flags) :
    (data.parse stale line.fields kbPerPage).rssKb = toLongLong (stale.rss * kbPerPage) := by
  have blank : ∀ char ∈ [' '], isSpace char = true := List.forall_mem_singleton.mpr rfl
  have more : ['\n'] ≠ [] := List.cons_ne_nil _ _
  have ints := line.intsFit
  have ordered : (-2 ^ 31 : ℤ) ≤ 2 ^ 31 - 1 := by decide
  have above : 2 ^ 31 - 1 < line.flags := by omega
  simp only [List.forall_mem_cons] at ints
  rcases ints with ⟨ppid, pgrp, session, ttyNr, tpgid, -⟩
  simp only [StatData.parse, StatLine.fields, StatLine.numbers, IStream.int, IStream.longLong,
    IStream.char_append blank (not_isSpace_of_isAlpha line.isLetter),
    IStream.integer_columns ends_newline more ppid,
    IStream.integer_columns ends_newline more pgrp,
    IStream.integer_columns ends_newline more session,
    IStream.integer_columns ends_newline more ttyNr,
    IStream.integer_columns ends_newline more tpgid,
    IStream.integer_columns_of_lt ends_newline more ordered above,
    IStream.integer_failed]

end Parse

section Name

variable {line : StatLine}

theorem mem_fields {char : Char} (charMem : char ∈ line.fields) :
    char = ' ' ∨ char = '-' ∨ char.isDigit = true ∨ char.isAlpha = true ∨ char = '\n' := by
  simp only [StatLine.fields, List.singleton_append, List.mem_cons, List.mem_append,
    List.not_mem_nil, or_false] at charMem
  rcases charMem with blank | rfl | column | newline
  · exact .inl blank
  · exact .inr (.inr (.inr (.inl line.isLetter)))
  · rcases mem_columns column with blank | minus | digit
    · exact .inl blank
    · exact .inr (.inl minus)
    · exact .inr (.inr (.inl digit))
  · exact .inr (.inr (.inr (.inr newline)))

theorem find_text : Text.find '(' line.text = some (print line.pid ++ [' ']).length := by
  apply Text.find_append
  intro charMem
  rcases List.mem_append.mp charMem with printed | blank
  · exact absurd (mem_print printed) (by decide)
  · exact absurd (List.mem_singleton.mp blank) (by decide)

theorem text_eq_append : line.text =
    (print line.pid ++ [' '] ++ '(' :: line.comm) ++ ')' :: line.fields := by
  simp [StatLine.text]

theorem rfind_text : Text.rfind ')' line.text =
    some (print line.pid ++ [' '] ++ '(' :: line.comm).length := by
  rw [text_eq_append]
  apply Text.rfind_append
  intro charMem
  exact absurd (mem_fields charMem) (by decide)

/-- Whatever the name contains, the statistics start behind it. -/
theorem startAtState_text : startAtState line.text = line.fields := by
  have behind : line.text.drop ((print line.pid ++ [' '] ++ '(' :: line.comm).length + 1) =
      line.fields := by
    rw [text_eq_append, ← List.drop_drop, List.drop_left]
    rfl
  rw [startAtState, rfind_text, Option.elim_some, behind]
  apply Text.upTo_of_notMem
  intro charMem
  exact absurd (mem_fields charMem) (by decide)

theorem name_text : name line.text =
    assign (line.comm ++ ')' :: line.fields) (toInt line.comm.length) := by
  have behind : line.text.drop ((print line.pid ++ [' ']).length + 1) =
      line.comm ++ ')' :: line.fields := by
    rw [StatLine.text, ← List.drop_drop, List.drop_left]
    rfl
  have inside : (print line.pid ++ [' ']).length <
      (print line.pid ++ [' '] ++ '(' :: line.comm).length := by simp
  have length : ((print line.pid ++ [' '] ++ '(' :: line.comm).length : ℤ) -
      (print line.pid ++ [' ']).length - 1 = line.comm.length := by
    rw [List.length_append, List.length_cons]
    omega
  simp only [name, find_text, rfind_text, inside, if_true, behind, length]

/-- The length of the name is cast to `int`. -/
theorem name_text_iff : name line.text = some line.comm ↔ line.comm.length < 2 ^ 31 := by
  rw [name_text, assign]
  constructor
  · intro named
    by_contra long
    split at named
    · cases named
    · have taken := congrArg List.length (Option.some.inj named)
      have upper := @BitVec.toInt_lt 32 (BitVec.ofInt 32 line.comm.length)
      rw [List.length_take, List.length_append] at taken
      rw [toInt] at taken
      omega
  · intro short
    have same : toInt line.comm.length = line.comm.length := by
      rw [toInt, BitVec.toInt_ofInt]
      apply Int.bmod_eq_of_le_mul_two
      · omega
      · omega
    rw [same, if_neg (by omega), Int.toNat_natCast, List.take_left]

end Name

variable {R : Type*} [Double R] {pm : Procmon R} {kP : R} {line : StatLine}

theorem decodes_iff_parse {stale : Stale} :
    Decodes pm kP stale line ↔
      line.comm.length < 2 ^ 31 ∧
        (StatData.zero.parse stale line.fields pm.kbPerPage).utime = line.utime ∧
        (StatData.zero.parse stale line.fields pm.kbPerPage).stime = line.stime ∧
        (StatData.zero.parse stale line.fields pm.kbPerPage).rssKb = line.rss * pm.kbPerPage := by
  have nonempty : line.text ≠ [] :=
    List.append_ne_nil_of_right_ne_nil _ (List.cons_ne_nil _ _)
  rw [Decodes, Procmon.tick, if_neg nonempty, startAtState_text]
  constructor
  · rintro ⟨ticked, worked, named, decoded⟩
    rcases Option.map_eq_some_iff.mp worked with ⟨found, isName, rfl⟩
    change found = line.comm at named
    rw [named] at isName
    exact ⟨name_text_iff.mp isName, decoded⟩
  · rintro ⟨short, decoded⟩
    rw [name_text_iff.mpr short]
    exact ⟨_, rfl, rfl, decoded⟩

theorem toLongLong_eq_iff (value : ℤ) :
    toLongLong value = value ↔ -2 ^ 63 ≤ value ∧ value ≤ 2 ^ 63 - 1 := by
  constructor
  · intro same
    have upper := @BitVec.toInt_lt 64 (BitVec.ofInt 64 value)
    have lower := @BitVec.le_toInt 64 (BitVec.ofInt 64 value)
    rw [toLongLong] at same
    omega
  · rintro ⟨lower, upper⟩
    rw [toLongLong, BitVec.toInt_ofInt]
    apply Int.bmod_eq_of_le_mul_two
    · omega
    · omega

/--
For every line of the kernel, and whatever the uninitialised variables hold, a tick decodes
it if and only if the name is shorter than 2^31, the highest flag is not set, and the
resident size in kilobytes is a `long long`.
-/
theorem decodes_iff (pm : Procmon R) (kP : R) (line : StatLine)
    (page : 0 < pm.kbPerPage ∧ pm.kbPerPage < 2 ^ 31) :
    (∀ stale, Decodes pm kP stale line) ↔
      line.comm.length < 2 ^ 31 ∧ line.flags < 2 ^ 31 ∧
        -2 ^ 63 ≤ line.rss * pm.kbPerPage ∧ line.rss * pm.kbPerPage ≤ 2 ^ 63 - 1 := by
  simp only [decodes_iff_parse]
  constructor
  · intro decodes
    have small : line.flags < 2 ^ 31 := by
      by_contra large
      have first := (decodes ⟨0, 0⟩).2.2.2
      have second := (decodes ⟨0, 1⟩).2.2.2
      have onePage : toLongLong (1 * pm.kbPerPage) = 1 * pm.kbPerPage := by
        rw [toLongLong_eq_iff]
        omega
      have noPage : toLongLong (0 * pm.kbPerPage) = 0 := by
        rw [Int.zero_mul]
        rfl
      rw [rssKb_parse_fields (not_lt.mp large), noPage] at first
      rw [rssKb_parse_fields (not_lt.mp large), onePage] at second
      omega
    have rssKb := (decodes ⟨0, 0⟩).2.2.2
    rw [parse_fields small] at rssKb
    exact ⟨(decodes ⟨0, 0⟩).1, small, (toLongLong_eq_iff _).mp rssKb⟩
  · rintro ⟨short, small, fits⟩ stale
    rw [parse_fields small]
    exact ⟨short, rfl, rfl, (toLongLong_eq_iff _).mpr fits⟩

/-- A process with a bracket in its name, and with these flags. -/
def StatLine.bracket (flags : ℤ) (flagsFit : 0 ≤ flags ∧ flags < 2 ^ 32) : StatLine where
  pid := 812
  comm := ['a', ')', ' ', '(', 'b']
  state := 'S'
  ppid := 1
  pgrp := 812
  session := 812
  ttyNr := 0
  tpgid := -1
  flags := flags
  minflt := 120
  cminflt := 0
  majflt := 2
  cmajflt := 0
  utime := 37
  stime := 5
  cutime := 0
  cstime := 0
  priority := 20
  nice := 0
  numThreads := 1
  itrealvalue := 0
  starttime := 4711
  vsize := 2600960
  rss := 250
  rsslim := 18446744073709551615
  later := [1, 0]
  isLetter := rfl
  intsFit := by decide
  flagsFit := flagsFit
  longsFit := by decide
  rsslimFits := by decide

theorem decodes_bracket :
    Decodes (.new 4 100 : Procmon ℚ) 3 ⟨7, 7⟩ (.bracket 4194304 (by decide)) :=
  (decodes_iff (.new 4 100 : Procmon ℚ) 3 (.bracket 4194304 (by decide)) (by decide)).mpr
    (by decide) ⟨7, 7⟩

/-- With the flag 0x80000000, which suspends a task, the times stay zero. -/
theorem not_decodes_bracket :
    ¬∀ stale, Decodes (.new 4 100 : Procmon ℚ) 3 stale (.bracket 2147483648 (by decide)) := by
  intro decodes
  exact absurd (decodes_iff_parse.mp (decodes ⟨0, 0⟩)).2.1 (by decide +kernel)

end LoadBalance.Process
