import LoadBalance.Lib.Scientific
import LoadBalance.Monitor.Descriptors
import LoadBalance.Monitor.Diskstats

/-!
# The four files of a tick

What `tick` of `pm.h` does before it computes: it reads `meminfo`, `uptime`, `diskstats` and
`stat`, in this order and each to its end, and parses them if none of them was empty. The
functions are the same in `promon_all.cc`. The parsers take their numbers by position only,
and a variable which was not extracted keeps what it holds.
-/

universe u

namespace LoadBalance.Monitor

open Decimal
open Process (readLoop toLongLong)

/-- What the calls of one `readProcFile` return. -/
structure FileCalls where
  fd : ℤ
  reads : List (ReadResult Char)

/-- `readProcFile`, if its loop is left with the last of these reads. -/
def readProcFile (calls : FileCalls) : Option (Except Halt (List Char)) :=
  if calls.fd < 0 then some (.error (.exit "open"))
  else (readLoop [] calls.reads).map .ok

/-- `istringstream iss(content.data())` -/
def stringStream (content : List Char) : IStream := .ofText (Text.upTo '\x00' content)

/-- What the numbers of `StatData::parse` hold before anything was extracted. -/
structure StatLocals where
  user : ℤ
  nice : ℤ
  sys : ℤ
  idle : ℤ
  iowait : ℤ
  irq : ℤ
  softirq : ℤ

def StatData.parse (stale : StatLocals) (startAtState : List Char) : StatData :=
  let (_, iss) := IStream.word [] (stringStream startAtState)
  let (user, iss) := IStream.longLong stale.user iss
  let (nice, iss) := IStream.longLong stale.nice iss
  let (sys, iss) := IStream.longLong stale.sys iss
  let (idle, iss) := IStream.longLong stale.idle iss
  let (_, iss) := IStream.longLong stale.iowait iss
  let (irq, iss) := IStream.longLong stale.irq iss
  let (softirq, _) := IStream.longLong stale.softirq iss
  { idle0 := idle
    utime := user
    systime := sys
    allTime := toLongLong (user + nice + sys + idle + irq + softirq) }

/-- What the numbers of `MemData::parse` hold before anything was extracted. -/
structure MemLocals where
  memTotal : ℤ
  memFree : ℤ
  buffers : ℤ
  cached : ℤ
  memAvailable : ℤ

/-- `iss >> tmp >> value >> kb` -/
def memLine (old : ℤ) (iss : IStream) : ℤ × IStream :=
  let (_, iss) := IStream.word [] iss
  let (value, iss) := IStream.longLong old iss
  let (_, iss) := IStream.word [] iss
  (value, iss)

def MemData.parse (stale : MemLocals) (meminfo : List Char) : MemData :=
  let (memTotal, iss) := memLine stale.memTotal (stringStream meminfo)
  let (memFree, iss) := memLine stale.memFree iss
  let (_, iss) := memLine stale.memAvailable iss
  let (buffers, iss) := memLine stale.buffers iss
  let (cached, _) := memLine stale.cached iss
  { memIdle := toLongLong (memFree + buffers + cached)
    allMem := memTotal }

/-- `UpData::parse`, on an object which is zero. -/
def UpData.parse {R : Type u} [Double R] (upinfo : List Char) : UpData R where
  allTimes := (IStream.floating Double.ofRat (Double.ofRat 0) (stringStream upinfo)).1

/-- What the calls of one tick return, and what its uninitialised variables hold. -/
structure TickCalls where
  meminfo : FileCalls
  uptime : FileCalls
  diskstats : FileCalls
  stat : FileCalls
  statLocals : StatLocals
  memLocals : MemLocals
  ioLocals : Stale

section Tick

variable {R : Type u} [Double R]

/-- The files are parsed only if none is empty. -/
def parseFiles (fuel : ℕ) (calls : TickCalls) (meminfo uptime diskstats stat : List Char) :
    Option (Snapshot R) :=
  if stat = [] ∨ meminfo = [] ∨ diskstats = [] ∨ uptime = [] then
    some { meminfo := none, uptime := none, diskstats := none, stat := none }
  else
    (IoData.parse fuel calls.ioLocals (Text.upTo '\x00' diskstats)).map fun ioData =>
      { meminfo := some (.parse calls.memLocals meminfo)
        uptime := some (.parse uptime)
        diskstats := some ioData
        stat := some (.parse calls.statLocals stat) }

/-- The first half of `tick`: the reads and the parsers, whose loop has so many rounds at
most. -/
def decode (fuel : ℕ) (calls : TickCalls) : Option (Except Halt (Snapshot R)) :=
  match readProcFile calls.meminfo with
  | none => none
  | some (.error halt) => some (.error halt)
  | some (.ok meminfo) =>
    match readProcFile calls.uptime with
    | none => none
    | some (.error halt) => some (.error halt)
    | some (.ok uptime) =>
      match readProcFile calls.diskstats with
      | none => none
      | some (.error halt) => some (.error halt)
      | some (.ok diskstats) =>
        match readProcFile calls.stat with
        | none => none
        | some (.error halt) => some (.error halt)
        | some (.ok stat) => (parseFiles fuel calls meminfo uptime diskstats stat).map .ok

end Tick

section Reads

variable {calls : FileCalls} {text : List Char}

/-- The file is opened and read in pieces, cut anywhere, until a `read` moves nothing. -/
def FileCalls.Deliver (calls : FileCalls) (text : List Char) : Prop :=
  0 ≤ calls.fd ∧ ∃ (pieces : List (List Char)) (last : ReadResult Char),
    calls.reads = pieces.map .data ++ [last] ∧ [] ∉ pieces ∧ pieces.flatten = text ∧
      ∀ piece, last = .data piece → piece = []

theorem readLoop_pieces {pieces : List (List Char)} {last : ReadResult Char}
    (nonempty : [] ∉ pieces) (ends : ∀ piece, last = .data piece → piece = [])
    (content : List Char) :
    readLoop content (pieces.map .data ++ [last]) = some (content ++ pieces.flatten) := by
  induction pieces generalizing content with
  | nil =>
      cases last with
      | error errno => simp [readLoop]
      | data piece => simp [ends piece rfl, readLoop]
  | cons piece pieces ih =>
      simp only [List.mem_cons, not_or] at nonempty
      rcases List.exists_cons_of_ne_nil (Ne.symm nonempty.1) with ⟨char, chars, rfl⟩
      rw [List.map_cons, List.cons_append, readLoop, ih nonempty.2, List.append_assoc,
        List.flatten_cons]

theorem readProcFile_of_deliver (deliver : calls.Deliver text) :
    readProcFile calls = some (.ok text) := by
  rcases deliver with ⟨opened, pieces, last, reads, nonempty, rfl, ends⟩
  rw [readProcFile, if_neg (not_lt.mpr opened), reads, readLoop_pieces nonempty ends,
    List.nil_append, Option.map_some]

end Reads

/-- The line of `/proc/stat` about all processors, with any columns behind the first seven. -/
structure CpuLine where
  user : ℤ
  nice : ℤ
  sys : ℤ
  idle : ℤ
  iowait : ℤ
  irq : ℤ
  softirq : ℤ
  others : List ℤ
  fits : ∀ value ∈ [user, nice, sys, idle, iowait, irq, softirq],
    -2 ^ 63 ≤ value ∧ value ≤ 2 ^ 63 - 1

def CpuLine.text (line : CpuLine) (rest : List Char) : List Char :=
  ['c', 'p', 'u', ' '] ++ (columns (line.user :: line.nice :: line.sys :: line.idle ::
    line.iowait :: line.irq :: line.softirq :: line.others) ++ '\n' :: rest)

/-- A line of `/proc/meminfo`. -/
structure MemLine where
  name : List Char
  gap : ℕ
  value : ℤ
  nonempty : name ≠ []
  isWord : ∀ char ∈ name, isSpace char = false
  fits : -2 ^ 63 ≤ value ∧ value ≤ 2 ^ 63 - 1

def MemLine.text (line : MemLine) (rest : List Char) : List Char :=
  line.name ++ (DiskLine.blanks (line.gap + 1) ++ (print line.value ++
    (DiskLine.blanks 1 ++ (['k', 'B'] ++ '\n' :: rest))))

/-- A number below 100 with two digits. -/
def twoDigits (number : ℕ) : List Char :=
  Nat.toDigits 10 (number / 10) ++ Nat.toDigits 10 (number % 10)

/-- The state of the kernel as it prints it into the four files. -/
structure Kernel where
  cpu : CpuLine
  total : MemLine
  free : MemLine
  available : MemLine
  buffers : MemLine
  cached : MemLine
  seconds : ℕ
  hundredths : ℕ
  disks : List DiskLine
  lastDisk : DiskLine
  /-- What else is in the files. -/
  statRest : List Char
  memRest : List Char
  uptimeRest : List Char
  small : hundredths < 100
  isLast : disks.getLast? = some lastDisk

namespace Kernel

def stat (kernel : Kernel) : List Char := kernel.cpu.text kernel.statRest

def meminfo (kernel : Kernel) : List Char :=
  kernel.total.text (kernel.free.text (kernel.available.text (kernel.buffers.text
    (kernel.cached.text kernel.memRest))))

/-- The time as a number with two decimals. -/
def time (kernel : Kernel) : Scientific.Numeral where
  negative := false
  whole := Nat.toDigits 10 kernel.seconds
  fraction := twoDigits kernel.hundredths
  exponent := none
  rest := ' ' :: kernel.uptimeRest

def uptime (kernel : Kernel) : List Char := kernel.time.text

def diskstats (kernel : Kernel) : List Char := Monitor.diskstats kernel.disks

def idleMemory (kernel : Kernel) : ℤ :=
  kernel.free.value + kernel.buffers.value + kernel.cached.value

/-- The time of the whole disks, with the last number once more if the last is one. -/
def ioTime (kernel : Kernel) : ℤ :=
  diskTime kernel.disks + if kernel.lastDisk.Whole then kernel.lastDisk.lastCounter else 0

/-- The sums stay in the range of their type, and no text has the byte 0 in it. -/
structure Fits (kernel : Kernel) : Prop where
  idleMemory : -2 ^ 63 ≤ kernel.idleMemory ∧ kernel.idleMemory ≤ 2 ^ 63 - 1
  ioTime : -2 ^ 63 ≤ kernel.ioTime ∧ kernel.ioTime ≤ 2 ^ 63 - 1
  plain : ∀ text ∈ [kernel.stat, kernel.meminfo, kernel.uptime, kernel.diskstats],
    '\x00' ∉ text

def reading {R : Type u} [Double R] (kernel : Kernel) : Reading R where
  memData := { memIdle := kernel.idleMemory, allMem := kernel.total.value }
  upData := { allTimes := Double.ofRat (kernel.seconds + kernel.hundredths / 100) }
  ioData := { ioRun := kernel.ioTime }
  statData := {
    idle0 := kernel.cpu.idle
    utime := kernel.cpu.user
    systime := kernel.cpu.sys
    allTime := toLongLong (kernel.cpu.user + kernel.cpu.nice + kernel.cpu.sys +
      kernel.cpu.idle + kernel.cpu.irq + kernel.cpu.softirq) }

end Kernel

theorem toLongLong_of_fits {value : ℤ} (fits : -2 ^ 63 ≤ value ∧ value ≤ 2 ^ 63 - 1) :
    toLongLong value = value := by
  rw [toLongLong, BitVec.toInt_ofInt]
  apply Int.bmod_eq_of_le_mul_two
  · omega
  · omega

section Parsers

theorem stringStream_of_plain {text : List Char} (plain : '\x00' ∉ text) :
    stringStream text = .ofText text := by
  rw [stringStream, Text.upTo_of_notMem plain]

theorem parse_cpuLine (stale : StatLocals) (line : CpuLine) (rest : List Char)
    (plain : '\x00' ∉ line.text rest) :
    StatData.parse stale (line.text rest) =
      { idle0 := line.idle
        utime := line.user
        systime := line.sys
        allTime := toLongLong (line.user + line.nice + line.sys + line.idle + line.irq +
          line.softirq) } := by
  have fits := line.fits
  simp only [List.forall_mem_cons] at fits
  rcases fits with ⟨user, nice, sys, idle, iowait, irq, softirq, _⟩
  have ends : Ends ('\n' :: rest) := ends_cons rfl rest
  have more : '\n' :: rest ≠ [] := List.cons_ne_nil _ _
  have isBlank : ∀ char ∈ [' ', ' '], isSpace char = true := by simp [isSpace]
  have cpu : IStream.word [] (.ofText (line.text rest)) = (['c', 'p', 'u'], .ofText (' ' ::
      (columns (line.user :: line.nice :: line.sys :: line.idle :: line.iowait :: line.irq ::
        line.softirq :: line.others) ++ '\n' :: rest))) := by
    have word := @IStream.word_append [] (' ' :: (columns (line.user :: line.nice :: line.sys ::
      line.idle :: line.iowait :: line.irq :: line.softirq :: line.others) ++ '\n' :: rest))
      ['c', 'p', 'u'] (List.forall_mem_nil _) (List.cons_ne_nil _ _) (by simp [isSpace])
      (by simp [isSpace]) (List.cons_ne_nil _ _) []
    exact word
  have first : ∀ old, IStream.longLong old (.ofText (' ' :: (columns (line.user :: line.nice ::
      line.sys :: line.idle :: line.iowait :: line.irq :: line.softirq :: line.others) ++
        '\n' :: rest))) = (line.user, .ofText (columns (line.nice :: line.sys :: line.idle ::
          line.iowait :: line.irq :: line.softirq :: line.others) ++ '\n' :: rest)) := by
    intro old
    rw [columns_cons_append]
    exact IStream.integer_print_append isBlank (ends_columns_append ends)
      (List.append_ne_nil_of_right_ne_nil _ more) user old
  simp only [StatData.parse, stringStream_of_plain plain, cpu, first]
  simp only [IStream.longLong, IStream.integer_columns ends more nice,
    IStream.integer_columns ends more sys, IStream.integer_columns ends more idle,
    IStream.integer_columns ends more iowait, IStream.integer_columns ends more irq,
    IStream.integer_columns ends more softirq]

/-- A line is read from the end of the line before. -/
theorem memLine_text (line : MemLine) {space rest : List Char}
    (isBlank : ∀ char ∈ space, isSpace char = true) (old : ℤ) :
    memLine old (.ofText (space ++ line.text rest)) = (line.value, .ofText ('\n' :: rest)) := by
  have named := @IStream.word_append space (DiskLine.blanks (line.gap + 1) ++ (print line.value ++
    (DiskLine.blanks 1 ++ (['k', 'B'] ++ '\n' :: rest)))) line.name isBlank line.nonempty
    line.isWord (by simp [DiskLine.blanks, List.replicate_succ, isSpace])
    (IoParser.blanks_append_ne_nil line.gap _) []
  have number := @IStream.integer_print_append (-2 ^ 63) (2 ^ 63 - 1) line.value
    (DiskLine.blanks (line.gap + 1)) (DiskLine.blanks 1 ++ (['k', 'B'] ++ '\n' :: rest))
    IoParser.isSpace_of_mem_blanks (IoParser.ends_blanks_append 0 _)
    (IoParser.blanks_append_ne_nil 0 _) line.fits old
  have unit := @IStream.word_append (DiskLine.blanks 1) ('\n' :: rest) ['k', 'B']
    IoParser.isSpace_of_mem_blanks (List.cons_ne_nil _ _) (by simp [isSpace]) (by simp [isSpace])
    (List.cons_ne_nil _ _) []
  simp only [memLine, MemLine.text, named, IStream.longLong, number, unit]

theorem parse_meminfo (stale : MemLocals) {kernel : Kernel} (fits : kernel.Fits) :
    MemData.parse stale kernel.meminfo =
      { memIdle := kernel.idleMemory, allMem := kernel.total.value } := by
  have newline : ∀ char ∈ ['\n'], isSpace char = true := List.forall_mem_singleton.mpr rfl
  have none : ∀ char ∈ ([] : List Char), isSpace char = true := List.forall_mem_nil _
  have plain : '\x00' ∉ kernel.meminfo := fits.plain _ (by simp)
  have first : ∀ (line : MemLine) (rest : List Char) (old : ℤ),
      memLine old (.ofText (line.text rest)) = (line.value, .ofText ('\n' :: rest)) :=
    fun line rest old => @memLine_text line [] rest none old
  have later : ∀ (line : MemLine) (rest : List Char) (old : ℤ),
      memLine old (.ofText ('\n' :: line.text rest)) = (line.value, .ofText ('\n' :: rest)) :=
    fun line rest old => @memLine_text line ['\n'] rest newline old
  simp only [MemData.parse, stringStream_of_plain plain]
  simp only [Kernel.meminfo, first, later]
  rw [← Kernel.idleMemory, toLongLong_of_fits fits.idleMemory]

theorem isDigit_of_mem_twoDigits {number : ℕ} {char : Char}
    (charMem : char ∈ twoDigits number) : char.isDigit = true := by
  rcases List.mem_append.mp charMem with tens | units
  · exact isDigit_of_mem_toDigits tens
  · exact isDigit_of_mem_toDigits units

theorem time_printed (kernel : Kernel) : kernel.time.Printed where
  some := Nat.toDigits_ne_nil
  whole _ := isDigit_of_mem_toDigits
  fraction _ := isDigit_of_mem_twoDigits
  exponent := by simp [Kernel.time]
  ends := by simp [Kernel.time, Scientific.Numeral.Stops]

theorem value_time (kernel : Kernel) :
    kernel.time.value = kernel.seconds + kernel.hundredths / 100 := by
  have tens : kernel.hundredths / 10 < 10 := by
    have small := kernel.small
    omega
  have units : kernel.hundredths % 10 < 10 := Nat.mod_lt _ (by decide)
  have length : (twoDigits kernel.hundredths).length = 2 := by
    rw [twoDigits, Nat.toDigits_of_lt_base tens, Nat.toDigits_of_lt_base units]
    rfl
  have hundredths : Nat.ofDigitChars 10 (twoDigits kernel.hundredths) kernel.seconds =
      100 * kernel.seconds + kernel.hundredths := by
    rw [twoDigits, Nat.toDigits_of_lt_base tens, Nat.toDigits_of_lt_base units,
      List.singleton_append, Nat.ofDigitChars_cons_digitChar_of_lt_ten tens,
      Nat.ofDigitChars_cons_digitChar_of_lt_ten units, Nat.ofDigitChars_nil]
    omega
  have digits : Nat.ofDigitChars 10 (Nat.toDigits 10 kernel.seconds ++
      twoDigits kernel.hundredths) 0 = 100 * kernel.seconds + kernel.hundredths := by
    rw [Nat.ofDigitChars_append, Nat.ofDigitChars_ten_toDigits, hundredths]
  simp only [Scientific.Numeral.value, Scientific.Numeral.power, Kernel.time, digits, length]
  push_cast
  norm_num
  ring

theorem parse_uptime {R : Type u} [Double R] {kernel : Kernel} (fits : kernel.Fits) :
    (UpData.parse kernel.uptime : UpData R) =
      { allTimes := Double.ofRat (kernel.seconds + kernel.hundredths / 100) } := by
  have plain : '\x00' ∉ kernel.uptime := fits.plain _ (by simp)
  rw [UpData.parse, stringStream_of_plain plain, Kernel.uptime,
    IStream.floating_text _ (time_printed kernel), value_time]

theorem parse_disks (stale : Stale) {kernel : Kernel} (fits : kernel.Fits) :
    IoData.parse (kernel.disks.length + 1) stale (Text.upTo '\x00' kernel.diskstats) =
      some { ioRun := kernel.ioTime } := by
  have plain : '\x00' ∉ kernel.diskstats := fits.plain _ (by simp)
  rw [Text.upTo_of_notMem plain, Kernel.diskstats, parse_diskstats stale kernel.isLast]
  have sum : BitVec.ofInt 64 (diskTime kernel.disks) +
      (if kernel.lastDisk.Whole then BitVec.ofInt 64 kernel.lastDisk.lastCounter else 0) =
        BitVec.ofInt 64 kernel.ioTime := by
    rw [Kernel.ioTime]
    split
    · rw [BitVec.ofInt_add]
    · simp
  rw [sum]
  exact congrArg (fun ioRun => some (IoData.mk ioRun)) (toLongLong_of_fits fits.ioTime)

end Parsers

end LoadBalance.Monitor
