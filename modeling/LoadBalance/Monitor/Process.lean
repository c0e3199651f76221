import Mathlib.Data.BitVec
import LoadBalance.Double
import LoadBalance.Lib.IStream
import LoadBalance.Lib.Text

/-!
# The monitor of one process

`procmon.cc` is a program of its own, whose class `Procmon` reads the `stat` file of one
process again and again. The file is one line. The name of the process is between the first
opening and the last closing bracket, and `StatData::parse` gets what is behind.
-/

universe u

namespace LoadBalance.Process

/-- What the local variables of `StatData::parse` hold before anything was extracted. -/
structure Stale where
  vsize : ℤ
  rss : ℤ

structure StatData where
  state : Char
  ppid : ℤ
  pgrp : ℤ
  session : ℤ
  ttyNr : ℤ
  tpgid : ℤ
  flags : ℤ
  minflt : ℤ
  cminflt : ℤ
  majflt : ℤ
  cmajflt : ℤ
  utime : ℤ
  stime : ℤ
  cutime : ℤ
  cstime : ℤ
  priority : ℤ
  nice : ℤ
  numThreads : ℤ
  itrealvalue : ℤ
  starttime : ℤ
  vsizeKb : ℤ
  rssKb : ℤ
  rsslim : ℤ
deriving DecidableEq, Repr

/-- The `int` which is left of a number. -/
def toInt (value : ℤ) : ℤ := (BitVec.ofInt 32 value).toInt

/-- The `long long` which is left of a number. -/
def toLongLong (value : ℤ) : ℤ := (BitVec.ofInt 64 value).toInt

namespace StatData

/-- All bytes are zero. -/
def zero : StatData where
  state := '\x00'
  ppid := 0
  pgrp := 0
  session := 0
  ttyNr := 0
  tpgid := 0
  flags := 0
  minflt := 0
  cminflt := 0
  majflt := 0
  cmajflt := 0
  utime := 0
  stime := 0
  cutime := 0
  cstime := 0
  priority := 0
  nice := 0
  numThreads := 0
  itrealvalue := 0
  starttime := 0
  vsizeKb := 0
  rssKb := 0
  rsslim := 0

def parse (data : StatData) (stale : Stale) (startAtState : List Char) (kbPerPage : ℤ) :
    StatData :=
  let (state, iss) := IStream.char data.state (.ofText startAtState)
  let (ppid, iss) := IStream.int data.ppid iss
  let (pgrp, iss) := IStream.int data.pgrp iss
  let (session, iss) := IStream.int data.session iss
  let (ttyNr, iss) := IStream.int data.ttyNr iss
  let (tpgid, iss) := IStream.int data.tpgid iss
  let (flags, iss) := IStream.int data.flags iss
  let (minflt, iss) := IStream.longLong data.minflt iss
  let (cminflt, iss) := IStream.longLong data.cminflt iss
  let (majflt, iss) := IStream.longLong data.majflt iss
  let (cmajflt, iss) := IStream.longLong data.cmajflt iss
  let (utime, iss) := IStream.longLong data.utime iss
  let (stime, iss) := IStream.longLong data.stime iss
  let (cutime, iss) := IStream.longLong data.cutime iss
  let (cstime, iss) := IStream.longLong data.cstime iss
  let (priority, iss) := IStream.longLong data.priority iss
  let (nice, iss) := IStream.longLong data.nice iss
  let (numThreads, iss) := IStream.longLong data.numThreads iss
  let (itrealvalue, iss) := IStream.longLong data.itrealvalue iss
  let (starttime, iss) := IStream.longLong data.starttime iss
  let (vsize, iss) := IStream.longLong stale.vsize iss
  let (rss, iss) := IStream.longLong stale.rss iss
  let (rsslim, _) := IStream.longLong data.rsslim iss
  { state, ppid, pgrp, session, ttyNr, tpgid, flags, minflt, cminflt, majflt, cmajflt, utime,
    stime, cutime, cstime, priority, nice, numThreads, itrealvalue, starttime, rsslim
    vsizeKb := vsize.tdiv 1024
    rssKb := toLongLong (rss * kbPerPage) }

end StatData

/-- `name.assign(text, count)`, which throws if the count, as a `size_t`, is too large. -/
def assign (text : List Char) (count : ℤ) : Option (List Char) :=
  if count < 0 then none else some (text.take count.toNat)

/-- The name of the process in its line, unless `assign` has thrown. -/
def name (stat : List Char) : Option (List Char) :=
  match Text.find '(' stat, Text.rfind ')' stat with
  | some lp, some rp =>
      if lp < rp then assign (stat.drop (lp + 1)) (toInt (rp - lp - 1)) else some []
  | _, _ => some []

/-- `stat.data() + rp + 1`, where `npos + 1` is 0. -/
def startAtState (stat : List Char) : List Char :=
  Text.upTo '\x00' (stat.drop ((Text.rfind ')' stat).elim 0 fun rp => rp + 1))

structure CpuTime where
  userTime : ℤ
  sysTime : ℤ

/-- The fields of a `Procmon` which `tick` uses. -/
structure Procmon (R : Type u) where
  ticked : Bool
  curCpuUsage : R
  curMemUsage : R
  lastStatData : StatData
  kbPerPage : ℤ
  kClockTicksPerSecond : ℤ

/-- The locals of `tick` which it has in the end, and what it returns. -/
structure Tick (R : Type u) where
  name : List Char
  pm : Procmon R
  usage : R × R

variable {R : Type u} [Double R]

def CpuTime.cpuUsage (time : CpuTime) (kPeriod kClockTicksPerSecond : R) : R :=
  Double.ofInt (toInt (time.userTime + time.sysTime)) / (kClockTicksPerSecond * kPeriod) /
    Double.ofRat 1

namespace Procmon

def new (kbPerPage kClockTicksPerSecond : ℤ) : Procmon R where
  ticked := false
  curCpuUsage := Double.ofRat 0
  curMemUsage := Double.ofRat 0
  lastStatData := .zero
  kbPerPage := kbPerPage
  kClockTicksPerSecond := kClockTicksPerSecond

def measure (pm : Procmon R) (kP : R) (statData : StatData) : Procmon R :=
  let time : CpuTime := {
    userTime := max 0 (toInt (statData.utime - pm.lastStatData.utime))
    sysTime := max 0 (toInt (statData.stime - pm.lastStatData.stime)) }
  { pm with
    curCpuUsage := time.cpuUsage kP (Double.ofInt pm.kClockTicksPerSecond)
    curMemUsage := Double.ofInt statData.rssKb / Double.ofRat 4194304 }

/-- `tick` on the content of the file, unless it throws. -/
def tick (pm : Procmon R) (kP : R) (stale : Stale) (stat : List Char) : Option (Tick R) :=
  if stat = [] then some ⟨[], pm, (Double.ofRat 0, Double.ofRat 0)⟩
  else
    (name stat).map fun name =>
      let statData := StatData.zero.parse stale (startAtState stat) pm.kbPerPage
      let pm := if pm.ticked then pm.measure kP statData else pm
      let pm := { pm with lastStatData := statData, ticked := true }
      ⟨name, pm, (pm.curCpuUsage, pm.curMemUsage)⟩

end Procmon

end LoadBalance.Process
