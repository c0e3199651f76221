import LoadBalance.Double

/-!
# Procmon

The class of `pm.h`, whose background thread calls `tick` again and again while
`mainThreadFunc` of the server asks it with `getStat`. A tick reads and parses four files
of `/proc`, works out the usages without holding the mutex, and stores them in one
critical section.

Usages are values of any type with the operations of `double`, so that nothing which is
proved depends on rounding. The counters of the kernel are integers.
-/

universe u

namespace LoadBalance.Monitor

structure StatData where
  idle0 : ℤ
  utime : ℤ
  systime : ℤ
  allTime : ℤ
deriving DecidableEq, Repr

structure UpData (R : Type u) where
  allTimes : R
deriving DecidableEq, Repr

structure MemData where
  memIdle : ℤ
  allMem : ℤ
deriving DecidableEq, Repr

structure IoData where
  ioRun : ℤ
deriving DecidableEq, Repr

/-- What `tick` has got out of the four files; a file is missing if it was read as empty. -/
structure Snapshot (R : Type u) where
  meminfo : Option MemData
  uptime : Option (UpData R)
  diskstats : Option IoData
  stat : Option StatData

/-- The data of a tick which has found all files. -/
structure Reading (R : Type u) where
  memData : MemData
  upData : UpData R
  ioData : IoData
  statData : StatData

/-- The three usages which belong together, in percent. -/
structure Usage (R : Type u) where
  cpu : R
  memory : R
  io : R
deriving DecidableEq, Repr

/-- The fields of a `Procmon` which `tick` and `getStat` use. -/
structure Procmon (R : Type u) where
  ticked : Bool
  sec : R
  curCpuUsage : R
  curMemUsage : R
  curIoUsage : R
  lastStatData : StatData
  lastIoData : IoData
  lastUpData : UpData R
  kClockTicksPerSecond : ℤ

/-- The CPUs for which the usage is scaled. -/
def hexin : ℤ := 2

variable {R : Type u}

/-- All four files, unless one of them is empty. -/
def Snapshot.reading (snapshot : Snapshot R) : Option (Reading R) :=
  match snapshot.meminfo, snapshot.uptime, snapshot.diskstats, snapshot.stat with
  | some memData, some upData, some ioData, some statData =>
      some { memData, upData, ioData, statData }
  | _, _, _, _ => none

section Arithmetic

variable [Double R]

/-- The usages before the first tick which publishes any. -/
def Usage.zero : Usage R where
  cpu := Double.ofRat 0
  memory := Double.ofRat 0
  io := Double.ofRat 0

namespace Procmon

/-- A new object. Its constructor leaves `lastUpDatat_` as it is. -/
def new (kClockTicksPerSecond : ℤ) (lastUpData : UpData R) : Procmon R where
  ticked := false
  sec := Double.ofRat 0
  curCpuUsage := Double.ofRat 0
  curMemUsage := Double.ofRat 0
  curIoUsage := Double.ofRat 0
  lastStatData := { idle0 := 0, utime := 0, systime := 0, allTime := 0 }
  lastIoData := { ioRun := 0 }
  lastUpData := lastUpData
  kClockTicksPerSecond := kClockTicksPerSecond

/-- The time since the last tick. -/
def elapse (pm : Procmon R) (reading : Reading R) : Procmon R :=
  { pm with sec := reading.upData.allTimes - pm.lastUpData.allTimes }

/-- `tmp_cpu`, `tmp_mem` and `tmp_io` -/
def measure (pm : Procmon R) (reading : Reading R) : Usage R where
  cpu := Double.ofInt (reading.statData.utime + reading.statData.systime -
      pm.lastStatData.utime - pm.lastStatData.systime) /
    (pm.sec * Double.ofInt pm.kClockTicksPerSecond * Double.ofInt hexin) * Double.ofRat 100
  memory := Double.ofInt (reading.memData.allMem - reading.memData.memIdle) /
    Double.ofInt reading.memData.allMem * Double.ofRat 100
  io := Double.ofInt (reading.ioData.ioRun - pm.lastIoData.ioRun) / Double.ofRat 1000 /
    pm.sec * Double.ofRat 100

/-- The critical section of `tick`. -/
def publish (pm : Procmon R) (usage : Usage R) : Procmon R :=
  { pm with
    curMemUsage := usage.memory
    curIoUsage := usage.io
    curCpuUsage := usage.cpu }

/-- The end of `tick`. -/
def keep (pm : Procmon R) (reading : Reading R) : Procmon R :=
  { pm with
    lastStatData := reading.statData
    lastIoData := reading.ioData
    lastUpData := reading.upData
    ticked := true }

def tick (pm : Procmon R) (snapshot : Snapshot R) : Procmon R :=
  match snapshot.reading with
  | none => pm
  | some reading =>
      if pm.ticked then
        let pm := pm.elapse reading
        (pm.publish (pm.measure reading)).keep reading
      else pm.keep reading

/-- The tuple in the order of `get<0>`, `get<1>` and `get<2>`. -/
def getStat (pm : Procmon R) : R × R × R := (pm.curCpuUsage, pm.curMemUsage, pm.curIoUsage)

def current (pm : Procmon R) : Usage R where
  cpu := pm.curCpuUsage
  memory := pm.curMemUsage
  io := pm.curIoUsage

omit [Double R] in
@[simp]
theorem current_publish (pm : Procmon R) (usage : Usage R) :
    (pm.publish usage).current = usage := rfl

end Procmon

end Arithmetic

end LoadBalance.Monitor
