import LoadBalance.Monitor.Charges

/-!
# The monitor on its own

`promon_all.cc` is a program with a class `Procmon` like that of `pm.h`, from which the
latter was made. Its `tick` returns the usages, as fractions and not in percent, to the
loop of `main` which prints them, where the one of `pm.h` leaves them for `getStat`. The
two read and parse the same files with the same code.
-/

universe u

namespace LoadBalance.Promon

open Monitor (StatData UpData IoData Reading Snapshot hexin readings readingAt Increasing)

/-- The fields of a `Procmon` of `promon_all.cc`. -/
structure Procmon (R : Type u) where
  ticked : Bool
  sec : R
  curCpuUsage : R
  curMemUsage : R
  curIoUsage : R
  lastStatData : StatData
  lastIoData : IoData
  lastUpData : UpData R
  kClockTicksPerSecond : ℤ

namespace Procmon

section Arithmetic

variable {R : Type u} [Double R]

def new (kClockTicksPerSecond : ℤ) (lastUpData : UpData R) : Procmon R where
  ticked := false
  sec := Double.ofRat 0
  curCpuUsage := Double.ofRat 0
  curMemUsage := Double.ofRat 0
  curIoUsage := Double.ofRat 0
  lastStatData := { idle0 := 0, utime := 0, systime := 0, allTime := 0 }
  lastIoData := { ioRun := 0 }
  lastUpData := lastUpData
  kClockTicksPerSecond := kClockTicksPerSecond

/-- The branch of `tick` which is taken from the second complete snapshot on. -/
def measure (pm : Procmon R) (reading : Reading R) : Procmon R :=
  let sec := reading.upData.allTimes - pm.lastUpData.allTimes
  let busyTime := reading.statData.utime + reading.statData.systime -
    pm.lastStatData.utime - pm.lastStatData.systime
  let membusy := reading.memData.allMem - reading.memData.memIdle
  let realIoS := Double.ofInt (reading.ioData.ioRun - pm.lastIoData.ioRun) / Double.ofRat 1000
  { pm with
    sec
    curCpuUsage := Double.ofInt busyTime /
      (sec * Double.ofInt pm.kClockTicksPerSecond * Double.ofInt hexin)
    curMemUsage := Double.ofInt membusy / Double.ofInt reading.memData.allMem
    curIoUsage := realIoS / sec }

def keep (pm : Procmon R) (reading : Reading R) : Procmon R :=
  { pm with
    lastStatData := reading.statData
    lastIoData := reading.ioData
    lastUpData := reading.upData
    ticked := true }

def current (pm : Procmon R) : R × R × R := (pm.curCpuUsage, pm.curMemUsage, pm.curIoUsage)

/-- A tick, with the triple which it returns. -/
def tick (pm : Procmon R) (snapshot : Snapshot R) : Procmon R × (R × R × R) :=
  match snapshot.reading with
  | none => (pm, (Double.ofRat 0, Double.ofRat 0, Double.ofRat 0))
  | some reading =>
      let pm := (if pm.ticked then pm.measure reading else pm).keep reading
      (pm, pm.current)

def ticks (pm : Procmon R) (snapshots : List (Snapshot R)) : Procmon R :=
  snapshots.foldl (fun pm snapshot => (pm.tick snapshot).1) pm

end Arithmetic

end Procmon

/-- Each usage of a triple in percent. -/
def percent (triple : ℚ × ℚ × ℚ) : ℚ × ℚ × ℚ :=
  (100 * triple.1, 100 * triple.2.1, 100 * triple.2.2)

/-- The two monitors have the same records, and usages of the same size. -/
structure Related (pm : Monitor.Procmon ℚ) (all : Procmon ℚ) : Prop where
  ticked : pm.ticked = all.ticked
  current : pm.getStat = percent all.current
  statData : pm.lastStatData = all.lastStatData
  ioData : pm.lastIoData = all.lastIoData
  upData : pm.ticked = true → pm.lastUpData = all.lastUpData
  clock : pm.kClockTicksPerSecond = all.kClockTicksPerSecond

variable {pm : Monitor.Procmon ℚ} {all : Procmon ℚ}

theorem related_new (kClockTicksPerSecond : ℤ) (first second : UpData ℚ) :
    Related (.new kClockTicksPerSecond first) (.new kClockTicksPerSecond second) where
  ticked := rfl
  current := by
    simp [Monitor.Procmon.getStat, Monitor.Procmon.new, percent, Procmon.current, Procmon.new,
      Double.ofRat]
  statData := rfl
  ioData := rfl
  upData := nofun
  clock := rfl

/-- The formulas of the two branches differ by the factor 100. -/
theorem measure_related (related : Related pm all) (ticked : pm.ticked = true)
    (reading : Reading ℚ) :
    ((pm.elapse reading).publish ((pm.elapse reading).measure reading)).getStat =
      percent (all.measure reading).current := by
  simp only [Monitor.Procmon.getStat, Monitor.Procmon.publish, Monitor.Procmon.measure,
    Monitor.Procmon.elapse, percent, Procmon.current, Procmon.measure, related.statData,
    related.ioData, related.upData ticked, related.clock, Double.ofRat, mul_comm (100 : ℚ)]

theorem Related.tick (related : Related pm all) (snapshot : Snapshot ℚ) :
    Related (pm.tick snapshot) (all.tick snapshot).1 := by
  cases read : snapshot.reading with
  | none =>
      rw [Monitor.Procmon.tick_of_none read, Procmon.tick, read]
      exact related
  | some reading =>
      cases ticked : pm.ticked with
      | true =>
          have allTicked : all.ticked = true := related.ticked ▸ ticked
          rw [(Monitor.Procmon.tick_of_ticked read ticked).1, Procmon.tick, read]
          simp only [allTicked, if_true]
          exact ⟨rfl, measure_related related ticked reading, rfl, rfl, fun _ => rfl, related.clock⟩
      | false =>
          have allFresh : all.ticked = false := related.ticked ▸ ticked
          rw [(Monitor.Procmon.tick_of_first read ticked).1, Procmon.tick, read]
          simp only [allFresh, Bool.false_eq_true, if_false]
          exact ⟨rfl, related.current, rfl, rfl, fun _ => rfl, related.clock⟩

theorem Related.ticks (related : Related pm all) (snapshots : List (Snapshot ℚ)) :
    Related (pm.ticks snapshots) (all.ticks snapshots) := by
  induction snapshots generalizing pm all with
  | nil => exact related
  | cons snapshot snapshots ih => exact ih (related.tick snapshot)

/--
For every sequence of ticks, `getStat` of `pm.h` returns after a tick with all files 100
times what this tick returns in `promon_all.cc`. At a tick with an empty file the latter
returns zeros, and `getStat` what it has returned before.
-/
theorem getStat_eq_percent (kClockTicksPerSecond : ℤ) (first second : UpData ℚ)
    (snapshots : List (Snapshot ℚ)) (snapshot : Snapshot ℚ) :
    let pm := (Monitor.Procmon.new kClockTicksPerSecond first).ticks snapshots
    let all := (Procmon.new kClockTicksPerSecond second).ticks snapshots
    (snapshot.reading ≠ none → (pm.tick snapshot).getStat = percent (all.tick snapshot).2) ∧
      (snapshot.reading = none →
        (all.tick snapshot).2 = (0, 0, 0) ∧ (pm.tick snapshot).getStat = pm.getStat ∧
          pm.getStat = percent all.current) := by
  intro pm all
  have related : Related pm all := (related_new kClockTicksPerSecond first second).ticks snapshots
  constructor
  · intro complete
    have next := (related.tick snapshot).current
    rcases Option.ne_none_iff_exists'.mp complete with ⟨reading, read⟩
    have returned : (all.tick snapshot).2 = (all.tick snapshot).1.current := by
      rw [Procmon.tick, read]
    rw [returned, next]
  · intro missing
    rw [Monitor.Procmon.tick_of_none missing, Procmon.tick, missing]
    exact ⟨rfl, rfl, related.current⟩

/-- Two complete snapshots, and then a tick which finds `/proc/uptime` empty. -/
theorem getStat_ne_percent_of_empty :
    let before := [(readingAt 10 100 500).snapshot, (readingAt 14 180 700).snapshot]
    let missing := { (readingAt 15 260 950).snapshot with uptime := none }
    Increasing (readings (before ++ [missing])) ∧
      (((Monitor.Procmon.new 100 ⟨0⟩).ticks before).tick missing).getStat = (10, 75, 5) ∧
      (((Procmon.new 100 ⟨0⟩).ticks before).tick missing).2 = (0, 0, 0) ∧
      (((Monitor.Procmon.new 100 ⟨0⟩).ticks before).tick missing).getStat ≠
        percent (((Procmon.new 100 ⟨0⟩).ticks before).tick missing).2 := by
  intro before missing
  have read : readings (before ++ [missing]) = [readingAt 10 100 500, readingAt 14 180 700] := rfl
  refine ⟨?_, by decide +kernel, by decide +kernel, by decide +kernel⟩
  rw [read]
  norm_num [Increasing, readingAt]

end LoadBalance.Promon
