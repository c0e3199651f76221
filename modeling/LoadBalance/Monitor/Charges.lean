import Mathlib.Algebra.BigOperators.Group.List.Basic
import Mathlib.Tactic.NormNum
import Mathlib.Tactic.Ring
import Mathlib.Tactic.FieldSimp
import LoadBalance.Monitor.Procmon

/-!
# What the published usages add up to

A usage times the time it stands for is the work of an interval. The intervals lie between
complete snapshots, each of which ends one and begins the next, whatever ticks with a
missing file come in between. So in exact arithmetic the published usages account for
everything between the first complete snapshot and the last one.
-/

universe u

namespace LoadBalance.Monitor

/-- A usage, with the time since the snapshot before. -/
structure Publication (R : Type u) where
  sec : R
  usage : Usage R

/-- The ticks which have found all files, in order. -/
def readings {R : Type u} (snapshots : List (Snapshot R)) : List (Reading R) :=
  snapshots.filterMap Snapshot.reading

/-- User and system time, in ticks of the clock. -/
def StatData.busy (data : StatData) : ℤ := data.utime + data.systime

namespace Procmon

section Runs

variable {R : Type u} [Double R]

/-- The state after a list of ticks. -/
def ticks (pm : Procmon R) (snapshots : List (Snapshot R)) : Procmon R :=
  snapshots.foldl tick pm

/-- What a tick stores in its critical section, if it comes to that. -/
def publication (pm : Procmon R) (snapshot : Snapshot R) : Option (Publication R) :=
  match snapshot.reading with
  | none => none
  | some _ =>
      if pm.ticked then some ⟨(pm.tick snapshot).sec, (pm.tick snapshot).current⟩ else none

def publications (pm : Procmon R) : List (Snapshot R) → List (Publication R)
  | [] => []
  | snapshot :: snapshots =>
      (pm.publication snapshot).toList ++ (pm.tick snapshot).publications snapshots

variable {pm : Procmon R} {snapshot : Snapshot R} {reading : Reading R}

theorem tick_of_none (missing : snapshot.reading = none) : pm.tick snapshot = pm := by
  rw [tick, missing]

theorem publication_of_none (missing : snapshot.reading = none) :
    pm.publication snapshot = none := by
  rw [publication, missing]

theorem tick_of_first (read : snapshot.reading = some reading) (first : pm.ticked = false) :
    pm.tick snapshot = pm.keep reading ∧ pm.publication snapshot = none := by
  simp [tick, publication, read, first]

theorem tick_of_ticked (read : snapshot.reading = some reading) (ticked : pm.ticked = true) :
    pm.tick snapshot =
        ((pm.elapse reading).publish ((pm.elapse reading).measure reading)).keep reading ∧
      pm.publication snapshot =
        some ⟨reading.upData.allTimes - pm.lastUpData.allTimes,
          (pm.elapse reading).measure reading⟩ := by
  have stepped : pm.tick snapshot =
      ((pm.elapse reading).publish ((pm.elapse reading).measure reading)).keep reading := by
    simp [tick, read, ticked]
  refine ⟨stepped, ?_⟩
  simp only [publication, read, ticked, if_true, stepped]
  rfl

theorem kClockTicksPerSecond_tick :
    (pm.tick snapshot).kClockTicksPerSecond = pm.kClockTicksPerSecond := by
  rw [tick]
  split
  · rfl
  · split
    · rfl
    · rfl

/-- Behind a complete snapshot, the records are those of this snapshot. -/
structure After (pm : Procmon R) (reading : Reading R) : Prop where
  ticked : pm.ticked = true
  statData : pm.lastStatData = reading.statData
  ioData : pm.lastIoData = reading.ioData
  upData : pm.lastUpData = reading.upData

theorem after_tick (read : snapshot.reading = some reading) :
    (pm.tick snapshot).After reading := by
  cases ticked : pm.ticked with
  | true =>
      rw [(tick_of_ticked read ticked).1]
      exact ⟨rfl, rfl, rfl, rfl⟩
  | false =>
      rw [(tick_of_first read ticked).1]
      exact ⟨rfl, rfl, rfl, rfl⟩

end Runs

end Procmon

section Charges

/-- The ticks of the clock which a usage stands for. -/
def Publication.busy (kClockTicksPerSecond : ℤ) (publication : Publication ℚ) : ℚ :=
  publication.usage.cpu * publication.sec * kClockTicksPerSecond * hexin / 100

/-- The milliseconds for which the disks have worked. -/
def Publication.ioRun (publication : Publication ℚ) : ℚ :=
  publication.usage.io * publication.sec / 100 * 1000

variable {pm : Procmon ℚ} {first reading : Reading ℚ}

theorem busy_measure (after : pm.After first) (clock : pm.kClockTicksPerSecond ≠ 0)
    (later : first.upData.allTimes < reading.upData.allTimes) :
    Publication.busy pm.kClockTicksPerSecond ⟨reading.upData.allTimes - pm.lastUpData.allTimes,
        (pm.elapse reading).measure reading⟩ =
      reading.statData.busy - first.statData.busy := by
  have elapsed : reading.upData.allTimes - first.upData.allTimes ≠ 0 := by
    have positive := sub_pos.mpr later
    exact ne_of_gt positive
  have ticks : (pm.kClockTicksPerSecond : ℚ) ≠ 0 := by exact_mod_cast clock
  simp only [Publication.busy, Procmon.measure, Procmon.elapse, after.statData, after.upData,
    Double.ofInt, Double.ofRat, hexin, StatData.busy]
  push_cast
  field_simp
  ring

theorem ioRun_measure (after : pm.After first)
    (later : first.upData.allTimes < reading.upData.allTimes) :
    Publication.ioRun ⟨reading.upData.allTimes - pm.lastUpData.allTimes,
        (pm.elapse reading).measure reading⟩ =
      reading.ioData.ioRun - first.ioData.ioRun := by
  have elapsed : reading.upData.allTimes - first.upData.allTimes ≠ 0 := by
    have positive := sub_pos.mpr later
    exact ne_of_gt positive
  simp only [Publication.ioRun, Procmon.measure, Procmon.elapse, after.ioData, after.upData,
    Double.ofInt, Double.ofRat]
  push_cast
  field_simp

/-- The uptime grows from each reading to the next. -/
def Increasing (readings : List (Reading ℚ)) : Prop :=
  readings.IsChain fun before after => before.upData.allTimes < after.upData.allTimes

/-- What the publications of a run from here on are charged with. -/
def Procmon.charged (pm : Procmon ℚ) (snapshots : List (Snapshot ℚ)) : ℚ × ℚ :=
  (((pm.publications snapshots).map (Publication.busy pm.kClockTicksPerSecond)).sum,
    ((pm.publications snapshots).map Publication.ioRun).sum)

theorem charged_cons (pm : Procmon ℚ) (snapshot : Snapshot ℚ) (snapshots : List (Snapshot ℚ)) :
    pm.charged (snapshot :: snapshots) =
      ((((pm.publication snapshot).toList).map (Publication.busy pm.kClockTicksPerSecond)).sum +
          ((pm.tick snapshot).charged snapshots).1,
        (((pm.publication snapshot).toList).map Publication.ioRun).sum +
          ((pm.tick snapshot).charged snapshots).2) := by
  simp [Procmon.charged, Procmon.publications, Procmon.kClockTicksPerSecond_tick]

theorem readings_cons_of_none {snapshot : Snapshot ℚ} (missing : snapshot.reading = none)
    (snapshots : List (Snapshot ℚ)) : readings (snapshot :: snapshots) = readings snapshots := by
  simp [readings, missing]

theorem readings_cons_of_some {snapshot : Snapshot ℚ} {reading : Reading ℚ}
    (read : snapshot.reading = some reading) (snapshots : List (Snapshot ℚ)) :
    readings (snapshot :: snapshots) = reading :: readings snapshots := by
  simp [readings, read]

theorem charged_cons_of_none {snapshot : Snapshot ℚ} (missing : snapshot.reading = none)
    (snapshots : List (Snapshot ℚ)) :
    pm.charged (snapshot :: snapshots) = pm.charged snapshots := by
  rw [charged_cons, Procmon.tick_of_none missing, Procmon.publication_of_none missing]
  simp

/-- From a complete snapshot on, each interval is charged once. -/
theorem charged_of_after {last : Reading ℚ} {snapshots : List (Snapshot ℚ)}
    (after : pm.After first) (clock : pm.kClockTicksPerSecond ≠ 0)
    (increasing : Increasing (first :: readings snapshots))
    (isLast : (first :: readings snapshots).getLast? = some last) :
    pm.charged snapshots =
      (((last.statData.busy - first.statData.busy : ℤ) : ℚ),
        ((last.ioData.ioRun - first.ioData.ioRun : ℤ) : ℚ)) := by
  induction snapshots generalizing pm first with
  | nil =>
      have same : first = last := by simpa [readings] using isLast
      subst same
      simp [Procmon.charged, Procmon.publications]
  | cons snapshot snapshots ih =>
      cases read : snapshot.reading with
      | none =>
          rw [readings_cons_of_none read] at increasing isLast
          rw [charged_cons_of_none read]
          exact ih after clock increasing isLast
      | some reading =>
          rw [readings_cons_of_some read] at increasing isLast
          rw [List.getLast?_cons_cons] at isLast
          rcases List.isChain_cons_cons.mp increasing with ⟨later, increasing⟩
          rw [charged_cons, (Procmon.tick_of_ticked read after.ticked).2,
            ih (Procmon.after_tick read) (pm.kClockTicksPerSecond_tick ▸ clock) increasing isLast]
          simp only [Option.toList_some, List.map_singleton, List.sum_singleton,
            busy_measure after clock later, ioRun_measure after later]
          push_cast
          ring_nf

/-- Before the first complete snapshot, nothing is published. -/
theorem charged_of_first {last : Reading ℚ} {snapshots : List (Snapshot ℚ)}
    (fresh : pm.ticked = false) (clock : pm.kClockTicksPerSecond ≠ 0)
    (increasing : Increasing (readings snapshots))
    (isFirst : (readings snapshots).head? = some first)
    (isLast : (readings snapshots).getLast? = some last) :
    pm.charged snapshots =
      (((last.statData.busy - first.statData.busy : ℤ) : ℚ),
        ((last.ioData.ioRun - first.ioData.ioRun : ℤ) : ℚ)) := by
  induction snapshots generalizing pm with
  | nil => cases isFirst
  | cons snapshot snapshots ih =>
      cases read : snapshot.reading with
      | none =>
          rw [readings_cons_of_none read] at increasing isFirst isLast
          rw [charged_cons_of_none read]
          exact ih fresh clock increasing isFirst isLast
      | some reading =>
          rw [readings_cons_of_some read] at increasing isFirst isLast
          rw [List.head?_cons, Option.some.injEq] at isFirst
          subst isFirst
          rw [charged_cons, (Procmon.tick_of_first read fresh).2,
            charged_of_after (Procmon.after_tick read) (pm.kClockTicksPerSecond_tick ▸ clock)
              increasing isLast]
          simp

end Charges

/--
For every sequence of ticks with files missing anywhere, the published usages add up to the
work between the first complete snapshot and the last one, for the processors and for the
disks. A tick with a missing file changes nothing.
-/
theorem charged_once (kClockTicksPerSecond : ℤ) (lastUpData : UpData ℚ)
    (snapshots : List (Snapshot ℚ)) (clock : 0 < kClockTicksPerSecond)
    (increasing : Increasing (readings snapshots)) :
    (∀ first last, (readings snapshots).head? = some first →
      (readings snapshots).getLast? = some last →
      (((Procmon.new kClockTicksPerSecond lastUpData).publications snapshots).map
          (Publication.busy kClockTicksPerSecond)).sum =
        ((last.statData.utime + last.statData.systime -
          (first.statData.utime + first.statData.systime) : ℤ) : ℚ) ∧
      (((Procmon.new kClockTicksPerSecond lastUpData).publications snapshots).map
          Publication.ioRun).sum =
        ((last.ioData.ioRun - first.ioData.ioRun : ℤ) : ℚ)) ∧
    ∀ (pm : Procmon ℚ) (snapshot : Snapshot ℚ), snapshot.reading = none →
      pm.publication snapshot = none ∧ (pm.tick snapshot).getStat = pm.getStat ∧
        (pm.tick snapshot).lastStatData = pm.lastStatData ∧
        (pm.tick snapshot).lastIoData = pm.lastIoData ∧
        (pm.tick snapshot).lastUpData = pm.lastUpData := by
  constructor
  · intro first last isFirst isLast
    have charged := @charged_of_first (.new kClockTicksPerSecond lastUpData) first last snapshots
      rfl (ne_of_gt clock) increasing isFirst isLast
    exact Prod.mk.inj charged
  · intro pm snapshot missing
    rw [Procmon.tick_of_none missing]
    exact ⟨Procmon.publication_of_none missing, rfl, rfl, rfl, rfl⟩

/-- A reading with this uptime, user time and time of the disks. -/
def readingAt (allTimes : ℚ) (utime ioRun : ℤ) : Reading ℚ where
  memData := ⟨1000, 4000⟩
  upData := ⟨allTimes⟩
  ioData := ⟨ioRun⟩
  statData := ⟨0, utime, 50, 0⟩

def Reading.snapshot (reading : Reading ℚ) : Snapshot ℚ where
  meminfo := some reading.memData
  uptime := some reading.upData
  diskstats := some reading.ioData
  stat := some reading.statData

/-- The second of four ticks finds `/proc/uptime` empty. -/
def fourTicks : List (Snapshot ℚ) :=
  [(readingAt 10 100 500).snapshot, { (readingAt 12 130 560).snapshot with uptime := none },
    (readingAt 14 180 700).snapshot, (readingAt 15 260 950).snapshot]

theorem charged_once_fourTicks :
    (((Procmon.new 100 ⟨0⟩).publications fourTicks).map (Publication.busy 100)).sum = 160 ∧
      (((Procmon.new 100 ⟨0⟩).publications fourTicks).map Publication.ioRun).sum = 450 := by
  have read : readings fourTicks =
      [readingAt 10 100 500, readingAt 14 180 700, readingAt 15 260 950] := rfl
  have increasing : Increasing (readings fourTicks) := by
    rw [read]
    norm_num [Increasing, readingAt]
  have sums := (charged_once 100 ⟨0⟩ fourTicks (by decide) increasing).1 (readingAt 10 100 500)
    (readingAt 15 260 950) (by rw [read]; rfl) (by rw [read]; rfl)
  norm_num [readingAt] at sums
  exact sums

end LoadBalance.Monitor
