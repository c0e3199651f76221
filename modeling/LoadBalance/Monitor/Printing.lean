import Mathlib.Algebra.BigOperators.Group.List.Basic
import Mathlib.Data.List.Chain
import Mathlib.Tactic.FieldSimp
import Mathlib.Tactic.Linarith
import Mathlib.Tactic.NormNum
import Mathlib.Tactic.Ring
import LoadBalance.Monitor.Observed
import LoadBalance.Monitor.Promon

/-!
# What the monitor on its own prints

The loop of `main` in `promon_all.cc` prints what each tick returns, in percent, and no more
than 100 for the disks. A tick which finds a file empty prints zeros, and what has been done
until then is counted by the next complete tick.
-/

universe u

namespace LoadBalance.Promon

open Monitor (Kernel Round TickCalls Snapshot kernels Later decode)

/-- The numbers which `printf` is given. -/
structure Line (R : Type u) where
  cpu : R
  memory : R
  io : R
deriving DecidableEq

section Main

variable {R : Type u} [Double R]

def printed (usage : R × R × R) : Line R where
  cpu := usage.1 * Double.ofRat 100
  memory := usage.2.1 * Double.ofRat 100
  io :=
    -- `get<2>(t) > 1`, which is false for what is not a number
    if Double.ofRat 1 ≤ usage.2.2 ∧ ¬usage.2.2 ≤ Double.ofRat 1 then Double.ofRat 100
    else usage.2.2 * Double.ofRat 100

/-- The loop of `main`, for what the calls of its ticks return. There is no result if one of
them ends the process or does not come to its end. -/
def main (fuel : ℕ) : Procmon R → List TickCalls → Option (Procmon R × List (Line R))
  | pm, [] => some (pm, [])
  | pm, calls :: more =>
      match decode fuel calls with
      | some (.ok snapshot) =>
          (main fuel (pm.tick snapshot).1 more).map fun rest =>
            (rest.1, printed (pm.tick snapshot).2 :: rest.2)
      | _ => none

end Main

section Expected

/-- The seconds since the start of the machine. -/
def seconds (kernel : Kernel) : ℚ := kernel.seconds + kernel.hundredths / 100

/-- User and system time, in ticks of the clock. -/
def busy (kernel : Kernel) : ℤ := kernel.cpu.user + kernel.cpu.sys

/-- The line for what lies between two complete ticks. -/
def between (clock : ℤ) (before after : Kernel) : Line ℚ where
  cpu := (busy after - busy before) / ((seconds after - seconds before) * clock * 2) * 100
  memory := after.memoryUsage
  io := min 100 ((after.ioTime - before.ioTime) / 1000 / (seconds after - seconds before) * 100)

/-- The line of a tick, for the last complete tick before it. -/
def expected (clock : ℤ) (last : Option Kernel) (round : Round) : Line ℚ :=
  match last with
  | some before => if round.complete then between clock before round.kernel else ⟨0, 0, 0⟩
  | none => ⟨0, 0, 0⟩

/-- The time since the last complete tick, if the tick itself is complete. -/
def span (last : Option Kernel) (round : Round) : ℚ :=
  match last with
  | some before => if round.complete then seconds round.kernel - seconds before else 0
  | none => 0

def latest (last : Option Kernel) (round : Round) : Option Kernel :=
  if round.complete then some round.kernel else last

def expectedLines (clock : ℤ) : Option Kernel → List Round → List (Line ℚ)
  | _, [] => []
  | last, round :: rounds =>
      expected clock last round :: expectedLines clock (latest last round) rounds

/-- The times which the lines stand for. -/
def spans : Option Kernel → List Round → List ℚ
  | _, [] => []
  | last, round :: rounds => span last round :: spans (latest last round) rounds

/-- The ticks of the clock which a line stands for. -/
def Line.busy (clock : ℤ) (line : Line ℚ) (span : ℚ) : ℚ := line.cpu * span * (clock * 2) / 100

/-- The milliseconds of the disks which a line stands for. -/
def Line.ioRun (line : Line ℚ) (span : ℚ) : ℚ := line.io * span / 100 * 1000

/-- In this interval the disks have not worked for longer than it took. -/
def Unsaturated (before after : Kernel) : Prop :=
  ((after.ioTime - before.ioTime : ℤ) : ℚ) ≤ 1000 * (seconds after - seconds before)

instance (before after : Kernel) : Decidable (Unsaturated before after) :=
  inferInstanceAs (Decidable (_ ≤ _))

end Expected

/-- What the monitor remembers of the last complete tick. -/
structure Behind (clock : ℤ) (last : Option Kernel) (pm : Procmon ℚ) : Prop where
  ticked : pm.ticked = last.isSome
  records : ∀ kernel ∈ last, pm.lastStatData = (kernel.reading : Monitor.Reading ℚ).statData ∧
    pm.lastIoData = (kernel.reading : Monitor.Reading ℚ).ioData ∧
    pm.lastUpData = kernel.reading.upData
  fresh : pm.ticked = false → pm.current = (0, 0, 0)
  clock : pm.kClockTicksPerSecond = clock

section Ticks

variable {clock : ℤ} {before : Kernel} {last : Option Kernel} {pm : Procmon ℚ} {fuel : ℕ}

theorem behind_new (clock : ℤ) (lastUpData : Monitor.UpData ℚ) :
    Behind clock none (.new clock lastUpData) where
  ticked := rfl
  records kernel kernelMem := by cases kernelMem
  fresh _ := rfl
  clock := rfl

section Tick

variable {snapshot : Snapshot ℚ} {reading : Monitor.Reading ℚ}

theorem tick_of_none (missing : snapshot.reading = none) :
    pm.tick snapshot = (pm, (0, 0, 0)) := by
  rw [Procmon.tick, missing]
  rfl

theorem tick_of_first (read : snapshot.reading = some reading) (first : pm.ticked = false) :
    pm.tick snapshot = (pm.keep reading, pm.current) := by
  simp only [Procmon.tick, read, first, Bool.false_eq_true, if_false]
  rfl

theorem tick_of_ticked (read : snapshot.reading = some reading) (ticked : pm.ticked = true) :
    pm.tick snapshot = ((pm.measure reading).keep reading, (pm.measure reading).current) := by
  simp only [Procmon.tick, read, ticked, if_true]
  rfl

end Tick

/-- At its end a complete tick remembers the kernel. -/
theorem behind_keep (same : pm.kClockTicksPerSecond = clock) (kernel : Kernel) :
    Behind clock (some kernel) (pm.keep kernel.reading) where
  ticked := rfl
  records remembered isLast := by
    rw [← Option.some.inj isLast]
    exact ⟨rfl, rfl, rfl⟩
  fresh first := by cases first
  clock := same

theorem printed_zero : printed ((0, 0, 0) : ℚ × ℚ × ℚ) = ⟨0, 0, 0⟩ := by
  simp [printed, Double.ofRat]

/-- The cut at 100 percent. -/
theorem io_printed (usage : ℚ × ℚ × ℚ) : (printed usage).io = min 100 (usage.2.2 * 100) := by
  simp only [printed, Double.ofRat]
  by_cases above : usage.2.2 ≤ 1
  · rw [if_neg (fun both => both.2 above), min_eq_right (by linarith)]
  · rw [if_pos ⟨(not_le.mp above).le, above⟩, min_eq_left (by linarith)]

theorem printed_measure (behind : Behind clock (some before) pm) (kernel : Kernel) :
    printed (pm.measure kernel.reading).current = between clock before kernel := by
  rcases behind.records before rfl with ⟨statData, ioData, upData⟩
  have parts : ∀ usage : ℚ × ℚ × ℚ, printed usage =
      ⟨usage.1 * 100, usage.2.1 * 100, min 100 (usage.2.2 * 100)⟩ := by
    intro usage
    rw [← io_printed]
    rfl
  rw [parts, between, ← behind.clock]
  simp only [Procmon.measure, Procmon.current, statData, ioData, upData, Kernel.reading,
    Kernel.memoryUsage, Monitor.hexin, busy, seconds, Double.ofInt, Double.ofRat, Line.mk.injEq]
  push_cast
  refine ⟨?_, trivial, rfl⟩
  ring

/-- A tick prints what is expected of it, and remembers the kernel. -/
theorem tick_round (behind : Behind clock last pm) (round : Round) :
    printed (pm.tick (round.snapshot : Snapshot ℚ)).2 = expected clock last round ∧
      Behind clock (latest last round) (pm.tick (round.snapshot : Snapshot ℚ)).1 := by
  have read := Monitor.reading_snapshot round
  cases complete : round.complete with
  | false =>
      rw [complete] at read
      rw [tick_of_none read, latest, complete]
      refine ⟨?_, behind⟩
      cases last with
      | none => exact printed_zero
      | some before => simp [expected, complete, printed_zero]
  | true =>
      rw [complete] at read
      rw [latest, complete]
      cases last with
      | none =>
          have first : pm.ticked = false := behind.ticked
          rw [tick_of_first read first, behind.fresh first]
          exact ⟨printed_zero, behind_keep behind.clock round.kernel⟩
      | some before =>
          have sameClock :
              (pm.measure round.kernel.reading).kClockTicksPerSecond = clock := behind.clock
          rw [tick_of_ticked read behind.ticked]
          refine ⟨?_, behind_keep sameClock round.kernel⟩
          rw [expected, complete, if_pos rfl]
          exact printed_measure behind round.kernel

/-- The loop of `main` prints what is expected of every tick. -/
theorem main_rounds {rounds : List Round} (behind : Behind clock last pm)
    (enough : ∀ round ∈ rounds, round.kernel.disks.length < fuel) :
    ∃ final, main fuel pm (rounds.map Round.calls) =
      some (final, expectedLines clock last rounds) := by
  induction rounds generalizing pm last with
  | nil => exact ⟨pm, rfl⟩
  | cons round rounds ih =>
      rw [List.forall_mem_cons] at enough
      have decoded : decode fuel round.calls = some (.ok (round.snapshot : Snapshot ℚ)) :=
        Monitor.decode_of_observes round.fits round.observes enough.1
      rcases tick_round behind round with ⟨line, behindNext⟩
      rcases ih behindNext enough.2 with ⟨final, ran⟩
      refine ⟨final, ?_⟩
      rw [List.map_cons, main, decoded]
      simp only [ran, line, Option.map_some]
      rfl

end Ticks

section Sums

variable {clock : ℤ} {last : Option Kernel} {rounds : List Round}

/-- The sum over the intervals from each tick to the next. -/
def overIntervals (value : Kernel → Kernel → ℚ) (path : List Kernel) : ℚ :=
  (List.zipWith value path path.tail).sum

variable {value bound : Kernel → Kernel → ℚ} {path : List Kernel}

@[simp]
theorem overIntervals_cons_cons (before after : Kernel) :
    overIntervals value (before :: after :: path) =
      value before after + overIntervals value (after :: path) := by
  simp [overIntervals]

theorem isChain_iff_of {α : Type*} {near first second : α → α → Prop} {list : List α}
    (chain : list.IsChain near)
    (same : ∀ {before after}, near before after → (first before after ↔ second before after)) :
    list.IsChain first ↔ list.IsChain second := by
  simp only [List.isChain_iff_getElem] at chain ⊢
  exact forall_congr' fun index => forall_congr' fun inside => same (chain index inside)

theorem overIntervals_sub (reading : Kernel → ℤ) {first last : Kernel}
    (isLast : (first :: path).getLast? = some last) :
    overIntervals (fun before after => (reading after - reading before : ℤ)) (first :: path) =
      (reading last - reading first : ℤ) := by
  induction path generalizing first with
  | nil =>
      rw [List.getLast?_singleton, Option.some.injEq] at isLast
      subst isLast
      simp [overIntervals]
  | cons next path ih =>
      rw [List.getLast?_cons_cons] at isLast
      rw [overIntervals_cons_cons, ih isLast]
      push_cast
      ring

/-- A sum of smaller values is smaller, but for equal values. -/
theorem overIntervals_le (below : path.IsChain fun before after =>
    value before after ≤ bound before after) :
    overIntervals value path ≤ overIntervals bound path ∧
      (overIntervals value path = overIntervals bound path ↔
        path.IsChain fun before after => value before after = bound before after) := by
  induction path with
  | nil => simp [overIntervals]
  | cons before path ih =>
      cases path with
      | nil => simp [overIntervals]
      | cons after path =>
          rw [List.isChain_cons_cons] at below
          rcases ih below.2 with ⟨rest, restEqual⟩
          rw [overIntervals_cons_cons, overIntervals_cons_cons, List.isChain_cons_cons]
          refine ⟨add_le_add below.1 rest, ?_⟩
          rw [add_eq_add_iff_eq_and_eq below.1 rest, restEqual]

theorem length_expectedLines :
    (expectedLines clock last rounds).length = rounds.length := by
  induction rounds generalizing last with
  | nil => rfl
  | cons round rounds ih => rw [expectedLines, List.length_cons, ih, List.length_cons]

theorem io_expected_le (round : Round) : (expected clock last round).io ≤ 100 := by
  cases last with
  | none => simp [expected]
  | some before =>
      cases complete : round.complete with
      | false => simp [expected, complete]
      | true => simp [expected, complete, between]

theorem io_le_of_mem {line : Line ℚ} (lineMem : line ∈ expectedLines clock last rounds) :
    line.io ≤ 100 := by
  induction rounds generalizing last with
  | nil => cases lineMem
  | cons round rounds ih =>
      rcases List.mem_cons.mp lineMem with rfl | later
      · exact io_expected_le round
      · exact ih later

/-- Only the lines of complete ticks count, each for the interval behind the last one. -/
theorem sum_lines {charge : Line ℚ → ℚ → ℚ} (zero : charge ⟨0, 0, 0⟩ 0 = 0) :
    (List.zipWith charge (expectedLines clock last rounds) (spans last rounds)).sum =
      overIntervals
        (fun before after => charge (between clock before after) (seconds after - seconds before))
        (last.toList ++ kernels rounds) := by
  induction rounds generalizing last with
  | nil =>
      cases last with
      | none => rfl
      | some before => simp [overIntervals, expectedLines, spans, kernels]
  | cons round rounds ih =>
      rw [expectedLines, spans, List.zipWith_cons_cons, List.sum_cons, ih, latest]
      cases complete : round.complete with
      | false =>
          have skipped : kernels (round :: rounds) = kernels rounds := by
            simp [kernels, complete]
          rw [skipped]
          cases last with
          | none => simp [expected, span, zero]
          | some before => simp [expected, span, complete, zero]
      | true =>
          have counted : kernels (round :: rounds) = round.kernel :: kernels rounds := by
            simp [kernels, complete]
          rw [counted]
          cases last with
          | none => simp [expected, span, zero]
          | some before => simp [expected, span, complete]

theorem seconds_lt {before after : Kernel} (later : Later before after) :
    0 < seconds after - seconds before := by
  rw [seconds, seconds]
  exact sub_pos.mpr (Monitor.uptime_lt later)

theorem busy_between {before after : Kernel} (ticks : clock ≠ 0) (later : Later before after) :
    (between clock before after).busy clock (seconds after - seconds before) =
      (busy after - busy before : ℤ) := by
  have took := (seconds_lt later).ne'
  have clockRat : (clock : ℚ) ≠ 0 := by exact_mod_cast ticks
  rw [Line.busy, between]
  push_cast
  field_simp

theorem ioRun_between {before after : Kernel} (later : Later before after) :
    (between clock before after).ioRun (seconds after - seconds before) =
      min (1000 * (seconds after - seconds before)) (after.ioTime - before.ioTime : ℤ) := by
  have took := seconds_lt later
  have scale : 0 ≤ (seconds after - seconds before) * 10 := by linarith
  have cut : (between clock before after).ioRun (seconds after - seconds before) =
      (between clock before after).io * ((seconds after - seconds before) * 10) := by
    rw [Line.ioRun]
    ring
  rw [cut, between, min_mul_of_nonneg _ _ scale]
  congr 1
  · ring
  · push_cast
    field_simp
    ring

/--
In exact arithmetic, while the clock of the kernel goes on, however the reads cut the files, and
in whichever ticks one of them is empty: every tick prints one line. What the lines say of the
processors adds up to what the kernel has counted between the first complete tick and the last
one. What they say of the disks adds up to no more than that, and to all of it just if the disks
have never worked for longer than the time between two complete ticks.
-/
theorem printed_of_files (ticks : 0 < clock) (lastUpData : Monitor.UpData ℚ)
    (later : (kernels rounds).IsChain Later) :
    ∃ fuel final lines,
      main fuel (.new clock lastUpData) (rounds.map Round.calls) = some (final, lines) ∧
        lines.length = rounds.length ∧ (∀ line ∈ lines, line.io ≤ 100) ∧
        ∀ first last, (kernels rounds).head? = some first →
          (kernels rounds).getLast? = some last →
            (List.zipWith (Line.busy clock) lines (spans none rounds)).sum =
                (busy last - busy first : ℤ) ∧
              (List.zipWith Line.ioRun lines (spans none rounds)).sum ≤
                (last.ioTime - first.ioTime : ℤ) ∧
              ((List.zipWith Line.ioRun lines (spans none rounds)).sum =
                  (last.ioTime - first.ioTime : ℤ) ↔
                (kernels rounds).IsChain Unsaturated) := by
  rcases Monitor.exists_enough rounds with ⟨fuel, enough⟩
  rcases main_rounds (behind_new clock lastUpData) enough with ⟨final, ran⟩
  refine ⟨fuel, final, _, ran, length_expectedLines, fun _ => io_le_of_mem, ?_⟩
  intro first last isFirst isLast
  rcases List.head?_eq_some_iff.mp isFirst with ⟨path, whole⟩
  have cpu := @sum_lines clock none rounds (Line.busy clock) (by simp [Line.busy])
  have io := @sum_lines clock none rounds Line.ioRun (by simp [Line.ioRun])
  rw [Option.toList_none, List.nil_append, whole] at cpu io
  rw [whole] at later isLast ⊢
  have busySum := overIntervals_sub busy isLast
  have ioSum := overIntervals_sub Kernel.ioTime isLast
  rw [cpu, io]
  refine ⟨?_, ?_⟩
  · rw [← busySum]
    refine (overIntervals_le (later.imp fun _ _ next => (busy_between ticks.ne' next).le)).2.mpr ?_
    exact later.imp fun _ _ next => busy_between ticks.ne' next
  · rw [← ioSum]
    have compared := overIntervals_le (later.imp fun before after next =>
      (@ioRun_between clock before after next).trans_le (min_le_right _ _))
    refine ⟨compared.1, compared.2.trans (isChain_iff_of later fun next => ?_)⟩
    rw [ioRun_between next, min_eq_right_iff, Unsaturated]

theorem printed_of_files_twoRounds :
    ∃ fuel final lines,
      main fuel (.new 100 ⟨0⟩) (Monitor.twoRounds.map Round.calls) = some (final, lines) ∧
        (List.zipWith (Line.busy 100) lines (spans none Monitor.twoRounds)).sum = 100 ∧
        (List.zipWith Line.ioRun lines (spans none Monitor.twoRounds)).sum = 0 := by
  have later : (kernels Monitor.twoRounds).IsChain Later := by decide +kernel
  have unsaturated : (kernels Monitor.twoRounds).IsChain Unsaturated := by decide +kernel
  rcases @printed_of_files 100 Monitor.twoRounds (by decide) ⟨0⟩ later with
    ⟨fuel, final, lines, ran, _, _, sums⟩
  rcases sums (Monitor.sampleKernel 10 100 (by decide)) (Monitor.sampleKernel 12 200 (by decide))
    rfl rfl with ⟨cpu, _, disks⟩
  refine ⟨fuel, final, lines, ran, ?_, ?_⟩
  · rw [cpu]
    norm_num [busy, Monitor.sampleKernel]
  · rw [disks.mpr unsaturated, Int.cast_eq_zero, sub_eq_zero]
    rfl

end Sums

end LoadBalance.Promon
