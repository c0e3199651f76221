import Mathlib.Algebra.Order.BigOperators.Group.List
import Mathlib.Algebra.Order.Ring.Nat
import Mathlib.Data.List.Chain
import Mathlib.Tactic.Linarith
import LoadBalance.Monitor.Charges
import LoadBalance.Monitor.ProcFiles

/-!
# From the files to the usages

A tick on what the calls return. However the reads cut the files, and whatever the local
variables hold, the usages which are published account for the counters as the kernel has
printed them.
-/

universe u

namespace LoadBalance.Monitor

/-- No file, as far as a tick is concerned. -/
def Snapshot.missing {R : Type u} : Snapshot R where
  meminfo := none
  uptime := none
  diskstats := none
  stat := none

def Kernel.snapshot {R : Type u} [Double R] (kernel : Kernel) : Snapshot R where
  meminfo := some (kernel.reading : Reading R).memData
  uptime := some kernel.reading.upData
  diskstats := some (kernel.reading : Reading R).ioData
  stat := some (kernel.reading : Reading R).statData

/-- A tick finds the four files as the kernel prints them, or one of them empty. -/
inductive Observes (kernel : Kernel) (calls : TickCalls) : Bool → Prop where
  | complete (meminfo : calls.meminfo.Deliver kernel.meminfo)
      (uptime : calls.uptime.Deliver kernel.uptime)
      (diskstats : calls.diskstats.Deliver kernel.diskstats)
      (stat : calls.stat.Deliver kernel.stat) : Observes kernel calls true
  | incomplete {meminfo uptime diskstats stat : List Char}
      (readMeminfo : calls.meminfo.Deliver meminfo) (readUptime : calls.uptime.Deliver uptime)
      (readDiskstats : calls.diskstats.Deliver diskstats) (readStat : calls.stat.Deliver stat)
      (empty : stat = [] ∨ meminfo = [] ∨ diskstats = [] ∨ uptime = []) :
      Observes kernel calls false

section Decode

variable {R : Type u} [Double R] {kernel : Kernel} {calls : TickCalls} {fuel : ℕ}

theorem parse_of_le {stale : Stale} {text : List Char} {data : IoData} {more : ℕ}
    (parsed : IoData.parse fuel stale text = some data) (enough : fuel ≤ more) :
    IoData.parse more stale text = some data := by
  rcases Option.map_eq_some_iff.mp parsed with ⟨final, ended, rfl⟩
  rw [IoData.parse, IoParser.loop_of_le ended enough, Option.map_some]

theorem decode_of_deliver {meminfo uptime diskstats stat : List Char}
    (readMeminfo : calls.meminfo.Deliver meminfo) (readUptime : calls.uptime.Deliver uptime)
    (readDiskstats : calls.diskstats.Deliver diskstats) (readStat : calls.stat.Deliver stat) :
    (decode fuel calls : Option (Except Halt (Snapshot R))) =
      (parseFiles fuel calls meminfo uptime diskstats stat).map .ok := by
  simp only [decode, readProcFile_of_deliver readMeminfo, readProcFile_of_deliver readUptime,
    readProcFile_of_deliver readDiskstats, readProcFile_of_deliver readStat]

theorem Kernel.texts_ne_nil (kernel : Kernel) :
    ¬(kernel.stat = [] ∨ kernel.meminfo = [] ∨ kernel.diskstats = [] ∨ kernel.uptime = []) := by
  rintro (stat | meminfo | diskstats | uptime)
  · exact List.cons_ne_nil _ _ stat
  · exact List.append_ne_nil_of_left_ne_nil kernel.total.nonempty _ meminfo
  · rcases List.getLast?_eq_some_iff.mp kernel.isLast with ⟨before, disks⟩
    rw [Kernel.diskstats, disks, Monitor.diskstats, List.flatMap_append] at diskstats
    have nothing := (List.append_eq_nil_iff.mp diskstats).2
    simp [DiskLine.text] at nothing
  · have nothing := (List.append_eq_nil_iff.mp uptime).2
    exact List.append_ne_nil_of_left_ne_nil Nat.toDigits_ne_nil _ nothing

/-- The texts are decoded to what the kernel has printed. -/
theorem decode_of_observes (fits : kernel.Fits) {complete : Bool}
    (observes : Observes kernel calls complete) (enough : kernel.disks.length < fuel) :
    decode fuel calls = some (.ok (if complete then kernel.snapshot else
      (Snapshot.missing : Snapshot R))) := by
  cases observes with
  | complete meminfo uptime diskstats stat =>
      have disks := parse_of_le (parse_disks calls.ioLocals fits) enough
      have cpu := parse_cpuLine calls.statLocals kernel.cpu kernel.statRest
        (fits.plain kernel.stat (by simp))
      rw [decode_of_deliver meminfo uptime diskstats stat, parseFiles, if_neg kernel.texts_ne_nil,
        disks, parse_meminfo _ fits, parse_uptime fits]
      simp only [Kernel.stat, cpu]
      rfl
  | incomplete meminfo uptime diskstats stat empty =>
      rw [decode_of_deliver meminfo uptime diskstats stat, parseFiles, if_pos empty]
      rfl

end Decode

/-- A tick, and the kernel at its time. -/
structure Round where
  kernel : Kernel
  calls : TickCalls
  complete : Bool
  fits : kernel.Fits
  observes : Observes kernel calls complete

def Round.snapshot {R : Type u} [Double R] (round : Round) : Snapshot R :=
  if round.complete then round.kernel.snapshot else .missing

theorem exists_enough (rounds : List Round) :
    ∃ fuel, ∀ round ∈ rounds, round.kernel.disks.length < fuel := by
  refine ⟨(rounds.map fun round => round.kernel.disks.length).sum + 1, fun round roundMem => ?_⟩
  have bound := List.single_le_sum (fun _ _ => Nat.zero_le _) _
    (List.mem_map_of_mem (f := fun round : Round => round.kernel.disks.length) roundMem)
  omega

/-- What the kernel has printed for the ticks which found all files. -/
def kernels (rounds : List Round) : List Kernel :=
  (rounds.filter Round.complete).map Round.kernel

namespace Procmon

section Ticks

variable {R : Type u} [Double R]

end Ticks

end Procmon

section Charges

variable {pm : Procmon ℚ} {rounds : List Round}

theorem reading_snapshot (round : Round) :
    (round.snapshot : Snapshot ℚ).reading =
      if round.complete then some round.kernel.reading else none := by
  rw [Round.snapshot]
  split
  · rfl
  · rfl

/-- The clock of the kernel goes on from each complete tick to the next. -/
def Later (before after : Kernel) : Prop :=
  100 * before.seconds + before.hundredths < 100 * after.seconds + after.hundredths

instance (before after : Kernel) : Decidable (Later before after) :=
  inferInstanceAs (Decidable (_ < _))

theorem uptime_lt {before after : Kernel} (later : Later before after) :
    (before.seconds + before.hundredths / 100 : ℚ) < after.seconds + after.hundredths / 100 := by
  have scaled : ((100 * before.seconds + before.hundredths : ℕ) : ℚ) <
      ((100 * after.seconds + after.hundredths : ℕ) : ℚ) := Nat.cast_lt.mpr later
  push_cast at scaled
  linarith

/-- The memory which is not idle, in percent. -/
def Kernel.memoryUsage (kernel : Kernel) : ℚ :=
  ((kernel.total.value - kernel.idleMemory : ℤ) : ℚ) / kernel.total.value * 100

/-- A machine which was up for so many seconds, of which it has worked some. -/
def sampleKernel (seconds : ℕ) (user : ℤ) (fits : -2 ^ 63 ≤ user ∧ user ≤ 2 ^ 63 - 1) : Kernel where
  cpu := ⟨user, 0, 7, 900, 3, 0, 1, [0, 0, 0], by simpa using fits⟩
  total := ⟨['T', ':'], 5, 4000, by simp, by simp [Decimal.isSpace], by decide⟩
  free := ⟨['F', ':'], 6, 900, by simp, by simp [Decimal.isSpace], by decide⟩
  available := ⟨['A', ':'], 0, 1500, by simp, by simp [Decimal.isSpace], by decide⟩
  buffers := ⟨['B', ':'], 2, 40, by simp, by simp [Decimal.isSpace], by decide⟩
  cached := ⟨['C', ':'], 2, 60, by simp, by simp [Decimal.isSpace], by decide⟩
  seconds := seconds
  hundredths := 5
  disks := [.sda]
  lastDisk := .sda
  statRest := ['c', 'p', 'u', '0']
  memRest := []
  uptimeRest := ['1', '.', '5', '0', '\n']
  small := by decide
  isLast := rfl

def wholeFile (text : List Char) : FileCalls := ⟨3, [.data text, .data []]⟩

theorem deliver_wholeFile {text : List Char} (nonempty : text ≠ []) :
    (wholeFile text).Deliver text :=
  ⟨by simp [wholeFile], [text], .data [], rfl, by simpa using nonempty.symm, by simp, by simp⟩

def Kernel.calls (kernel : Kernel) : TickCalls where
  meminfo := wholeFile kernel.meminfo
  uptime := wholeFile kernel.uptime
  diskstats := wholeFile kernel.diskstats
  stat := wholeFile kernel.stat
  statLocals := ⟨0, 0, 0, 0, 0, 0, 0⟩
  memLocals := ⟨0, 0, 0, 0, 0⟩
  ioLocals := ⟨0, 0, 0, ' '⟩

theorem observes_calls (kernel : Kernel) : Observes kernel kernel.calls true := by
  have nonempty := kernel.texts_ne_nil
  simp only [not_or] at nonempty
  exact .complete (deliver_wholeFile nonempty.2.1) (deliver_wholeFile nonempty.2.2.2)
    (deliver_wholeFile nonempty.2.2.1) (deliver_wholeFile nonempty.1)

/-- Two ticks, two seconds and 100 ticks of the clock apart. -/
def twoRounds : List Round :=
  [⟨sampleKernel 10 100 (by decide), (sampleKernel 10 100 (by decide)).calls, true,
      ⟨by decide +kernel, by decide +kernel, by decide +kernel⟩, observes_calls _⟩,
    ⟨sampleKernel 12 200 (by decide), (sampleKernel 12 200 (by decide)).calls, true,
      ⟨by decide +kernel, by decide +kernel, by decide +kernel⟩, observes_calls _⟩]

end Charges

end LoadBalance.Monitor
