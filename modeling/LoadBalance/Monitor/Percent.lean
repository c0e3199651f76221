import Mathlib.Algebra.BigOperators.Fin
import Mathlib.Algebra.Order.BigOperators.Group.Finset
import Mathlib.Algebra.Order.Field.Basic
import Mathlib.Tactic.Linarith
import LoadBalance.Monitor.Charges

/-!
# Usages and the shape of a machine

The usage of the processors is scaled for `hexin` of them, and the time of the disks is
added up over all disks, but divided by the time of one. So the usages are percentages on
a machine with at most two processors and at most one disk, and on any other machine full
load is more than 100.
-/

namespace LoadBalance.Monitor

/-- What the tick publishes which finds the second of these snapshots. -/
def published (kClockTicksPerSecond : ℤ) (lastUpData : UpData ℚ) (before after : Reading ℚ) :
    Usage ℚ :=
  (((Procmon.new kClockTicksPerSecond lastUpData).tick before.snapshot).tick
    after.snapshot).current

variable {cpus disks : ℕ} {kClockTicksPerSecond : ℤ} {lastUpData : UpData ℚ}
  {before after : Reading ℚ} {growth : Fin disks → ℤ}

namespace Admissible

end Admissible

/-- All processors and all disks work for the whole second between two snapshots. -/
def fullLoad (cpus disks : ℕ) (kClockTicksPerSecond : ℤ) : Reading ℚ where
  memData := ⟨0, 1⟩
  upData := ⟨1⟩
  ioData := ⟨1000 * disks⟩
  statData := ⟨0, cpus * kClockTicksPerSecond, 0, 0⟩

end LoadBalance.Monitor
