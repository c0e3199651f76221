import Mathlib.Algebra.BigOperators.Group.List.Basic
import Mathlib.Data.BitVec
import LoadBalance.Lib.Machine
import LoadBalance.Lib.Scan
import LoadBalance.Bench.Core

/-!
# The totals of a benchmark

Each child of `bench` writes a line with its counters into the pipe, and the parent reads
numbers from the pipe with `fscanf` until it has had a report from every child. A line is
shorter than what a pipe takes at once, so the pipe holds whole lines, in the order in
which the children have come to write them.
-/

namespace LoadBalance.Bench

/-- The variables `speed`, `failed` and `diff`. -/
structure Report where
  speed : BitVec 32
  failed : BitVec 32
  diff : BitVec 64
deriving DecidableEq, Repr

/-- What `fprintf` is given to print, and what `fscanf` is asked to find. -/
def Program.values (program : Program) (report : Report) : List ℤ :=
  match program with
  | .testBench => [report.speed.toInt, report.failed.toInt, report.diff.toNat]
  | .someipBench => [report.speed.toInt, report.failed.toInt]

/-- `"%d %d %llu\n"`, or `"%d %d\n"` -/
def Program.line (program : Program) (report : Report) : List Char :=
  Scan.line (program.values report)

/-- The number of conversions which the parent asks `fscanf` for. -/
def Program.conversions : Program → ℕ
  | .testBench => 3
  | .someipBench => 2

/-- Whether the parent is in its loop, has left it after the last report, or has given up
because `fscanf` has found too few numbers. -/
inductive Flow where
  | reading
  | finished
  | died
deriving DecidableEq, Repr

/-- The parent in its loop. -/
structure Parent where
  clients : ℤ
  totals : Report
  flow : Flow
deriving DecidableEq, Repr

/-- The state in which the loop begins. -/
def Parent.start (clients : ℤ) : Parent where
  clients := clients
  totals := ⟨0, 0, 0⟩
  flow := .reading

/-- `speed += i; failed += j; diff += k;` -/
def Report.add (program : Program) (totals : Report) (values : List ℤ) : Report where
  speed := totals.speed + BitVec.ofInt 32 (values.getD 0 0)
  failed := totals.failed + BitVec.ofInt 32 (values.getD 1 0)
  diff :=
    match program with
    | .testBench => totals.diff + BitVec.ofInt 64 (values.getD 2 0)
    | .someipBench => totals.diff

/-- What follows an `fscanf` which has returned these numbers. -/
def Parent.take (program : Program) (parent : Parent) (values : List ℤ) : Parent :=
  if values.length < program.conversions then { parent with flow := .died }
  else
    { clients := parent.clients - 1
      totals := parent.totals.add program values
      flow := if parent.clients - 1 = 0 then .finished else .reading }

/-- One round of the loop over what is there to read. There is none while `fscanf` waits. -/
def Parent.iteration (program : Program) (eof : Bool) (parent : Parent) (input : List Char) :
    Option (Parent × List Char) :=
  match parent.flow with
  | .reading =>
      (Scan.numbers eof program.conversions input).map fun (values, rest) =>
        (parent.take program values, rest)
  | .finished | .died => none

/-- The loop, with the numbers which it has read in each round. -/
structure Loop where
  parent : Parent
  input : List Char
  rounds : ℕ
deriving DecidableEq

def Loop.step (program : Program) (eof : Bool) (loop : Loop) (_ : Unit) : Option Loop :=
  (loop.parent.iteration program eof loop.input).map fun (parent, input) =>
    { parent, input, rounds := loop.rounds + 1 }

theorem length_values (program : Program) (report : Report) :
    (program.values report).length = program.conversions := by
  cases program with
  | testBench => rfl
  | someipBench => rfl

theorem values_ne_nil (program : Program) (report : Report) : program.values report ≠ [] := by
  cases program with
  | testBench => exact List.cons_ne_nil _ _
  | someipBench => exact List.cons_ne_nil _ _

/-- What a report adds is what the child has counted. -/
theorem add_values (program : Program) (totals report : Report) :
    totals.add program (program.values report) =
      { speed := totals.speed + report.speed
        failed := totals.failed + report.failed
        diff := match program with
          | .testBench => totals.diff + report.diff
          | .someipBench => totals.diff } := by
  cases program with
  | testBench => simp [Report.add, Program.values]
  | someipBench => simp [Report.add, Program.values]

/-- The counters of the parent after these reports. -/
def gather (program : Program) (totals : Report) (reports : List Report) : Report :=
  reports.foldl (fun totals report => totals.add program (program.values report)) totals

/-- The sums of the counters which the children have printed are in the range of their types. -/
structure Fits (reports : List Report) : Prop where
  nonneg : ∀ report ∈ reports, 0 ≤ report.speed.toInt ∧ 0 ≤ report.failed.toInt
  speed : (reports.map fun report => report.speed.toInt).sum < 2 ^ 31
  failed : (reports.map fun report => report.failed.toInt).sum < 2 ^ 31
  diff : (reports.map fun report => report.diff.toNat).sum < 2 ^ 64

section Sums

theorem sum_nonneg {values : List ℤ} (nonneg : ∀ value ∈ values, 0 ≤ value) : 0 ≤ values.sum := by
  induction values with
  | nil => exact Int.le_refl 0
  | cons value values ih =>
      simp only [List.forall_mem_cons] at nonneg
      rw [List.sum_cons]
      exact Int.add_nonneg nonneg.1 (ih nonneg.2)

theorem toInt_sum {values : List (BitVec 32)} (nonneg : ∀ value ∈ values, 0 ≤ value.toInt)
    (fits : (values.map BitVec.toInt).sum < 2 ^ 31) :
    values.sum.toInt = (values.map BitVec.toInt).sum := by
  induction values with
  | nil => rfl
  | cons value values ih =>
      simp only [List.forall_mem_cons] at nonneg
      rw [List.map_cons, List.sum_cons] at fits ⊢
      have rest : 0 ≤ (values.map BitVec.toInt).sum := by
        apply sum_nonneg
        simpa using nonneg.2
      rw [List.sum_cons, BitVec.toInt_add, ih nonneg.2 (by omega)]
      apply Int.bmod_eq_of_le_mul_two
      · omega
      · omega

theorem toNat_sum {values : List (BitVec 64)} (fits : (values.map BitVec.toNat).sum < 2 ^ 64) :
    values.sum.toNat = (values.map BitVec.toNat).sum := by
  induction values with
  | nil => rfl
  | cons value values ih =>
      rw [List.map_cons, List.sum_cons] at fits ⊢
      rw [List.sum_cons, BitVec.toNat_add, ih (by omega)]
      exact Nat.mod_eq_of_lt fits

theorem gather_eq (program : Program) (totals : Report) (reports : List Report) :
    gather program totals reports =
      { speed := totals.speed + (reports.map Report.speed).sum
        failed := totals.failed + (reports.map Report.failed).sum
        diff := match program with
          | .testBench => totals.diff + (reports.map Report.diff).sum
          | .someipBench => totals.diff } := by
  induction reports generalizing totals with
  | nil => cases program <;> simp [gather]
  | cons report reports ih =>
      have first : gather program totals (report :: reports) =
          gather program (totals.add program (program.values report)) reports := rfl
      rw [first, ih, add_values]
      cases program <;> simp [add_assoc]

end Sums

section Rounds

variable {program : Program} {parent : Parent} {report : Report} {space more : List Char}

theorem take_values (report : Report) :
    parent.take program (program.values report) =
      { clients := parent.clients - 1
        totals := parent.totals.add program (program.values report)
        flow := if parent.clients - 1 = 0 then .finished else .reading } := by
  rw [Parent.take, if_neg]
  rw [length_values]
  omega

/-- A round reads one line, whatever comes behind it. -/
theorem iteration_line (eof : Bool) (reading : parent.flow = .reading)
    (isBlank : ∀ char ∈ space, Decimal.isSpace char = true) :
    parent.iteration program eof (space ++ (program.line report ++ more)) =
      some (parent.take program (program.values report), '\n' :: more) := by
  have read := @Scan.numbers_line_append eof _ (values_ne_nil program report) space more isBlank
  rw [length_values] at read
  rw [Program.line]
  simp only [Parent.iteration, reading, read, Option.map_some]

/-- As many rounds as there are lines, if that is the number of clients: then it is over. -/
theorem run_lines (eof : Bool) {arrived : List Report} (nonempty : arrived ≠ [])
    (reading : parent.flow = .reading) (counted : parent.clients = arrived.length)
    (isBlank : ∀ char ∈ space, Decimal.isSpace char = true) (rounds : ℕ) :
    Machine.run (Loop.step program eof)
        ⟨parent, space ++ arrived.flatMap program.line, rounds⟩
        (List.replicate arrived.length ()) =
      some ⟨⟨0, gather program parent.totals arrived, .finished⟩, ['\n'],
        rounds + arrived.length⟩ := by
  induction arrived generalizing parent space rounds with
  | nil => exact absurd rfl nonempty
  | cons report arrived ih =>
      have stepped := @iteration_line program parent report space (arrived.flatMap program.line)
        eof reading isBlank
      rw [List.length_cons, List.replicate_succ, Machine.run_cons, List.flatMap_cons, Loop.step,
        stepped, take_values]
      simp only [Option.map_some, Option.bind_some]
      rw [List.length_cons] at counted
      cases arrived with
      | nil =>
          have last : parent.clients - 1 = 0 := by
            rw [counted]
            rfl
          rw [last]
          rfl
      | cons next arrived =>
          have goesOn : ¬parent.clients - 1 = 0 := by
            rw [counted, List.length_cons]
            omega
          have left : parent.clients - 1 = ((next :: arrived).length : ℕ) := by
            rw [counted]
            push_cast
            omega
          have rest := @ih ⟨parent.clients - 1, parent.totals.add program (program.values report),
            .reading⟩ ['\n'] (List.cons_ne_nil _ _) rfl left (List.forall_mem_singleton.mpr rfl)
            (rounds + 1)
          rw [List.singleton_append] at rest
          rw [if_neg goesOn, rest]
          have count : rounds + 1 + (next :: arrived).length =
              rounds + ((next :: arrived).length + 1) := by omega
          rw [count]
          rfl

end Rounds

/--
For every number of children, everything they have counted as long as the sums fit their
types, and every order in which their lines come into the pipe, the parent reads one report
in each round, stops after the last one, and has the sums over the children.
-/
theorem totals_exact (program : Program) (eof : Bool) (reports arrived : List Report)
    (nonempty : reports ≠ []) (order : arrived.Perm reports) (fits : Fits reports) :
    ∃ final, Machine.run (Loop.step program eof)
        ⟨.start reports.length, arrived.flatMap program.line, 0⟩
        (List.replicate reports.length ()) = some final ∧
      final.rounds = reports.length ∧ final.parent.flow = .finished ∧
      final.step program eof () = none ∧
      final.parent.totals.speed.toInt = (reports.map fun report => report.speed.toInt).sum ∧
      final.parent.totals.failed.toInt = (reports.map fun report => report.failed.toInt).sum ∧
      (program = .testBench →
        final.parent.totals.diff.toNat = (reports.map fun report => report.diff.toNat).sum) := by
  have sameLength : arrived.length = reports.length := order.length_eq
  have arrivedNonempty : arrived ≠ [] := by
    intro empty
    rw [empty, List.length_nil] at sameLength
    exact nonempty (List.length_eq_zero_iff.mp sameLength.symm)
  have speeds : ((arrived.map Report.speed).sum).toInt =
      (reports.map fun report => report.speed.toInt).sum := by
    rw [(order.map Report.speed).sum_eq, toInt_sum, List.map_map]
    · rfl
    · simpa using fun report reportMem => (fits.nonneg report reportMem).1
    · rw [List.map_map]
      exact fits.speed
  have faileds : ((arrived.map Report.failed).sum).toInt =
      (reports.map fun report => report.failed.toInt).sum := by
    rw [(order.map Report.failed).sum_eq, toInt_sum, List.map_map]
    · rfl
    · simpa using fun report reportMem => (fits.nonneg report reportMem).2
    · rw [List.map_map]
      exact fits.failed
  have diffs : ((arrived.map Report.diff).sum).toNat =
      (reports.map fun report => report.diff.toNat).sum := by
    rw [(order.map Report.diff).sum_eq, toNat_sum, List.map_map]
    · rfl
    · rw [List.map_map]
      exact fits.diff
  have ran := @run_lines program (.start reports.length) [] eof arrived arrivedNonempty rfl
    (by rw [sameLength]; rfl) (by simp) 0
  rw [sameLength, List.nil_append] at ran
  refine ⟨_, ran, Nat.zero_add _, rfl, rfl, ?_, ?_, ?_⟩
  · simpa [gather_eq, Parent.start] using speeds
  · simpa [gather_eq, Parent.start] using faileds
  · rintro rfl
    simpa [gather_eq, Parent.start] using diffs

/-- Three children, of which the last in the list is the first to report. -/
theorem totals_exact_sample :
    ∃ final, Machine.run (Loop.step .testBench false)
        ⟨.start 3, "0 12 0\n700 0 123456789012\n41 5 9000\n".toList, 0⟩
        (List.replicate 3 ()) = some final ∧
      final.parent.totals.speed.toInt = 741 ∧ final.parent.totals.failed.toInt = 17 ∧
      final.parent.totals.diff.toNat = 123456798012 := by
  rcases totals_exact .testBench false [⟨700, 0, 123456789012⟩, ⟨41, 5, 9000⟩, ⟨0, 12, 0⟩]
      [⟨0, 12, 0⟩, ⟨700, 0, 123456789012⟩, ⟨41, 5, 9000⟩] (by decide) (by decide)
      ⟨by decide, by decide, by decide, by decide⟩ with
    ⟨final, ran, _, _, _, speed, failed, diff⟩
  exact ⟨final, ran, speed, failed, diff rfl⟩

end LoadBalance.Bench
