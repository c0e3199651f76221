import Mathlib.Algebra.Order.Field.Rat
import Mathlib.Data.Fintype.Pi
import Mathlib.Tactic.Linarith
import LoadBalance.Lib.Machine
import LoadBalance.Posix

/-!
# Polling the monitors

The two threads of `algorithm_distributor` around the weights `p` and the distribution
`d`. The main thread asks the monitors one after the other, stores a weight for each
answer, and rebuilds `d` when it has asked all of them. Between any two of its steps the
service thread may draw from `d` any number of times. The usages which a monitor
reports are rational numbers, and so are the weights.
-/

universe u

namespace LoadBalance.Balancer

/-- The three numbers in the 24 bytes of a monitor's answer, in percent. -/
structure Report where
  cpu : ℚ
  memory : ℚ
  io : ℚ
deriving DecidableEq, Repr

namespace Report

/-- The test by which `mainThreadFunc` takes a server out of the distribution. -/
def Overloaded (report : Report) : Prop :=
  95 ≤ report.cpu ∨ 95 ≤ report.memory ∨ 95 ≤ report.io

instance (report : Report) : Decidable report.Overloaded :=
  inferInstanceAs (Decidable (_ ∨ _ ∨ _))

/-- What `mainThreadFunc` stores in `p[i]`. -/
def weight (report : Report) : ℚ :=
  if report.Overloaded then 0
  else 6 / 10 * (100 - report.cpu) + 3 / 10 * (100 - report.memory) +
    1 / 10 * (100 - report.io)

theorem weight_of_overloaded {report : Report} (overloaded : report.Overloaded) :
    report.weight = 0 := if_pos overloaded

theorem weight_pos {report : Report} (free : ¬report.Overloaded) : 0 < report.weight := by
  rw [weight, if_neg free]
  simp only [Overloaded, not_or, not_le] at free
  rcases free with ⟨cpu, memory, io⟩
  linarith

theorem weight_nonneg (report : Report) : 0 ≤ report.weight := by
  by_cases overloaded : report.Overloaded
  · exact (weight_of_overloaded overloaded).ge
  · exact (weight_pos overloaded).le

theorem weight_pos_iff {report : Report} : 0 < report.weight ↔ ¬report.Overloaded := by
  constructor
  · intro pos overloaded
    rw [weight_of_overloaded overloaded] at pos
    exact lt_irrefl 0 pos
  · exact weight_pos

end Report

/-- Where the main thread stands. -/
inductive Phase where
  /-- In the loop over the servers, with `i` of them asked in this pass. -/
  | polling (i : ℕ)
  /-- Behind the last `set_distribution`, writing the usages to files. -/
  | writing
  /-- The process has ended, and with it the service thread. -/
  | exited (halt : Halt)
deriving DecidableEq, Repr

/-- The global variables which the two threads use for the balancing. -/
structure State (servers : ℕ) (Engine : Type u) where
  p : Fin servers → ℚ
  /-- The weights from which `d` was built. -/
  d : Fin servers → ℚ
  e : Engine
  cpuUsage : Fin servers → List ℚ
  memoryUsage : Fin servers → List ℚ
  ioUsage : Fin servers → List ℚ
  phase : Phase

/-- A step of one of the two threads. -/
inductive Event (servers : ℕ) where
  /-- Ask the next monitor; the answer is missing if `read` did not return 24 bytes. -/
  | poll (answer : Option Report)
  | setDistribution
  /-- Write the usages and leave the process. -/
  | writeUsage
  /-- The service thread calls `get_curSelectedServer_fd`, which draws this index. -/
  | select (index : Fin servers)
deriving DecidableEq

/-- The number of answers of the first server after which the experiment is over. -/
def usageLimit : ℕ := 100

variable {servers : ℕ} {Engine : Type u}

def uniform (servers : ℕ) : Fin servers → ℚ := fun _ => 100 / servers

namespace State

/-- The body of the loop over the servers, for server `i`. -/
def poll (state : State servers Engine) (i : Fin servers) :
    Option Report → State servers Engine
  | none => { state with phase := .exited (.exit "mon read <> 3*sizeof(double)") }
  | some report => { state with
      p := Function.update state.p i report.weight
      cpuUsage := Function.update state.cpuUsage i (state.cpuUsage i ++ [report.cpu])
      memoryUsage := Function.update state.memoryUsage i (state.memoryUsage i ++ [report.memory])
      ioUsage := Function.update state.ioUsage i (state.ioUsage i ++ [report.io])
      phase := .polling (i + 1) }

def setDistribution (state : State servers Engine) : State servers Engine :=
  { state with d := state.p }

/-- What follows the rebuilt distribution: another pass, or the end of the experiment. -/
def nextPass [NeZero servers] (state : State servers Engine) : State servers Engine :=
  { state with
    phase := if usageLimit ≤ (state.cpuUsage 0).length then .writing else .polling 0 }

theorem nextPass_polling [NeZero servers] {state : State servers Engine} {i : ℕ}
    (polling : state.nextPass.phase = .polling i) :
    (state.cpuUsage 0).length < usageLimit ∧ i = 0 := by
  rw [nextPass] at polling
  by_cases finished : usageLimit ≤ (state.cpuUsage 0).length
  · simp [finished] at polling
  · exact ⟨not_le.mp finished, by simpa [finished, eq_comm] using polling⟩

end State

/-- The variables before `main`. An untouched distribution always gives index 0. -/
def globals [NeZero servers] (engine : Engine) : State servers Engine where
  p := uniform servers
  d := Pi.single 0 1
  e := engine
  cpuUsage _ := []
  memoryUsage _ := []
  ioUsage _ := []
  phase := .polling 0

/-- The state in which `main` starts the service thread. -/
def start [NeZero servers] (engine : Engine) : State servers Engine :=
  (globals engine).setDistribution

section Step

variable [NeZero servers]

/--
One step of the main thread or one draw of the service thread. `sample` is the call
`d(e)` on a distribution with the given weights: it returns an index and the engine
after the draw.
-/
def step (sample : (Fin servers → ℚ) → Engine → Fin servers × Engine)
    (state : State servers Engine) : Event servers → Option (State servers Engine)
  | .poll answer =>
      match state.phase with
      | .polling i => if bound : i < servers then some (state.poll ⟨i, bound⟩ answer) else none
      | .writing | .exited _ => none
  | .setDistribution =>
      match state.phase with
      | .polling i => if i < servers then none else some state.setDistribution.nextPass
      | .writing | .exited _ => none
  | .writeUsage =>
      match state.phase with
      | .writing => some { state with phase := .exited (.exit "finished!!") }
      | .polling _ | .exited _ => none
  | .select index =>
      match state.phase with
      | .exited _ => none
      | .polling _ | .writing =>
          if (sample state.d state.e).1 = index then
            some { state with e := (sample state.d state.e).2 }
          else none

variable {sample : (Fin servers → ℚ) → Engine → Fin servers × Engine}
  {state next : State servers Engine}

theorem step_poll_eq_some {answer : Option Report} :
    step sample state (.poll answer) = some next ↔
      ∃ i, ∃ bound : i < servers, state.phase = .polling i ∧
        next = state.poll ⟨i, bound⟩ answer := by
  unfold step
  cases state.phase with
  | polling i =>
      by_cases bound : i < servers
      · simp [bound, eq_comm]
      · simp [bound]
  | writing => simp
  | exited halt => simp

theorem step_setDistribution_eq_some :
    step sample state .setDistribution = some next ↔
      ∃ i, servers ≤ i ∧ state.phase = .polling i ∧ next = state.setDistribution.nextPass := by
  unfold step
  cases state.phase with
  | polling i =>
      by_cases bound : i < servers
      · simp [bound]
      · simp [bound, not_lt.mp bound, eq_comm]
  | writing => simp
  | exited halt => simp

theorem step_writeUsage_eq_some :
    step sample state .writeUsage = some next ↔
      state.phase = .writing ∧ next = { state with phase := .exited (.exit "finished!!") } := by
  unfold step
  cases state.phase <;> simp [eq_comm]

theorem step_select_eq_some {index : Fin servers} :
    step sample state (.select index) = some next ↔
      (∀ halt, state.phase ≠ .exited halt) ∧ (sample state.d state.e).1 = index ∧
        next = { state with e := (sample state.d state.e).2 } := by
  unfold step
  cases state.phase <;> simp [eq_comm]

end Step

end LoadBalance.Balancer
