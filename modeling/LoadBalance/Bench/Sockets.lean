import Mathlib.Data.Finset.Card
import LoadBalance.Lib.Machine
import LoadBalance.Bench.Core

/-!
# The sockets of a benchmark process

Every attempt opens a socket, and each way out of an iteration closes it, apart from the
one inside `someip_socket`: if `connect` fails, the caller gets -1 and has nothing to
close. The kernel gives a socket a descriptor which is not open.
-/

namespace LoadBalance.Bench

/-- The iterations as the steps of a machine, one for the answers to the calls of each. -/
def attempt (program : Program) (process : Process) (answers : Answers) : Option Process :=
  some (iteration program process answers)

/-- `someip_socket` gets a socket. -/
def Answers.Opens (answers : Answers) : Prop := answers.resolved = true ∧ 0 ≤ answers.socket

/-- A socket which is opened has a descriptor which is not open. -/
def Fresh (process : Process) (answers : Answers) : Prop :=
  answers.Opens → answers.socket ∉ process.descriptors

/-- There is a socket, and it cannot be connected. -/
def Answers.Refused (answers : Answers) : Prop := answers.Opens ∧ answers.connect < 0

instance (answers : Answers) : Decidable answers.Opens := inferInstanceAs (Decidable (_ ∧ _))

instance (process : Process) (answers : Answers) : Decidable (Fresh process answers) :=
  inferInstanceAs (Decidable (_ → _))

instance (answers : Answers) : Decidable answers.Refused := inferInstanceAs (Decidable (_ ∧ _))

/-- At the head of each iteration the sockets of the earlier ones are closed, and there is
room for one more wherever there was at the start. -/
structure ReleasesSockets (program : Program) (start : Process) (run : List Answers) : Prop where
  closed : ∀ before after, run = before ++ after → ∀ answers ∈ before, answers.Opens →
    answers.socket ∉ (iterations program start before).descriptors
  room : ∀ limit, start.descriptors.card < limit → ∀ before after, run = before ++ after →
    (iterations program start before).descriptors.card < limit

variable {program : Program} {process : Process} {answers : Answers}

/-- All ways out behind a connection close it. -/
theorem descriptors_of_connected {s : ℤ} {opened : Process}
    (socket : someipSocket process answers = (s, opened)) (valid : 0 ≤ s) :
    (iteration program process answers).descriptors = opened.descriptors.erase s := by
  have connected : ¬s < 0 := not_lt.mpr valid
  simp only [iteration, socket, connected, if_false]
  split
  · rfl
  · split
    · rfl
    · split
      · rfl
      · split
        · rfl
        · split
          · rfl
          · split
            · rfl
            · rfl

theorem descriptors_of_unconnected {s : ℤ} {opened : Process}
    (socket : someipSocket process answers = (s, opened)) (invalid : s < 0) :
    (iteration program process answers).descriptors = opened.descriptors := by
  simp only [iteration, socket, invalid, if_true]

/-- What an iteration leaves open: the socket which it could not connect. -/
theorem iteration_descriptors (fresh : Fresh process answers) :
    (iteration program process answers).descriptors =
      if answers.Refused then insert answers.socket process.descriptors
      else process.descriptors := by
  by_cases opens : answers.Opens
  · have valid : ¬answers.socket < 0 := not_lt.mpr opens.2
    by_cases refused : answers.connect < 0
    · rw [if_pos ⟨opens, refused⟩]
      have socket : someipSocket process answers = (-1,
          { process with descriptors := insert answers.socket process.descriptors }) := by
        rw [someipSocket, if_pos opens.1, if_neg valid]
        exact if_pos refused
      exact descriptors_of_unconnected socket (by decide)
    · rw [if_neg (fun leaves => refused leaves.2)]
      have socket : someipSocket process answers = (answers.socket,
          { process with descriptors := insert answers.socket process.descriptors }) := by
        rw [someipSocket, if_pos opens.1, if_neg valid]
        exact if_neg refused
      rw [descriptors_of_connected socket opens.2]
      exact Finset.erase_insert (fresh opens)
  · rw [if_neg (fun leaves => opens leaves.1)]
    by_cases resolved : answers.resolved = true
    · have invalid : answers.socket < 0 := by
        by_contra valid
        exact opens ⟨resolved, not_lt.mp valid⟩
      have socket : someipSocket process answers = (answers.socket, process) := by
        rw [someipSocket, if_pos resolved, if_pos invalid]
      exact descriptors_of_unconnected socket invalid
    · have socket : someipSocket process answers = (-1, process) := by
        rw [someipSocket, if_neg resolved]
      exact descriptors_of_unconnected socket (by decide)

theorem iterations_of_run {start final : Process} {run : List Answers}
    (ran : Machine.run (attempt program) start run = some final) :
    iterations program start run = final := by
  induction run generalizing start with
  | nil => exact Option.some.inj ran
  | cons answers run ih =>
      rw [iterations_cons]
      exact ih ran

theorem descriptors_of_not_refused {start final : Process} {run : List Answers}
    (guarded : Machine.RunsUnder (attempt program) Fresh start run final)
    (connected : ∀ answers ∈ run, ¬answers.Refused) :
    final.descriptors = start.descriptors := by
  induction guarded with
  | nil => rfl
  | cons fresh stepped rest ih =>
      simp only [List.forall_mem_cons] at connected
      cases stepped
      rw [ih connected.2, iteration_descriptors fresh, if_neg connected.1]

theorem card_descriptors {start final : Process} {run : List Answers}
    (guarded : Machine.RunsUnder (attempt program) Fresh start run final) :
    final.descriptors.card =
      start.descriptors.card + run.countP (fun answers => answers.Refused) := by
  induction guarded with
  | nil => rfl
  | @cons state next final answers run fresh stepped rest ih =>
      cases stepped
      rw [ih, iteration_descriptors fresh, List.countP_cons]
      by_cases refused : answers.Refused
      · simp only [refused, if_true, decide_true, Finset.card_insert_of_notMem (fresh refused.1)]
        omega
      · simp [refused]

/-- The descriptors which a process has open at the start stay open. -/
theorem opened_not_mem_start {start final : Process} {run : List Answers}
    (guarded : Machine.RunsUnder (attempt program) Fresh start run final) :
    start.descriptors ⊆ final.descriptors ∧
      ∀ answers ∈ run, answers.Opens → answers.socket ∉ start.descriptors := by
  induction guarded with
  | nil => exact ⟨subset_rfl, by simp⟩
  | @cons state next final answers run fresh stepped rest ih =>
      cases stepped
      have grown : state.descriptors ⊆ (iteration program state answers).descriptors := by
        rw [iteration_descriptors fresh]
        split
        · exact Finset.subset_insert _ _
        · exact subset_rfl
      refine ⟨grown.trans ih.1, ?_⟩
      rw [List.forall_mem_cons]
      exact ⟨fresh, fun later laterMem opens old => ih.2 later laterMem opens (grown old)⟩

/--
For every sequence of outcomes, no socket of an earlier iteration is open at the head of a
later one, and no limit which leaves room at the start is ever reached, if and only if no
`connect` fails. Every refused connection costs the process one descriptor for good.
-/
theorem releasesSockets_iff (program : Program) (start final : Process) (run : List Answers)
    (guarded : Machine.RunsUnder (attempt program) Fresh start run final) :
    (ReleasesSockets program start run ↔ ∀ answers ∈ run, ¬answers.Refused) ∧
      final.descriptors.card =
        start.descriptors.card + run.countP (fun answers => answers.Refused) := by
  refine ⟨?_, card_descriptors guarded⟩
  constructor
  · intro releases answers answersMem refused
    rcases List.append_of_mem answersMem with ⟨before, after, rfl⟩
    rw [List.append_cons] at guarded releases
    rcases guarded.of_append with ⟨middle, first, _⟩
    rcases Machine.RunsUnder.concat_iff.mp first with ⟨head, earlier, fresh, stepped⟩
    cases stepped
    have left := iterations_of_run first.run
    apply releases.closed (before ++ [answers]) after rfl answers (by simp) refused.1
    rw [left, iteration_descriptors fresh, if_pos refused]
    exact Finset.mem_insert_self _ _
  · intro connected
    have atHead : ∀ before after, run = before ++ after →
        (iterations program start before).descriptors = start.descriptors ∧
          ∀ answers ∈ before, answers.Opens → answers.socket ∉ start.descriptors := by
      rintro before after rfl
      rcases guarded.of_append with ⟨middle, first, _⟩
      rw [iterations_of_run first.run]
      refine ⟨?_, (opened_not_mem_start first).2⟩
      apply descriptors_of_not_refused first
      intro answers answersMem
      exact connected answers (List.mem_append_left after answersMem)
    constructor
    · intro before after split answers answersMem opens
      rw [(atHead before after split).1]
      exact (atHead before after split).2 answers answersMem opens
    · intro limit room before after split
      rwa [(atHead before after split).1]

/-- A child with its standard streams and the end of the pipe. -/
def child : Process := ⟨0, 0, 0, {0, 1, 2, 3}⟩

theorem releasesSockets_iff_sample :
    ReleasesSockets .testBench child [.reading errRes, .reading correctRes] := by
  rcases @Machine.RunsUnder.exists_of_any _ _ (attempt .testBench) Fresh _ child
      [.reading errRes, .reading correctRes] (fun _ => true) (by decide +kernel)
    with ⟨final, guarded, _⟩
  exact (releasesSockets_iff .testBench child final _ guarded).1.mpr (by decide)

/-- With a limit of five descriptors: a single refused connection, and no later attempt gets
a socket. -/
theorem not_releasesSockets_of_refused :
    ∃ final, Machine.RunsUnder (attempt .testBench) Fresh child
        [{ Answers.reading correctRes with connect := -1 },
          { Answers.reading correctRes with socket := -1 }] final ∧
      child.descriptors.card < 5 ∧ final.descriptors.card = 5 ∧ final.failed = 2 ∧
      ¬ReleasesSockets .testBench child
        [{ Answers.reading correctRes with connect := -1 },
          { Answers.reading correctRes with socket := -1 }] := by
  rcases @Machine.RunsUnder.exists_of_any _ _ (attempt .testBench) Fresh _ child
      [{ Answers.reading correctRes with connect := -1 },
        { Answers.reading correctRes with socket := -1 }]
      (fun final => final.descriptors.card = 5 ∧ final.failed = 2) (by decide +kernel)
    with ⟨final, guarded, shown⟩
  rcases of_decide_eq_true shown with ⟨full, failed⟩
  refine ⟨final, guarded, by decide, full, failed, ?_⟩
  intro releases
  have room := releases.room 5 (by decide) _ [] (List.append_nil _).symm
  rw [iterations_of_run guarded.run, full] at room
  exact absurd room (by decide)

end LoadBalance.Bench
