import Mathlib.Data.Finset.Basic
import Mathlib.Data.List.Count
import LoadBalance.Message

/-!
# The loop of a benchmark process

`benchcore` of `test_bench.c` and of `someip_bench.c`: connect, write one request, shut
down the sending side, read the reply, check it, close. The two programs differ only in
that the first also adds up the time from the request to the reply. Each iteration is a
function of what its calls return, and a run is the list of the iterations which are
begun before the loop finds `timerexpired` set.
-/

namespace LoadBalance.Bench

inductive Program where
  | testBench
  | someipBench
deriving DecidableEq, Repr

/-- What is returned to the calls of one iteration. An iteration makes only some of them. -/
structure Answers where
  /-- Whether `host` is an address, or a name which `gethostbyname` finds. -/
  resolved : Bool
  socket : ℤ
  connect : ℤ
  writen : ℤ
  shutdown : ℤ
  readn : ReadResult Byte
  close : ℤ
  /-- The two calls of `now`. -/
  start : BitVec 64
  now : BitVec 64

/-- The counters of a benchmark process, and the descriptors which it has open. An attempt adds
1 to one of `speed` and `failed`, which are `int`s: this holds for fewer than 2^31 attempts. -/
structure Process where
  speed : ℕ
  failed : ℕ
  diff : BitVec 64
  descriptors : Finset ℤ

def rlen : ℕ := 16

/-- `someip_socket`: a socket which cannot be connected stays open. -/
def someipSocket (process : Process) (answers : Answers) : ℤ × Process :=
  if answers.resolved then
    if answers.socket < 0 then (answers.socket, process)
    else
      let process :=
        { process with descriptors := insert answers.socket process.descriptors }
      if answers.connect < 0 then (-1, process) else (answers.socket, process)
  else (-1, process)

/-- `++failed; close(s); continue;` -/
def Process.fail (process : Process) (s : ℤ) : Process :=
  { process with failed := process.failed + 1, descriptors := process.descriptors.erase s }

/-- `inner_diff`, which only `test_bench.c` has. -/
def Program.innerDiff (program : Program) (answers : Answers) : BitVec 64 :=
  match program with
  | .testBench => answers.now - answers.start
  | .someipBench => 0

def Accepted (buf : List Byte) : Prop :=
  buf[0]? = some 0x61 ∧ buf[10]? = some 0x61 ∧ buf[15]? = some 0x61

instance (buf : List Byte) : Decidable (Accepted buf) :=
  inferInstanceAs (Decidable (_ ∧ _ ∧ _))

def iteration (program : Program) (process : Process) (answers : Answers) : Process :=
  let (s, process) := someipSocket process answers
  if s < 0 then { process with failed := process.failed + 1 }
  else if rlen ≠ answers.writen then process.fail s
  else if answers.shutdown ≠ 0 then process.fail s
  else match answers.readn with
    | .error _ => process.fail s
    | .data buf =>
        if buf.length < 16 then process.fail s
        else if ¬Accepted buf then process.fail s
        -- the descriptor is released whatever `close` returns
        else if answers.close ≠ 0 then process.fail s
        else
          { process with
            speed := process.speed + 1
            diff := process.diff + program.innerDiff answers
            descriptors := process.descriptors.erase s }

/-- The loop over the iterations begun before `timerexpired` is found set. -/
def iterations (program : Program) (process : Process) (run : List Answers) : Process :=
  run.foldl (iteration program) process

/-- `benchcore`, from the result of `sigaction`; the error is the status of its `exit`. -/
def benchcore (program : Program) (descriptors : Finset ℤ) (sigaction : ℤ)
    (run : List Answers) : Except ℤ Process :=
  if sigaction ≠ 0 then .error 3
  else
    let process := iterations program ⟨0, 0, 0, descriptors⟩ run
    .ok (if 0 < process.failed then { process with failed := process.failed - 1 } else process)

/-- The bytes which `read` has moved into `buf`. -/
def Answers.reply (answers : Answers) : List Byte :=
  match answers.readn with
  | .data buf => buf
  | .error _ => []

/-- All calls of the iteration succeed, and the read is full. -/
structure Answers.Complete (answers : Answers) : Prop where
  resolved : answers.resolved = true
  socket : 0 ≤ answers.socket
  connect : 0 ≤ answers.connect
  writen : answers.writen = rlen
  shutdown : answers.shutdown = 0
  readn : answers.readn = .data answers.reply
  full : answers.reply.length = normalLen
  close : answers.close = 0

instance (answers : Answers) : Decidable answers.Complete :=
  decidable_of_iff (answers.resolved = true ∧ 0 ≤ answers.socket ∧ 0 ≤ answers.connect ∧
      answers.writen = rlen ∧ answers.shutdown = 0 ∧ answers.readn = .data answers.reply ∧
      answers.reply.length = normalLen ∧ answers.close = 0)
    ⟨fun ⟨h1, h2, h3, h4, h5, h6, h7, h8⟩ => ⟨h1, h2, h3, h4, h5, h6, h7, h8⟩,
      fun h => ⟨h.1, h.2, h.3, h.4, h.5, h.6, h.7, h.8⟩⟩

variable {program : Program}

theorem iterations_cons (process : Process) (answers : Answers) (run : List Answers) :
    iterations program process (answers :: run) =
      iterations program (iteration program process answers) run := rfl

theorem iteration_complete {answers : Answers} (complete : answers.Complete)
    (process : Process) :
    (iteration program process answers).speed =
        process.speed + (if Accepted answers.reply then 1 else 0) ∧
      (iteration program process answers).failed =
        process.failed + (if Accepted answers.reply then 0 else 1) := by
  have opened : someipSocket process answers = (answers.socket,
      { process with descriptors := insert answers.socket process.descriptors }) := by
    have socket := complete.socket
    have connect := complete.connect
    rw [someipSocket, if_pos complete.resolved, if_neg (by omega), if_neg (by omega)]
  have valid : ¬answers.socket < 0 := by
    have socket := complete.socket
    omega
  have full : ¬answers.reply.length < 16 := by
    rw [complete.full]
    decide
  simp only [iteration, opened, valid, if_false, complete.writen, ne_eq, not_true_eq_false,
    complete.shutdown]
  rw [complete.readn]
  simp only [full, if_false, complete.close, not_true_eq_false]
  by_cases accepted : Accepted answers.reply
  · simp [accepted]
  · simp [accepted, Process.fail]

/-- A run of complete iterations counts the replies which pass the check, and the others. -/
theorem iterations_complete {run : List Answers} (complete : ∀ answers ∈ run, answers.Complete)
    (process : Process) :
    (iterations program process run).speed =
        process.speed + run.countP (fun answers => Accepted answers.reply) ∧
      (iterations program process run).failed =
        process.failed + run.countP (fun answers => ¬Accepted answers.reply) := by
  induction run generalizing process with
  | nil => exact ⟨rfl, rfl⟩
  | cons answers run ih =>
      simp only [List.forall_mem_cons] at complete
      have head := @iteration_complete program answers complete.1 process
      have tail := ih complete.2 (iteration program process answers)
      rw [iterations_cons, tail.1, tail.2, head.1, head.2]
      by_cases accepted : Accepted answers.reply
      · simp only [accepted, if_true, decide_true, decide_not, Bool.not_true,
          List.countP_cons_of_pos, Bool.false_eq_true, not_false_eq_true,
          List.countP_cons_of_neg]
        omega
      · simp only [accepted, if_false, decide_false, decide_not, Bool.not_false,
          List.countP_cons_of_pos, Bool.false_eq_true, not_false_eq_true,
          List.countP_cons_of_neg]
        omega

/-- An iteration counts the reply as the distributor meant it. -/
def AgreesOn (program : Program) (process : Process) (answers : Answers) : Prop :=
  (answers.reply = correctRes →
    (iteration program process answers).speed = process.speed + 1 ∧
      (iteration program process answers).failed = process.failed) ∧
  (answers.reply = errRes →
    (iteration program process answers).failed = process.failed + 1 ∧
      (iteration program process answers).speed = process.speed)

/-- Every iteration of a run agrees, and the counters are the numbers of the two replies. -/
def Agrees (program : Program) (start : Process) (run : List Answers) : Prop :=
  (∀ before answers after, run = before ++ answers :: after →
    AgreesOn program (iterations program start before) answers) ∧
  (iterations program start run).speed =
    start.speed + run.countP (fun answers => answers.reply = correctRes) ∧
  (iterations program start run).failed =
    start.failed + run.countP (fun answers => answers.reply = errRes)

theorem not_accepted_correctRes : ¬Accepted correctRes := by decide

theorem not_accepted_errRes : ¬Accepted errRes := by decide

theorem not_accepted_of_reply {answers : Answers}
    (reply : answers.reply = correctRes ∨ answers.reply = errRes) : ¬Accepted answers.reply := by
  rcases reply with reply | reply
  · rw [reply]
    exact not_accepted_correctRes
  · rw [reply]
    exact not_accepted_errRes

theorem iterations_of_replies {run : List Answers} (complete : ∀ answers ∈ run, answers.Complete)
    (replies : ∀ answers ∈ run, answers.reply = correctRes ∨ answers.reply = errRes)
    (process : Process) :
    (iterations program process run).speed = process.speed ∧
      (iterations program process run).failed = process.failed + run.length := by
  have counted := @iterations_complete program run complete process
  have refused : ∀ answers ∈ run, ¬Accepted answers.reply :=
    fun answers answersMem => not_accepted_of_reply (replies answers answersMem)
  have none : run.countP (fun answers => Accepted answers.reply) = 0 := by
    simpa [List.countP_eq_zero] using refused
  have all : run.countP (fun answers => ¬Accepted answers.reply) = run.length := by
    simpa [List.countP_eq_length] using refused
  rw [counted.1, counted.2, none, all]
  exact ⟨rfl, rfl⟩

/--
For every run of complete iterations which read replies of a distributor, benchmark and
distributor agree on what a success is if and only if there was no success. The counters
together grow by one with every iteration, so for fewer than 2^31 of them they fit their types.
-/
theorem agrees_iff_no_correctRes (program : Program) (start : Process) (run : List Answers)
    (complete : ∀ answers ∈ run, answers.Complete)
    (replies : ∀ answers ∈ run, answers.reply = correctRes ∨ answers.reply = errRes) :
    (Agrees program start run ↔ ∀ answers ∈ run, answers.reply ≠ correctRes) ∧
      (iterations program start run).speed + (iterations program start run).failed =
        start.speed + start.failed + run.length := by
  have counted := @iterations_of_replies program run complete replies start
  refine ⟨?_, by omega⟩
  constructor
  · rintro ⟨_, speed, _⟩ answers answersMem success
    have missed : run.countP (fun answers => answers.reply = correctRes) = 0 := by
      rw [counted.1] at speed
      omega
    rw [List.countP_eq_zero] at missed
    exact missed answers answersMem (decide_eq_true success)
  · intro unsuccessful
    refine ⟨?_, ?_, ?_⟩
    · rintro before answers after rfl
      have answersMem : answers ∈ before ++ answers :: after := by simp
      refine ⟨fun success => absurd success (unsuccessful answers answersMem), fun _ => ?_⟩
      have refused := not_accepted_of_reply (replies answers answersMem)
      have counts := @iteration_complete program answers (complete answers answersMem)
        (iterations program start before)
      simp only [refused, if_false] at counts
      exact ⟨counts.2, counts.1⟩
    · have none : run.countP (fun answers => answers.reply = correctRes) = 0 := by
        simpa [List.countP_eq_zero] using unsuccessful
      rw [counted.1, none]
      rfl
    · have all : run.countP (fun answers => answers.reply = errRes) = run.length := by
        rw [List.countP_eq_length]
        intro answers answersMem
        apply decide_eq_true
        exact (replies answers answersMem).resolve_left (unsuccessful answers answersMem)
      rw [counted.2, all]

/-- An iteration against a distributor which sends the given reply. -/
def Answers.reading (reply : List Byte) : Answers where
  resolved := true
  socket := 4
  connect := 0
  writen := rlen
  shutdown := 0
  readn := .data reply
  close := 0
  start := 0
  now := 100

theorem agrees_iff_no_correctRes_sample :
    (Agrees .testBench ⟨0, 0, 0, ∅⟩ [.reading errRes, .reading correctRes] ↔
      ∀ answers ∈ [Answers.reading errRes, .reading correctRes], answers.reply ≠ correctRes) ∧
      (iterations .testBench ⟨0, 0, 0, ∅⟩ [.reading errRes, .reading correctRes]).speed +
        (iterations .testBench ⟨0, 0, 0, ∅⟩ [.reading errRes, .reading correctRes]).failed = 2 :=
  agrees_iff_no_correctRes .testBench _ _ (by decide) (by decide)

/-- A single request which is answered with success is counted as a failure. -/
theorem not_agrees_of_success :
    (Answers.reading correctRes).Complete ∧ (Answers.reading correctRes).reply = correctRes ∧
      ∀ program, (iterations program ⟨0, 0, 0, ∅⟩ [.reading correctRes]).speed = 0 ∧
        (iterations program ⟨0, 0, 0, ∅⟩ [.reading correctRes]).failed = 1 ∧
        ¬Agrees program ⟨0, 0, 0, ∅⟩ [.reading correctRes] := by
  refine ⟨by decide, rfl, fun program => ?_⟩
  have counted := @iterations_of_replies program [.reading correctRes] (by decide) (by decide)
    ⟨0, 0, 0, ∅⟩
  refine ⟨counted.1, counted.2, ?_⟩
  rintro ⟨_, speed, _⟩
  rw [counted.1] at speed
  exact absurd speed (by decide)

end LoadBalance.Bench
