import LoadBalance.Lib.Machine
import LoadBalance.Bench.Core

/-!
# The alarm of a benchmark process

`benchcore` call by call, with the alarm which sets `timerexpired`. The handler does not
ask for interrupted calls to be restarted, so a call in which the alarm goes off may fail
because of it. The loop finds the timer expired only before its next attempt, and takes
off one failure then whatever the last attempt was.
-/

namespace LoadBalance.Bench

/-- How an attempt has ended. -/
inductive Ending where
  | success
  /-- A call or the check of the reply has failed, and the alarm was not the reason. -/
  | genuine
  /-- A call has failed because the alarm went off in it. -/
  | interrupted
deriving DecidableEq, Repr

/-- Where `benchcore` is: at the head of its loop, or before a call. -/
inductive Point where
  | head
  | gethostbyname
  | socket
  | connect (s : ℤ)
  | write (s : ℤ)
  | shutdown (s : ℤ) (start : BitVec 64)
  | read (s : ℤ) (start : BitVec 64)
  | close (s : ℤ) (innerDiff : BitVec 64)
  /-- The `close` of an attempt which has failed. -/
  | closeFailed (s : ℤ)
  | returned
deriving DecidableEq

/-- What a call returns. The calls of `now` behind `write` and `read` cannot fail. -/
inductive Answer where
  | gethostbyname (resolved : Bool)
  | socket (ret : ℤ)
  | connect (ret : ℤ)
  | write (writen : ℤ) (start : BitVec 64)
  | shutdown (ret : ℤ)
  | read (readn : ReadResult Byte) (now : BitVec 64)
  | close (ret : ℤ)
deriving DecidableEq

/-- The answer is one for which the call counts as failed. -/
def Answer.Fails : Answer → Prop
  | .gethostbyname resolved => resolved = false
  | .socket ret => ret < 0
  | .connect ret => ret < 0
  | .write writen _ => rlen ≠ writen
  | .shutdown ret => ret ≠ 0
  | .read (.error _) _ => True
  | .read (.data buf) _ => buf.length < 16
  | .close ret => ret ≠ 0

instance : ∀ answer, Decidable (Answer.Fails answer)
  | .gethostbyname _ => inferInstanceAs (Decidable (_ = _))
  | .socket _ => inferInstanceAs (Decidable (_ < _))
  | .connect _ => inferInstanceAs (Decidable (_ < _))
  | .write _ _ => inferInstanceAs (Decidable (_ ≠ _))
  | .shutdown _ => inferInstanceAs (Decidable (_ ≠ _))
  | .read (.error _) _ => inferInstanceAs (Decidable True)
  | .read (.data _) _ => inferInstanceAs (Decidable (_ < _))
  | .close _ => inferInstanceAs (Decidable (_ ≠ _))

inductive TimedEvent where
  /-- The alarm goes off between two calls, or in a call which does not fail because of it. -/
  | alarm
  /-- The test at the head of the loop. -/
  | test
  /-- A call returns. If it is interrupted, it fails because the alarm goes off in it. -/
  | call (answer : Answer) (interrupted : Bool)
deriving DecidableEq

/-- A benchmark process. `attempts` is not a variable of the program: it keeps how the
attempts so far have ended. -/
structure Timed where
  point : Point
  process : Process
  timerexpired : Bool
  attempts : List Ending

namespace Timed

/-- The process before its loop, behind `alarm(benchtime)`. -/
def start (descriptors : Finset ℤ) : Timed where
  point := .head
  process := ⟨0, 0, 0, descriptors⟩
  timerexpired := false
  attempts := []

def goto (timed : Timed) (point : Point) : Timed := { timed with point := point }

/-- `++failed`, on the way to `close` or to the head of the loop. -/
def fail (timed : Timed) (ending : Ending) (point : Point) : Timed :=
  { timed with
    point := point
    process := { timed.process with failed := timed.process.failed + 1 }
    attempts := timed.attempts ++ [ending] }

/-- The descriptor is released whatever `close` returns. -/
def release (timed : Timed) (s : ℤ) : Timed :=
  { timed with
    process := { timed.process with descriptors := timed.process.descriptors.erase s } }

/-- `++speed`, and `diff += inner_diff` where there is one. -/
def succeed (timed : Timed) (innerDiff : BitVec 64) : Timed :=
  { timed with
    point := .head
    process := { timed.process with
      speed := timed.process.speed + 1
      diff := timed.process.diff + innerDiff }
    attempts := timed.attempts ++ [.success] }

/-- What the process does with the answer of the call it is at, and how the attempt has ended
if it fails here. -/
def answered (program : Program) (timed : Timed) (ending : Ending) (answer : Answer) :
    Option Timed :=
  match timed.point, answer with
  | .gethostbyname, .gethostbyname resolved =>
      some (if resolved then timed.goto .socket else timed.fail ending .head)
  | .socket, .socket s =>
      some (if s < 0 then timed.fail ending .head
        else { timed with
          point := .connect s
          process := { timed.process with descriptors := insert s timed.process.descriptors } })
  | .connect s, .connect ret =>
      some (if ret < 0 then timed.fail ending .head else timed.goto (.write s))
  | .write s, .write writen start =>
      some (if rlen ≠ writen then timed.fail ending (.closeFailed s)
        else timed.goto (.shutdown s start))
  | .shutdown s start, .shutdown ret =>
      some (if ret ≠ 0 then timed.fail ending (.closeFailed s) else timed.goto (.read s start))
  | .read s _, .read (.error _) _ => some (timed.fail ending (.closeFailed s))
  | .read s start, .read (.data buf) now =>
      some (if buf.length < 16 then timed.fail ending (.closeFailed s)
        else if ¬Accepted buf then timed.fail ending (.closeFailed s)
        else timed.goto (.close s (match program with
          | .testBench => now - start
          | .someipBench => 0)))
  | .close s innerDiff, .close ret =>
      some (if ret ≠ 0 then (timed.release s).fail ending .head
        else (timed.release s).succeed innerDiff)
  | .closeFailed s, .close _ => some ((timed.release s).goto .head)
  | _, _ => none

/-- `if(failed > 0) --failed; return;` -/
def expire (timed : Timed) : Timed :=
  { timed with
    point := .returned
    process :=
      if 0 < timed.process.failed then
        { timed.process with failed := timed.process.failed - 1 }
      else timed.process }

/-- The alarm goes off once. -/
def step (program : Program) (timed : Timed) : TimedEvent → Option Timed
  | .alarm =>
      if timed.timerexpired = false ∧ timed.point ≠ .returned then
        some { timed with timerexpired := true }
      else none
  | .test =>
      if timed.point = .head then
        some (if timed.timerexpired then timed.expire else timed.goto .gethostbyname)
      else none
  | .call answer false => timed.answered program .genuine answer
  | .call answer true =>
      if timed.timerexpired = false ∧ answer.Fails then
        { timed with timerexpired := true }.answered program .interrupted answer
      else none

/-- The answer of one call ends the attempt in one of the two ways, or it does not end it. -/
inductive Effect (timed : Timed) (ending : Ending) (next : Timed) : Prop where
  | goesOn (attempts : next.attempts = timed.attempts)
      (speed : next.process.speed = timed.process.speed)
      (failed : next.process.failed = timed.process.failed)
  | success (attempts : next.attempts = timed.attempts ++ [.success])
      (speed : next.process.speed = timed.process.speed + 1)
      (failed : next.process.failed = timed.process.failed)
  | failure (attempts : next.attempts = timed.attempts ++ [ending])
      (speed : next.process.speed = timed.process.speed)
      (failed : next.process.failed = timed.process.failed + 1)

/-- `benchcore` is in its loop, and so it is after the step; only the alarm sets the timer. -/
structure Inside (timed next : Timed) : Prop where
  before : timed.point ≠ .returned
  after : next.point ≠ .returned
  timerexpired : next.timerexpired = timed.timerexpired

variable {program : Program} {timed next : Timed} {ending : Ending}

theorem moves_goto (here : timed.point ≠ .returned) {point : Point} (there : point ≠ .returned) :
    timed.Inside (timed.goto point) ∧ timed.Effect ending (timed.goto point) :=
  ⟨⟨here, there, rfl⟩, .goesOn rfl rfl rfl⟩

theorem moves_fail (here : timed.point ≠ .returned) {point : Point} (there : point ≠ .returned) :
    timed.Inside (timed.fail ending point) ∧ timed.Effect ending (timed.fail ending point) :=
  ⟨⟨here, there, rfl⟩, .failure rfl rfl rfl⟩

theorem answered_effect {answer : Answer}
    (moved : timed.answered program ending answer = some next) :
    timed.Inside next ∧ timed.Effect ending next := by
  unfold answered at moved
  split at moved
  case h_1 atPoint =>
    cases moved
    split
    · exact moves_goto (by simp [atPoint]) nofun
    · exact moves_fail (by simp [atPoint]) nofun
  case h_2 atPoint =>
    cases moved
    split
    · exact moves_fail (by simp [atPoint]) nofun
    · exact ⟨⟨by simp [atPoint], nofun, rfl⟩, .goesOn rfl rfl rfl⟩
  case h_3 atPoint =>
    cases moved
    split
    · exact moves_fail (by simp [atPoint]) nofun
    · exact moves_goto (by simp [atPoint]) nofun
  case h_4 atPoint =>
    cases moved
    split
    · exact moves_fail (by simp [atPoint]) nofun
    · exact moves_goto (by simp [atPoint]) nofun
  case h_5 atPoint =>
    cases moved
    split
    · exact moves_fail (by simp [atPoint]) nofun
    · exact moves_goto (by simp [atPoint]) nofun
  case h_6 atPoint =>
    cases moved
    exact moves_fail (by simp [atPoint]) nofun
  case h_7 atPoint =>
    cases moved
    split
    · exact moves_fail (by simp [atPoint]) nofun
    · split
      · exact moves_fail (by simp [atPoint]) nofun
      · exact moves_goto (by simp [atPoint]) nofun
  case h_8 atPoint =>
    cases moved
    split
    · exact ⟨⟨by simp [atPoint], nofun, rfl⟩, .failure rfl rfl rfl⟩
    · exact ⟨⟨by simp [atPoint], nofun, rfl⟩, .success rfl rfl rfl⟩
  case h_9 atPoint =>
    cases moved
    exact ⟨⟨by simp [atPoint], nofun, rfl⟩, .goesOn rfl rfl rfl⟩
  case h_10 => cases moved

/-- The counters are those of the attempts, before and behind the loop. The alarm interrupts
one attempt at most. -/
structure Counted (timed : Timed) : Prop where
  speed : timed.process.speed = timed.attempts.count .success
  failed : timed.process.failed =
    timed.attempts.count .genuine + timed.attempts.count .interrupted -
      (if timed.point = .returned then 1 else 0)
  once : timed.attempts.count .interrupted ≤ if timed.timerexpired then 1 else 0

theorem counted_start (descriptors : Finset ℤ) : (start descriptors).Counted :=
  ⟨rfl, rfl, Nat.zero_le _⟩

theorem Counted.expired (counted : timed.Counted) :
    { timed with timerexpired := true }.Counted := by
  refine ⟨counted.speed, counted.failed, ?_⟩
  have once := counted.once
  simp only [if_true]
  split at once
  · exact once
  · omega

/-- Only an interrupted attempt adds to the interrupted ones. -/
theorem Effect.count_interrupted_le (effect : timed.Effect ending next) :
    next.attempts.count .interrupted ≤
      timed.attempts.count .interrupted + (if ending = .interrupted then 1 else 0) := by
  cases effect with
  | goesOn attempts speed failed => simp [attempts]
  | success attempts speed failed => simp [attempts]
  | failure attempts speed failed =>
      rw [attempts, List.count_append, List.count_singleton]
      simp

theorem Counted.of_effect (counted : timed.Counted) (inside : timed.Inside next)
    (effect : timed.Effect ending next) (failing : ending ≠ .success)
    (once : next.attempts.count .interrupted ≤ if next.timerexpired then 1 else 0) :
    next.Counted := by
  have failedBefore := counted.failed
  rw [if_neg inside.before] at failedBefore
  refine ⟨?_, ?_, once⟩
  · cases effect with
    | goesOn attempts speed failed => rw [speed, attempts, counted.speed]
    | success attempts speed failed => simp [speed, attempts, counted.speed]
    | failure attempts speed failed => simp [speed, attempts, counted.speed, failing]
  · rw [if_neg inside.after]
    cases effect with
    | goesOn attempts speed failed => rw [failed, attempts, failedBefore]
    | success attempts speed failed => simp [failed, attempts, failedBefore]
    | failure attempts speed failed =>
        rw [failed, attempts, failedBefore]
        cases ending with
        | success => exact absurd rfl failing
        | genuine =>
            simp
            omega
        | interrupted =>
            simp
            omega

theorem Counted.step {event : TimedEvent} (counted : timed.Counted)
    (stepped : timed.step program event = some next) : next.Counted := by
  cases event with
  | alarm =>
      simp only [Timed.step] at stepped
      split at stepped
      · cases stepped
        exact counted.expired
      · cases stepped
  | test =>
      simp only [Timed.step] at stepped
      split at stepped
      case isFalse => cases stepped
      case isTrue atHead =>
        cases stepped
        have failed := counted.failed
        simp only [atHead, reduceCtorEq, if_false] at failed
        split
        · refine ⟨?_, ?_, counted.once⟩
          · simp only [expire]
            split
            · exact counted.speed
            · exact counted.speed
          · simp only [expire, if_true]
            split
            · simp only [failed, Nat.sub_zero]
            · omega
        · exact ⟨counted.speed, failed, counted.once⟩
  | call answer interrupted =>
      cases interrupted with
      | false =>
          rcases answered_effect stepped with ⟨inside, effect⟩
          apply counted.of_effect inside effect nofun
          rw [inside.timerexpired]
          exact effect.count_interrupted_le.trans counted.once
      | true =>
          simp only [Timed.step] at stepped
          split at stepped
          case isFalse => cases stepped
          case isTrue possible =>
            rcases answered_effect stepped with ⟨inside, effect⟩
            apply counted.expired.of_effect inside effect nofun
            have once := counted.once
            have added := effect.count_interrupted_le
            rw [possible.1] at once
            rw [inside.timerexpired]
            simp only [Bool.false_eq_true, if_false, if_true] at once added ⊢
            omega

theorem counted_of_run {descriptors : Finset ℤ} {events : List TimedEvent}
    (ran : Machine.run (step program) (start descriptors) events = some timed) :
    timed.Counted :=
  Machine.run_invariant Counted Counted.step (counted_start descriptors) ran

/-- The counts with which `benchcore` returns are those of the attempts. -/
def CountsTrue (timed : Timed) : Prop :=
  timed.process.speed = timed.attempts.count .success ∧
    timed.process.failed = timed.attempts.count .genuine

instance : Decidable timed.CountsTrue := inferInstanceAs (Decidable (_ ∧ _))

theorem length_eq_counts (attempts : List Ending) :
    attempts.length =
      attempts.count .success + attempts.count .genuine + attempts.count .interrupted := by
  induction attempts with
  | nil => rfl
  | cons ending attempts ih => cases ending <;> simp [ih] <;> omega

/--
For every run of `benchcore`, wherever the alarm goes off, its counts are true if and only
if the alarm has made an attempt fail or there was no genuine failure. For the loop takes
off one failure, and it may be a genuine one. The counts are at most the attempts, so for
fewer than 2^31 of them they fit their types.
-/
theorem countsTrue_iff (program : Program) (descriptors : Finset ℤ) (events : List TimedEvent)
    (timed : Timed)
    (ran : Machine.run (step program) (start descriptors) events = some timed)
    (returned : timed.point = .returned) :
    (timed.CountsTrue ↔ .interrupted ∈ timed.attempts ∨ .genuine ∉ timed.attempts) ∧
      timed.process.speed + timed.process.failed ≤ timed.attempts.length := by
  have counted := counted_of_run ran
  have failed := counted.failed
  have once := counted.once
  have every := length_eq_counts timed.attempts
  rw [if_pos returned] at failed
  refine ⟨?_, by rw [counted.speed, failed]; omega⟩
  rw [CountsTrue, ← List.count_pos_iff, ← List.count_eq_zero, failed]
  constructor
  · rintro ⟨_, exact⟩
    omega
  · intro condition
    refine ⟨counted.speed, ?_⟩
    split at once
    · omega
    · omega

section Iterations

/-- `someip_socket` has a connection. -/
def Connects (answers : Answers) : Prop :=
  answers.resolved = true ∧ 0 ≤ answers.socket ∧ 0 ≤ answers.connect

instance (answers : Answers) : Decidable (Connects answers) :=
  inferInstanceAs (Decidable (_ ∧ _ ∧ _))

/-- What the calls of `someip_socket` return, with no alarm in them. -/
def openEvents (answers : Answers) : List TimedEvent :=
  .call (.gethostbyname answers.resolved) false ::
    if answers.resolved = false then []
    else .call (.socket answers.socket) false ::
      if answers.socket < 0 then [] else [.call (.connect answers.connect) false]

/-- What the calls on the connection return. -/
def exchangeEvents (answers : Answers) : List TimedEvent :=
  let close := [TimedEvent.call (.close answers.close) false]
  .call (.write answers.writen answers.start) false ::
    if rlen ≠ answers.writen then close
    else .call (.shutdown answers.shutdown) false ::
      if answers.shutdown ≠ 0 then close
      else .call (.read answers.readn answers.now) false :: close

def events (answers : Answers) : List TimedEvent :=
  .test :: openEvents answers ++ if Connects answers then exchangeEvents answers else []

theorem run_open {process opened : Process} {answers : Answers} {s : ℤ}
    (socket : someipSocket process answers = (s, opened)) (attempts : List Ending) :
    if Connects answers then
      0 ≤ s ∧ Machine.run (step program) ⟨.gethostbyname, process, false, attempts⟩
        (openEvents answers) = some ⟨.write s, opened, false, attempts⟩
    else
      s < 0 ∧ Machine.run (step program) ⟨.gethostbyname, process, false, attempts⟩
        (openEvents answers) =
          some ⟨.head, { opened with failed := opened.failed + 1 }, false,
            attempts ++ [.genuine]⟩ := by
  rw [someipSocket] at socket
  by_cases resolved : answers.resolved = true
  · rw [if_pos resolved] at socket
    by_cases refused : answers.socket < 0
    · rw [if_pos refused, Prod.mk.injEq] at socket
      rcases socket with ⟨rfl, rfl⟩
      rw [if_neg (by simp [Connects, refused])]
      refine ⟨refused, ?_⟩
      simp [openEvents, resolved, refused, Machine.run_cons, step, answered, goto, fail]
    · rw [if_neg refused] at socket
      by_cases unconnected : answers.connect < 0
      · simp only [unconnected, if_true, Prod.mk.injEq] at socket
        rcases socket with ⟨rfl, rfl⟩
        rw [if_neg (by simp [Connects, unconnected])]
        refine ⟨by decide, ?_⟩
        simp [openEvents, resolved, refused, unconnected, Machine.run_cons, step, answered, goto,
          fail]
      · simp only [unconnected, if_false, Prod.mk.injEq] at socket
        rcases socket with ⟨rfl, rfl⟩
        rw [if_pos ⟨resolved, not_lt.mp refused, not_lt.mp unconnected⟩]
        refine ⟨not_lt.mp refused, ?_⟩
        simp [openEvents, resolved, refused, unconnected, Machine.run_cons, step, answered, goto]
  · rw [if_neg resolved, Prod.mk.injEq] at socket
    rcases socket with ⟨rfl, rfl⟩
    rw [if_neg (by simp [Connects, resolved])]
    refine ⟨by decide, ?_⟩
    simp [openEvents, resolved, Machine.run_cons, step, answered, fail]

section Exchange

variable {process : Process} {attempts : List Ending} {s : ℤ}

/-- Behind a failure the socket is closed, whatever `close` returns. -/
theorem run_closeFailed (point : Point) (close : ℤ) :
    Machine.run (step program)
        ((Timed.mk point process false attempts).fail .genuine (.closeFailed s))
        [.call (.close close) false] =
      some ⟨.head, process.fail s, false, attempts ++ [.genuine]⟩ := rfl

theorem step_write (writen : ℤ) (start : BitVec 64) :
    step program ⟨.write s, process, false, attempts⟩ (.call (.write writen start) false) =
      some (if rlen ≠ writen then
          (Timed.mk (.write s) process false attempts).fail .genuine (.closeFailed s)
        else ⟨.shutdown s start, process, false, attempts⟩) := rfl

theorem step_shutdown (start : BitVec 64) (ret : ℤ) :
    step program ⟨.shutdown s start, process, false, attempts⟩ (.call (.shutdown ret) false) =
      some (if ret ≠ 0 then
          (Timed.mk (.shutdown s start) process false attempts).fail .genuine (.closeFailed s)
        else ⟨.read s start, process, false, attempts⟩) := rfl

theorem step_read_error (start now : BitVec 64) (errno : Errno) :
    step program ⟨.read s start, process, false, attempts⟩
        (.call (.read (.error errno) now) false) =
      some ((Timed.mk (.read s start) process false attempts).fail .genuine (.closeFailed s)) := rfl

theorem step_read_data (start now : BitVec 64) (buf : List Byte) :
    step program ⟨.read s start, process, false, attempts⟩
        (.call (.read (.data buf) now) false) =
      some (if buf.length < 16 then
          (Timed.mk (.read s start) process false attempts).fail .genuine (.closeFailed s)
        else if ¬Accepted buf then
          (Timed.mk (.read s start) process false attempts).fail .genuine (.closeFailed s)
        else ⟨.close s (match program with
          | .testBench => now - start
          | .someipBench => 0), process, false, attempts⟩) := rfl

/-- The calls on the connection, one after the other, are the rest of the iteration. -/
theorem run_exchange {before : Process} {answers : Answers}
    (socket : someipSocket before answers = (s, process)) (valid : ¬s < 0) :
    ∃ later, Machine.run (step program) ⟨.write s, process, false, attempts⟩
        (exchangeEvents answers) =
      some ⟨.head, iteration program before answers, false, later⟩ := by
  simp only [iteration, socket, valid, if_false]
  rw [exchangeEvents, Machine.run_cons, step_write, Option.bind_some]
  by_cases writen : rlen ≠ answers.writen
  · simp only [if_pos writen]
    exact ⟨_, run_closeFailed _ _⟩
  simp only [if_neg writen]
  rw [Machine.run_cons, step_shutdown, Option.bind_some]
  by_cases shutdown : answers.shutdown ≠ 0
  · simp only [if_pos shutdown]
    exact ⟨_, run_closeFailed _ _⟩
  simp only [if_neg shutdown]
  rw [Machine.run_cons]
  cases answers.readn with
  | error errno =>
      rw [step_read_error, Option.bind_some]
      exact ⟨_, run_closeFailed _ _⟩
  | data buf =>
      rw [step_read_data, Option.bind_some]
      by_cases short : buf.length < 16
      · simp only [if_pos short]
        exact ⟨_, run_closeFailed _ _⟩
      simp only [if_neg short]
      by_cases refused : ¬Accepted buf
      · simp only [if_pos refused]
        exact ⟨_, run_closeFailed _ _⟩
      simp only [if_neg refused]
      by_cases close : answers.close ≠ 0
      · refine ⟨attempts ++ [.genuine], ?_⟩
        simp only [Machine.run_cons, step, answered, if_pos close]
        rfl
      · refine ⟨attempts ++ [.success], ?_⟩
        simp only [Machine.run_cons, step, answered, if_neg close]
        rfl

end Exchange

/-- Call by call, an attempt without the alarm is an iteration. -/
theorem run_events (process : Process) (answers : Answers) (attempts : List Ending) :
    ∃ later, Machine.run (step program) ⟨.head, process, false, attempts⟩ (events answers) =
      some ⟨.head, iteration program process answers, false, later⟩ := by
  rcases socket : someipSocket process answers with ⟨s, opened⟩
  have tested : step program ⟨.head, process, false, attempts⟩ .test =
      some ⟨.gethostbyname, process, false, attempts⟩ := rfl
  have ran := @run_open program process opened answers s socket attempts
  rw [events, List.cons_append, Machine.run_cons, tested, Option.bind_some, Machine.run_append]
  by_cases connects : Connects answers
  · rw [if_pos connects] at ran ⊢
    rw [ran.2, Option.bind_some]
    exact run_exchange socket (not_lt.mpr ran.1)
  · rw [if_neg connects] at ran ⊢
    refine ⟨attempts ++ [.genuine], ?_⟩
    simp [ran.2, iteration, socket, ran.1]

theorem run_flatMap_events (run : List Answers) (process : Process) (attempts : List Ending) :
    ∃ later, Machine.run (step program) ⟨.head, process, false, attempts⟩ (run.flatMap events) =
      some ⟨.head, iterations program process run, false, later⟩ := by
  induction run generalizing process attempts with
  | nil => exact ⟨attempts, rfl⟩
  | cons answers run ih =>
      rcases @run_events program process answers attempts with ⟨middle, first⟩
      rcases ih (iteration program process answers) middle with ⟨later, rest⟩
      refine ⟨later, ?_⟩
      rw [List.flatMap_cons, Machine.run_append, first, Option.bind_some, rest, iterations_cons]

/-- With the alarm between two attempts, the calls of the iterations make `benchcore` return
what it returns for these iterations. -/
theorem run_benchcore (program : Program) (descriptors : Finset ℤ) (run : List Answers) :
    ∃ timed, Machine.run (step program) (start descriptors)
        (run.flatMap events ++ [.alarm, .test]) = some timed ∧
      timed.point = .returned ∧ benchcore program descriptors 0 run = .ok timed.process := by
  rcases @run_flatMap_events program run ⟨0, 0, 0, descriptors⟩ [] with ⟨attempts, ran⟩
  have began : start descriptors = ⟨.head, ⟨0, 0, 0, descriptors⟩, false, []⟩ := rfl
  rw [began, Machine.run_append, ran]
  exact ⟨_, rfl, rfl, rfl⟩

end Iterations

/-- A refused connection, then the reply is what the check wants. -/
def failsThenSucceeds : List TimedEvent :=
  [.test, .call (.gethostbyname true) false, .call (.socket 4) false,
    .call (.connect (-1)) false,
    .test, .call (.gethostbyname true) false, .call (.socket 5) false, .call (.connect 0) false,
    .call (.write 16 0) false, .call (.shutdown 0) false,
    .call (.read (.data (List.replicate 16 0x61)) 100) false, .call (.close 0) false]

/-- The alarm interrupts the `connect` of a third attempt. -/
def interruptedLast : List TimedEvent :=
  failsThenSucceeds ++
    [.test, .call (.gethostbyname true) false, .call (.socket 6) false,
      .call (.connect (-1)) true, .test]

theorem countsTrue_iff_sample :
    ∃ timed, Machine.run (step .testBench) (start ∅) interruptedLast = some timed ∧
      timed.process.speed = 1 ∧ timed.process.failed = 1 ∧
      (timed.CountsTrue ↔ .interrupted ∈ timed.attempts ∨ .genuine ∉ timed.attempts) ∧
      timed.process.speed + timed.process.failed ≤ timed.attempts.length := by
  rcases @Machine.exists_run_of_any _ _ (step .testBench) (start ∅) interruptedLast
      (fun timed => timed.point = .returned ∧ timed.process.speed = 1 ∧
        timed.process.failed = 1) (by decide +kernel) with ⟨timed, ran, shown⟩
  rcases of_decide_eq_true shown with ⟨returned, speed, failed⟩
  exact ⟨timed, ran, speed, failed, countsTrue_iff .testBench ∅ interruptedLast timed ran returned⟩

/-- The alarm goes off between two attempts: the refused connection is not counted. -/
theorem not_countsTrue_of_alarm_between :
    ∃ timed, Machine.run (step .testBench) (start ∅) (failsThenSucceeds ++ [.alarm, .test]) =
        some timed ∧
      timed.point = .returned ∧ timed.attempts = [.genuine, .success] ∧
      timed.process.failed = 0 ∧ ¬timed.CountsTrue := by
  rcases @Machine.exists_run_of_any _ _ (step .testBench) (start ∅)
      (failsThenSucceeds ++ [.alarm, .test])
      (fun timed => timed.point = .returned ∧ timed.attempts = [.genuine, .success] ∧
        timed.process.failed = 0 ∧ ¬timed.CountsTrue) (by decide +kernel)
    with ⟨timed, ran, shown⟩
  exact ⟨timed, ran, of_decide_eq_true shown⟩

end Timed

end LoadBalance.Bench
