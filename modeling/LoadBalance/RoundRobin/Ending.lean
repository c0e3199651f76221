import LoadBalance.RoundRobin.Worker

/-!
# The end of the round-robin distributor

`main` of `round_robin_distributor.cc` detaches the service thread and returns, and its
return ends the process whatever the thread is doing. Nothing makes `main` wait, so the
process is ended cleanly exactly if at this moment the thread happens to have no client.
-/

universe u

namespace LoadBalance.RoundRobin

variable {servers : ℕ} {α : Type u}

/-- Where `main` is: before it starts the thread, before `detach`, before its return. -/
inductive Main where
  | starting
  | detaching
  | returning
deriving DecidableEq, Repr

inductive Ending where
  | returned
  | halted (halt : Halt)
deriving DecidableEq, Repr

structure Process (servers : ℕ) (α : Type u) where
  main : Main
  worker : Worker servers α
  ending : Option Ending

inductive ProcessEvent (α : Type u) where
  | start
  | detach
  | mainReturns
  | thread (event : ThreadEvent α)

namespace Process

def start (listenFdOuter : Fd) (serversInner : Fin servers → Fd × Fd) : Process servers α where
  main := .starting
  worker := .start listenFdOuter serversInner
  ending := none

def step [Cell α] (process : Process servers α) (event : ProcessEvent α) :
    Option (Process servers α) :=
  if process.ending ≠ none then none
  else
    match process.main, event with
    | .starting, .start => some { process with main := .detaching }
    | .detaching, .detach => some { process with main := .returning }
    | .returning, .mainReturns => some { process with ending := some .returned }
    | .detaching, .thread event | .returning, .thread event =>
        match process.worker.step event with
        | none => none
        | some (.error halt) => some { process with ending := some (.halted halt) }
        | some (.ok worker) => some { process with worker := worker }
    | _, _ => none

/-- If `main` returns, the service thread has no client at this moment. -/
def ReturnsIdle (process : Process servers α) : ProcessEvent α → Prop
  | .mainReturns => process.worker.Idle
  | .start | .detach | .thread _ => True

instance (process : Process servers α) (event : ProcessEvent α) :
    Decidable (process.ReturnsIdle event) :=
  match event with
  | .mainReturns => inferInstanceAs (Decidable process.worker.Idle)
  | .start | .detach | .thread _ => instDecidableTrue

variable [Cell α]

/-- What a step does to the service thread and to the end of the process. -/
theorem step_cases {process next : Process servers α} {event : ProcessEvent α}
    (stepped : process.step event = some next) :
    (next.worker = process.worker ∧ (next.ending = some .returned → event = .mainReturns)) ∨
      (next.ending = none ∧ ∃ threadEvent,
        process.worker.step threadEvent = some (.ok next.worker)) := by
  simp only [Process.step] at stepped
  split at stepped
  · cases stepped
  · rename_i running
    push Not at running
    split at stepped
    · cases stepped
      exact Or.inl ⟨rfl, fun returned => by rw [running] at returned; cases returned⟩
    · cases stepped
      exact Or.inl ⟨rfl, fun returned => by rw [running] at returned; cases returned⟩
    · cases stepped
      exact Or.inl ⟨rfl, fun _ => rfl⟩
    · rename_i threadEvent _
      split at stepped
      · cases stepped
      · cases stepped
        exact Or.inl ⟨rfl, fun returned => by cases returned⟩
      · rename_i ended
        cases stepped
        exact Or.inr ⟨running, threadEvent, ended⟩
    · rename_i threadEvent _
      split at stepped
      · cases stepped
      · cases stepped
        exact Or.inl ⟨rfl, fun returned => by cases returned⟩
      · rename_i ended
        cases stepped
        exact Or.inr ⟨running, threadEvent, ended⟩
    · cases stepped

theorem eq_of_step_mainReturns {process next : Process servers α}
    (stepped : process.step .mainReturns = some next) :
    next = { process with ending := some .returned } := by
  simp only [Process.step] at stepped
  split at stepped
  · cases stepped
  · cases atMain : process.main with
    | returning =>
        rw [atMain] at stepped
        cases stepped
        rfl
    | _ =>
        rw [atMain] at stepped
        cases stepped

/-- The service thread is sound, and a return of `main` has found it without a client. -/
structure Orderly (process : Process servers α) : Prop where
  sound : process.worker.Sound
  completed : process.ending = some .returned → process.worker.Completed

omit [Cell α] in
theorem orderly_start (listenFdOuter : Fd) (serversInner : Fin servers → Fd × Fd) :
    (start listenFdOuter serversInner : Process servers α).Orderly where
  sound := Worker.sound_start listenFdOuter serversInner
  completed := by
    intro returned
    cases returned

theorem Orderly.step {process next : Process servers α} {event : ProcessEvent α}
    (orderly : process.Orderly) (idle : process.ReturnsIdle event)
    (stepped : process.step event = some next) : next.Orderly := by
  rcases step_cases stepped with ⟨same, returns⟩ | ⟨running, threadEvent, went⟩
  · constructor
    · rw [same]
      exact orderly.sound
    · intro returned
      rw [returns returned] at idle
      rw [same]
      exact orderly.sound.completed_iff_idle.mpr idle
  · constructor
    · exact orderly.sound.step went
    · intro returned
      rw [running] at returned
      cases returned

/--
In every run in which `main` returns only while the service thread has no client, every
chunk has been forwarded and answered and no connection is open when the process has
ended by this return; and a return in any other state would leave one of them behind.
-/
theorem completed_of_returnsIdle (listenFdOuter : Fd) (serversInner : Fin servers → Fd × Fd)
    {events : List (ProcessEvent α)} {final : Process servers α}
    (guarded : Machine.RunsUnder step ReturnsIdle (start listenFdOuter serversInner) events final) :
    (final.ending = some .returned → final.worker.Completed) ∧
      ∀ next, final.step .mainReturns = some next →
        (next.worker.Completed ↔ final.worker.Idle) := by
  have orderly : final.Orderly :=
    guarded.invariant Orderly (fun kept idle stepped => kept.step idle stepped)
      (orderly_start listenFdOuter serversInner)
  refine ⟨orderly.completed, fun next stepped => ?_⟩
  rw [eq_of_step_mainReturns stepped]
  exact orderly.sound.completed_iff_idle

/-- A connection is accepted and answered, and closed before `main` returns. -/
def sampleEvents : List (ProcessEvent Byte) :=
  [.start, .thread (.setup 0), .detach, .thread (.ready 6 EPOLLIN), .thread (.accept 8),
    .thread (.register 0 0), .thread (.acceptFails .eagain), .thread (.ready 8 EPOLLIN),
    .thread (.read (.data [1, 2])), .thread .select, .thread (.forward 2), .thread .reply,
    .thread (.ready 8 EPOLLIN), .thread (.read (.data [])), .thread .unregister,
    .thread .close, .mainReturns]

def sampleServer (_ : Fin 1) : Fd × Fd := (10, 20)

theorem completed_of_returnsIdle_sample :
    ∃ final : Process 1 Byte,
      Machine.RunsUnder step ReturnsIdle (start 6 sampleServer) sampleEvents final ∧
        final.ending = some .returned ∧ final.worker.received = [(8, [1, 2])] ∧
        final.worker.Completed := by
  have ran : ((Machine.run (Machine.RunsUnder.guarded step ReturnsIdle) (start 6 sampleServer)
      sampleEvents).any fun final =>
        final.ending = some .returned ∧ final.worker.received = [(8, [1, 2])]) = true := by
    decide +kernel
  rcases Machine.RunsUnder.exists_of_any sampleEvents ran with ⟨final, guarded, shown⟩
  have shown := of_decide_eq_true shown
  exact ⟨final, guarded, shown.1, shown.2,
    (completed_of_returnsIdle 6 sampleServer guarded).1 shown.1⟩

/-- `main` returns between the `read` and the forward of a chunk. -/
theorem not_completed_of_return :
    ∃ final : Process 1 Byte,
      Machine.run step (start 6 sampleServer)
          (sampleEvents.take 9 ++ [.mainReturns]) = some final ∧
        final.ending = some .returned ∧ final.worker.received = [(8, [1, 2])] ∧
        final.worker.calls = [] ∧ final.worker.opened = {8} ∧ ¬final.worker.Completed := by
  have ran : ((Machine.run step (start 6 sampleServer)
      (sampleEvents.take 9 ++ [.mainReturns])).any fun final =>
        final.ending = some .returned ∧ final.worker.received = [(8, [1, 2])] ∧
          final.worker.calls = [] ∧ final.worker.opened = {8}) = true := by
    decide +kernel
  rcases Machine.exists_run_of_any ran with ⟨final, ran, shown⟩
  rcases of_decide_eq_true shown with ⟨returned, received, calls, opened⟩
  refine ⟨final, ran, returned, received, calls, opened, ?_⟩
  intro completed
  have closed := completed.closed
  rw [opened] at closed
  exact absurd closed (by decide)

end Process

end LoadBalance.RoundRobin
