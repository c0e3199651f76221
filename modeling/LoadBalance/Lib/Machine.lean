import Mathlib.Data.List.Induction
import Mathlib.Data.List.Forall2

/-!
# Machines with partial steps

A machine is given by a step function which answers every event with the next
state, or with `none` where the event cannot happen. This file collects what is
used about such machines independently of what they model: finite runs, runs all
of whose steps satisfy a condition, the induction rules which turn a fact about one
step into a fact about every run, and simulations between two machines.

The condition of a guarded run is a proposition about the state before the step and
the event. It restricts the runs which a theorem speaks about, and never the
machine itself.
-/

universe u v u' v'

namespace Machine

variable {State : Type u} {Event : Type v}

/-- The state after a list of events, if every one of them can happen in turn. -/
def run (step : State → Event → Option State) : State → List Event → Option State
  | state, [] => some state
  | state, event :: events => (step state event).bind fun next => run step next events

/-- A state is reachable when some finite run ends in it. -/
def Reachable (step : State → Event → Option State) (start state : State) : Prop :=
  ∃ events, run step start events = some state

/-- A run from `start` to the last index all of whose steps satisfy `allowed`. -/
inductive RunsUnder (step : State → Event → Option State) (allowed : State → Event → Prop) :
    State → List Event → State → Prop where
  | nil (state : State) : RunsUnder step allowed state [] state
  | cons {state next final : State} {event : Event} {events : List Event}
      (permitted : allowed state event) (stepped : step state event = some next)
      (rest : RunsUnder step allowed next events final) :
      RunsUnder step allowed state (event :: events) final

/-- An entry of a log stays where it is when the log grows. -/
theorem getElem?_of_grown {α : Type*} {log later : List α} (grown : log <+: later) {index : ℕ}
    {entry : α} (found : log[index]? = some entry) : later[index]? = some entry := by
  rcases grown with ⟨rest, rfl⟩
  rcases List.getElem?_eq_some_iff.mp found with ⟨inside, _⟩
  rw [List.getElem?_append_left inside, found]

section Runs

variable {step : State → Event → Option State}

@[simp]
theorem run_nil (state : State) : run step state [] = some state := rfl

theorem run_cons (state : State) (event : Event) (events : List Event) :
    run step state (event :: events) =
      (step state event).bind fun next => run step next events := rfl

theorem run_cons_eq_some {state final : State} {event : Event} {events : List Event} :
    run step state (event :: events) = some final ↔
      ∃ next, step state event = some next ∧ run step next events = some final := by
  simp [run_cons, Option.bind_eq_some_iff]

/-- A step in front of a run to a state with some property. -/
theorem exists_run_cons {Holds : State → Prop} {state next : State} {event : Event}
    (stepped : step state event = some next)
    (rest : ∃ events final, run step next events = some final ∧ Holds final) :
    ∃ events final, run step state events = some final ∧ Holds final := by
  rcases rest with ⟨events, final, ran, holds⟩
  exact ⟨event :: events, final, run_cons_eq_some.mpr ⟨next, stepped, ran⟩, holds⟩

theorem run_append (state : State) (first second : List Event) :
    run step state (first ++ second) =
      (run step state first).bind fun middle => run step middle second := by
  induction first generalizing state with
  | nil => simp
  | cons event events ih =>
      simp only [List.cons_append, run_cons, Option.bind_assoc]
      congr 1
      funext next
      exact ih next

theorem run_concat_eq_some {state final : State} {event : Event} {events : List Event} :
    run step state (events ++ [event]) = some final ↔
      ∃ middle, run step state events = some middle ∧ step middle event = some final := by
  simp [run_append, run_cons, Option.bind_eq_some_iff]

theorem Reachable.refl (start : State) : Reachable step start start := ⟨[], rfl⟩

theorem Reachable.next {start state next : State} {event : Event}
    (reachable : Reachable step start state) (stepped : step state event = some next) :
    Reachable step start next := by
  rcases reachable with ⟨events, ran⟩
  exact ⟨events ++ [event], run_concat_eq_some.mpr ⟨state, ran, stepped⟩⟩

/-- Running the machine shows that a run with some property of its end exists. -/
theorem exists_run_of_any {start : State} {events : List Event} {test : State → Bool}
    (passed : (run step start events).any test = true) :
    ∃ state, run step start events = some state ∧ test state = true := by
  cases ran : run step start events with
  | none =>
      rw [ran] at passed
      cases passed
  | some state =>
      rw [ran] at passed
      exact ⟨state, rfl, passed⟩

theorem exists_reachable_of_any {start : State} (events : List Event) {test : State → Bool}
    (passed : (run step start events).any test = true) :
    ∃ state, Reachable step start state ∧ test state = true := by
  rcases exists_run_of_any passed with ⟨state, ran, shown⟩
  exact ⟨state, ⟨events, ran⟩, shown⟩

/-- What holds initially and is kept by every step of a run holds at its end. -/
theorem run_invariant_of_mem (Holds : State → Prop) {start final : State} {events : List Event}
    (preserved : ∀ {state event next}, event ∈ events → Holds state →
      step state event = some next → Holds next)
    (initially : Holds start) (ran : run step start events = some final) : Holds final := by
  induction events generalizing start with
  | nil =>
      simp only [run_nil, Option.some.injEq] at ran
      exact ran ▸ initially
  | cons event events ih =>
      rcases run_cons_eq_some.mp ran with ⟨next, stepped, rest⟩
      refine ih (fun eventMem => preserved (.tail _ eventMem)) ?_ rest
      exact preserved List.mem_cons_self initially stepped

theorem run_invariant (Holds : State → Prop)
    (preserved : ∀ {state event next}, Holds state → step state event = some next → Holds next)
    {start final : State} {events : List Event} (initially : Holds start)
    (ran : run step start events = some final) : Holds final :=
  run_invariant_of_mem Holds (fun _ => preserved) initially ran

theorem Reachable.invariant (Holds : State → Prop)
    (preserved : ∀ {state event next}, Holds state → step state event = some next → Holds next)
    {start state : State} (initially : Holds start)
    (reachable : Reachable step start state) : Holds state := by
  rcases reachable with ⟨events, ran⟩
  exact run_invariant Holds preserved initially ran

/-- An invariant which also speaks about the events so far. -/
theorem run_history_invariant (Holds : List Event → State → Prop)
    (preserved : ∀ {past state event next}, Holds past state →
      step state event = some next → Holds (past ++ [event]) next)
    {start final : State} {events : List Event} (initially : Holds [] start)
    (ran : run step start events = some final) : Holds events final := by
  induction events using List.reverseRecOn generalizing final with
  | nil =>
      simp only [run_nil, Option.some.injEq] at ran
      exact ran ▸ initially
  | append_singleton events event ih =>
      rcases run_concat_eq_some.mp ran with ⟨middle, ranBefore, stepped⟩
      exact preserved (ih ranBefore) stepped

end Runs

namespace RunsUnder

variable {step : State → Event → Option State} {allowed : State → Event → Prop}

theorem run {start final : State} {events : List Event}
    (guarded : RunsUnder step allowed start events final) :
    Machine.run step start events = some final := by
  induction guarded with
  | nil => rfl
  | cons _ stepped _ ih => exact run_cons_eq_some.mpr ⟨_, stepped, ih⟩

/-- The invariant rule for guarded runs: a step may use that it was permitted. -/
theorem invariant (Holds : State → Prop)
    (preserved : ∀ {state event next}, Holds state → allowed state event →
      step state event = some next → Holds next)
    {start final : State} {events : List Event} (initially : Holds start)
    (guarded : RunsUnder step allowed start events final) : Holds final := by
  induction guarded with
  | nil => exact initially
  | cons permitted stepped _ ih => exact ih (preserved initially permitted stepped)

theorem of_run (always : ∀ state event, allowed state event) {start final : State}
    {events : List Event} (ran : Machine.run step start events = some final) :
    RunsUnder step allowed start events final := by
  induction events generalizing start with
  | nil =>
      simp only [run_nil, Option.some.injEq] at ran
      exact ran ▸ .nil start
  | cons event events ih =>
      rcases run_cons_eq_some.mp ran with ⟨next, stepped, rest⟩
      exact .cons (always start event) stepped (ih rest)

theorem of_append {start final : State} {first second : List Event}
    (guarded : RunsUnder step allowed start (first ++ second) final) :
    ∃ middle, RunsUnder step allowed start first middle ∧
      RunsUnder step allowed middle second final := by
  induction first generalizing start with
  | nil => exact ⟨start, .nil start, guarded⟩
  | cons event events ih =>
      cases guarded with
      | cons permitted stepped rest =>
          rcases ih rest with ⟨middle, before, after⟩
          exact ⟨middle, .cons permitted stepped before, after⟩

theorem concat_iff {start final : State} {event : Event} {events : List Event} :
    RunsUnder step allowed start (events ++ [event]) final ↔
      ∃ middle, RunsUnder step allowed start events middle ∧ allowed middle event ∧
        step middle event = some final := by
  constructor
  · intro guarded
    rcases guarded.of_append with ⟨middle, before, last⟩
    cases last with
    | cons permitted stepped rest =>
        cases rest
        exact ⟨middle, before, permitted, stepped⟩
  · rintro ⟨middle, before, permitted, stepped⟩
    induction before with
    | nil => exact .cons permitted stepped (.nil final)
    | cons permittedFirst steppedFirst _ ih =>
        exact .cons permittedFirst steppedFirst (ih permitted stepped)

theorem history_invariant (Holds : List Event → State → Prop)
    (preserved : ∀ {past state event next}, Holds past state → allowed state event →
      step state event = some next → Holds (past ++ [event]) next)
    {start final : State} {events : List Event} (initially : Holds [] start)
    (guarded : RunsUnder step allowed start events final) : Holds events final := by
  induction events using List.reverseRecOn generalizing final with
  | nil =>
      cases guarded
      exact initially
  | append_singleton events event ih =>
      rcases concat_iff.mp guarded with ⟨middle, before, permitted, stepped⟩
      exact preserved (ih before) permitted stepped

/-- A run which is not guarded has a first step which violates the condition. -/
theorem or_exists_violation {start final : State} {events : List Event}
    (ran : Machine.run step start events = some final) :
    RunsUnder step allowed start events final ∨
      ∃ before event after middle, events = before ++ event :: after ∧
        RunsUnder step allowed start before middle ∧ ¬allowed middle event ∧
        ∃ next, step middle event = some next := by
  induction events generalizing start with
  | nil =>
      simp only [run_nil, Option.some.injEq] at ran
      exact Or.inl (ran ▸ .nil start)
  | cons event events ih =>
      rcases run_cons_eq_some.mp ran with ⟨next, stepped, rest⟩
      by_cases permitted : allowed start event
      · rcases ih rest with guarded | ⟨before, bad, after, middle, rfl, guarded, violated⟩
        · exact Or.inl (.cons permitted stepped guarded)
        · exact Or.inr ⟨event :: before, bad, after, middle, rfl,
            .cons permitted stepped guarded, violated⟩
      · exact Or.inr ⟨[], event, events, start, rfl, .nil start, permitted, next, stepped⟩

/-- The machine which has no step where the condition fails. -/
def guarded (step : State → Event → Option State) (allowed : State → Event → Prop)
    [∀ state event, Decidable (allowed state event)] (state : State) (event : Event) :
    Option State :=
  if allowed state event then step state event else none

theorem of_run_guarded [∀ state event, Decidable (allowed state event)] {start final : State}
    {events : List Event} (ran : Machine.run (guarded step allowed) start events = some final) :
    RunsUnder step allowed start events final := by
  induction events generalizing start with
  | nil =>
      simp only [run_nil, Option.some.injEq] at ran
      exact ran ▸ .nil start
  | cons event events ih =>
      rcases run_cons_eq_some.mp ran with ⟨next, stepped, rest⟩
      simp only [guarded] at stepped
      split at stepped
      · rename_i permitted
        exact .cons permitted stepped (ih rest)
      · cases stepped

theorem exists_of_any [∀ state event, Decidable (allowed state event)] {start : State}
    (events : List Event) {test : State → Bool}
    (passed : (Machine.run (guarded step allowed) start events).any test = true) :
    ∃ final, RunsUnder step allowed start events final ∧ test final = true := by
  rcases exists_run_of_any passed with ⟨final, ran, shown⟩
  exact ⟨final, of_run_guarded ran, shown⟩

/-- Two machines run side by side: if each permitted step of the first is matched by a
step of the second on a related event, a guarded run of the first is matched by a run
of the second. -/
theorem simulation {State' : Type u'} {Event' : Type v'}
    {step' : State' → Event' → Option State'} {Related : State → State' → Prop}
    {Matches : Event → Event' → Prop}
    (simulates : ∀ {state event next state' event'}, Related state state' →
      Matches event event' → allowed state event → step state event = some next →
      ∃ next', step' state' event' = some next' ∧ Related next next')
    {start final : State} {events : List Event} {start' : State'} {events' : List Event'}
    (related : Related start start') (matching : List.Forall₂ Matches events events')
    (guarded : RunsUnder step allowed start events final) :
    ∃ final', Machine.run step' start' events' = some final' ∧ Related final final' := by
  induction guarded generalizing start' events' with
  | nil =>
      cases matching
      exact ⟨start', rfl, related⟩
  | cons permitted stepped _ ih =>
      cases matching with
      | cons head tail =>
          rcases simulates related head permitted stepped with ⟨next', stepped', relatedNext⟩
          rcases ih relatedNext tail with ⟨final', ran', relatedFinal⟩
          exact ⟨final', run_cons_eq_some.mpr ⟨next', stepped', ran'⟩, relatedFinal⟩

end RunsUnder

end Machine
