import Mathlib.Logic.Function.Iterate
import LoadBalance.Lib.Machine

/-!
# Endless runs

A machine need not come to an end. It does not if every state of some kind has a
permitted step to a state of this kind, and it does if some number falls with every
permitted step.
-/

universe u v

namespace Machine

variable {State : Type u} {Event : Type v} {step : State → Event → Option State}
  {allowed : State → Event → Prop} {start : State}

/-- The first events of an endless sequence. -/
def firstEvents (events : ℕ → Event) (count : ℕ) : List Event := (List.range count).map events

/-- There is a run without end all of whose steps satisfy `allowed`. -/
def Endless (step : State → Event → Option State) (allowed : State → Event → Prop)
    (start : State) : Prop :=
  ∃ (states : ℕ → State) (events : ℕ → Event), states 0 = start ∧
    ∀ index, allowed (states index) (events index) ∧
      step (states index) (events index) = some (states (index + 1))

theorem firstEvents_succ (events : ℕ → Event) (count : ℕ) :
    firstEvents events (count + 1) = firstEvents events count ++ [events count] := by
  rw [firstEvents, List.range_succ, List.map_append]
  rfl

theorem run_firstEvents {states : ℕ → State} {events : ℕ → Event}
    (steps : ∀ index, step (states index) (events index) = some (states (index + 1)))
    (count : ℕ) : run step (states 0) (firstEvents events count) = some (states count) := by
  induction count with
  | zero => rfl
  | succ count ih =>
      rw [firstEvents_succ, run_concat_eq_some]
      exact ⟨states count, ih, steps count⟩

theorem endless_of_lasting (Lasting : State → Prop)
    (goesOn : ∀ {state}, Lasting state →
      ∃ event next, allowed state event ∧ step state event = some next ∧ Lasting next)
    (lasting : Lasting start) : Endless step allowed start := by
  choose event next permitted stepped lastingNext using @goesOn
  let follow : { state // Lasting state } → { state // Lasting state } :=
    fun state => ⟨next state.2, lastingNext state.2⟩
  refine ⟨fun index => (Nat.iterate follow index ⟨start, lasting⟩).1,
    fun index => event (Nat.iterate follow index ⟨start, lasting⟩).2, rfl, ?_⟩
  intro index
  refine ⟨permitted _, ?_⟩
  simp only [Function.iterate_succ_apply']
  exact stepped _

theorem not_endless_of_measure (Holds : State → Prop) (measure : State → ℕ)
    (descends : ∀ {state event next}, Holds state → allowed state event →
      step state event = some next → Holds next ∧ measure next < measure state)
    (initially : Holds start) : ¬Endless step allowed start := by
  rintro ⟨states, events, rfl, steps⟩
  have spent : ∀ count, Holds (states count) ∧
      measure (states count) + count ≤ measure (states 0) := by
    intro count
    induction count with
    | zero => exact ⟨initially, Nat.le_refl _⟩
    | succ count ih =>
        rcases descends ih.1 (steps count).1 (steps count).2 with ⟨holds, less⟩
        exact ⟨holds, by omega⟩
  have last := (spent (measure (states 0) + 1)).2
  omega

/-- Where some number falls with every step, a run can be continued until there is no step. -/
theorem exists_run_to_rest (Holds : State → Prop) (measure : State → ℕ)
    (descends : ∀ {state event next}, Holds state → step state event = some next →
      Holds next ∧ measure next < measure state)
    {state : State} (holds : Holds state) :
    ∃ events final, run step state events = some final ∧ ∀ event, step final event = none := by
  induction bound : measure state using Nat.strongRecOn generalizing state with
  | _ bound ih =>
      by_cases rest : ∀ event, step state event = none
      · exact ⟨[], state, rfl, rest⟩
      · rcases not_forall.mp rest with ⟨event, possible⟩
        rcases Option.ne_none_iff_exists'.mp possible with ⟨next, stepped⟩
        rcases descends holds stepped with ⟨holdsNext, less⟩
        exact exists_run_cons stepped (ih _ (by omega) holdsNext rfl)

/-- A sequence of events which are permitted when they are due, and never refused. -/
theorem endless_of_forall_run {events : ℕ → Event}
    (permitted : ∀ count state, run step start (firstEvents events count) = some state →
      allowed state (events count))
    (possible : ∀ count, ∃ state, run step start (firstEvents events count) = some state) :
    Endless step allowed start := by
  choose states ran using possible
  refine ⟨states, events, ?_, ?_⟩
  · exact (Option.some.inj (ran 0)).symm
  · intro index
    refine ⟨permitted index _ (ran index), ?_⟩
    have further := ran (index + 1)
    rw [firstEvents_succ, run_concat_eq_some] at further
    rcases further with ⟨middle, before, stepped⟩
    rw [ran index, Option.some.injEq] at before
    rwa [before]

end Machine
