import LoadBalance.Balancer.Polling

/-!
# Rounds of reports

A run is described by what came in: the reports in the order of the polls, and the
number of rounds which a `set_distribution` has completed. The reports of round `k` are
those with the numbers `k * servers` to `k * servers + servers - 1`. The invariant of
this file links both to `p`, to `d` and to the loop index: up to the index `p` holds the
weights of the round under way, while `d` holds those of the last completed round.
-/

universe u

namespace LoadBalance.Balancer

open Machine

variable {servers : ℕ} {Engine : Type u}

def Event.report? : Event servers → Option Report
  | .poll answer => answer
  | .setDistribution | .writeUsage | .select _ => none

/-- The reports of a run, in the order of the polls. -/
def reports (events : List (Event servers)) : List Report := events.filterMap Event.report?

/-- The number of rounds which a run has completed. -/
def rounds (events : List (Event servers)) : ℕ := events.count .setDistribution

/-- The reports of round `k`, one for each server. -/
def IsRound (events : List (Event servers)) (k : ℕ) (round : Fin servers → Report) : Prop :=
  ∀ index : Fin servers, (reports events)[k * servers + index]? = some (round index)

/-- The reports of the last completed round. -/
def IsLastRound (events : List (Event servers)) (round : Fin servers → Report) : Prop :=
  ∃ k, rounds events = k + 1 ∧ IsRound events k round

/-- The weights of the last completed round, or the first ones before there is any. -/
def Current (events : List (Event servers)) (weights : Fin servers → ℚ) : Prop :=
  rounds events = 0 ∧ weights = uniform servers ∨
    ∃ round, IsLastRound events round ∧ weights = fun index => (round index).weight

section Append

variable (past : List (Event servers))

@[simp]
theorem reports_poll (answer : Option Report) :
    reports (past ++ [.poll answer]) = reports past ++ answer.toList := by
  cases answer <;> simp [reports, Event.report?]

@[simp]
theorem reports_setDistribution :
    reports (past ++ [.setDistribution]) = reports past := by
  simp [reports, Event.report?]

@[simp]
theorem reports_writeUsage : reports (past ++ [.writeUsage]) = reports past := by
  simp [reports, Event.report?]

@[simp]
theorem reports_select (index : Fin servers) :
    reports (past ++ [.select index]) = reports past := by
  simp [reports, Event.report?]

@[simp]
theorem rounds_setDistribution : rounds (past ++ [.setDistribution]) = rounds past + 1 := by
  simp [rounds]

theorem rounds_of_ne {event : Event servers} (other : event ≠ .setDistribution) :
    rounds (past ++ [event]) = rounds past := by
  simp [rounds, other]

theorem rounds_le_append (event : Event servers) : rounds past ≤ rounds (past ++ [event]) := by
  simp [rounds]

theorem reports_isPrefix_append (event : Event servers) :
    reports past <+: reports (past ++ [event]) := by
  simp [reports]

end Append

theorem IsRound.append {past : List (Event servers)} {k : ℕ} {round : Fin servers → Report}
    (isRound : IsRound past k round) (event : Event servers) :
    IsRound (past ++ [event]) k round :=
  fun index => getElem?_of_grown (reports_isPrefix_append past event) (isRound index)

theorem IsRound.unique {events : List (Event servers)} {k : ℕ}
    {first second : Fin servers → Report} (isFirst : IsRound events k first)
    (isSecond : IsRound events k second) : first = second :=
  funext fun index => Option.some.inj ((isFirst index).symm.trans (isSecond index))

theorem IsLastRound.unique {events : List (Event servers)} {first second : Fin servers → Report}
    (isFirst : IsLastRound events first) (isSecond : IsLastRound events second) :
    first = second := by
  rcases isFirst with ⟨k, count, isFirst⟩
  rcases isSecond with ⟨k', count', isSecond⟩
  obtain rfl : k = k' := by omega
  exact isFirst.unique isSecond

theorem Current.eq_weight {events : List (Event servers)} {weights : Fin servers → ℚ}
    {round : Fin servers → Report} (current : Current events weights)
    (isLast : IsLastRound events round) : weights = fun index => (round index).weight := by
  rcases current with ⟨zero, -⟩ | ⟨round', isLast', installed⟩
  · rcases isLast with ⟨k, count, -⟩
    omega
  · rw [installed, isLast'.unique isLast]

/-- The loop over the servers has asked the first `i` of them in this round. -/
structure Filled (past : List (Event servers)) (p : Fin servers → ℚ) (i : ℕ) : Prop where
  bound : i ≤ servers
  length : (reports past).length = rounds past * servers + i
  weights : ∀ index : Fin servers, index < i →
    ∃ report, (reports past)[rounds past * servers + index]? = some report ∧
      p index = report.weight

theorem Filled.isRound {past : List (Event servers)} {p : Fin servers → ℚ}
    (filled : Filled past p servers) :
    ∃ round, IsRound past (rounds past) round ∧ p = fun index => (round index).weight := by
  choose round found weight using fun index : Fin servers => filled.weights index index.isLt
  exact ⟨round, found, funext weight⟩

/-- What the variables of a state say about the run which led to it. -/
structure Tracks (past : List (Event servers)) (state : State servers Engine) : Prop where
  current : Current past state.d
  complete : rounds past * servers ≤ (reports past).length
  filled : ∀ i, state.phase = .polling i → Filled past state.p i

theorem Current.of_eq {past later : List (Event servers)} {weights : Fin servers → ℚ}
    (current : Current past weights) (sameRounds : rounds later = rounds past)
    (more : reports past <+: reports later) : Current later weights := by
  rcases current with ⟨zero, uniform⟩ | ⟨round, ⟨k, count, isRound⟩, installed⟩
  · exact Or.inl ⟨sameRounds.trans zero, uniform⟩
  · exact Or.inr ⟨round, ⟨k, sameRounds.trans count,
      fun index => getElem?_of_grown more (isRound index)⟩, installed⟩

theorem Filled.poll {past : List (Event servers)} {p : Fin servers → ℚ} {i : Fin servers}
    (filled : Filled past p i) (report : Report) :
    Filled (past ++ [.poll (some report)]) (Function.update p i report.weight) (i + 1) := by
  have same : rounds (past ++ [.poll (some report)]) = rounds past :=
    rounds_of_ne past (by simp)
  refine ⟨i.isLt, ?_, ?_⟩
  · rw [same, reports_poll]
    simp [filled.length, Nat.add_assoc]
  · intro index before
    rw [same, reports_poll]
    rcases Nat.lt_succ_iff_lt_or_eq.mp before with earlier | last
    · rcases filled.weights index earlier with ⟨found, atIndex, weight⟩
      refine ⟨found, ?_, ?_⟩
      · rw [List.getElem?_append_left (List.getElem?_eq_some_iff.mp atIndex).1]
        exact atIndex
      · rw [Function.update_of_ne (Fin.ne_of_lt earlier)]
        exact weight
    · obtain rfl : index = i := Fin.ext last
      refine ⟨report, ?_, Function.update_self ..⟩
      rw [← filled.length]
      simp

section Step

variable [NeZero servers] {sample : (Fin servers → ℚ) → Engine → Fin servers × Engine}
  {past : List (Event servers)} {state next : State servers Engine}

theorem tracks_start (engine : Engine) : Tracks [] (start engine : State servers Engine) := by
  refine ⟨Or.inl ⟨rfl, rfl⟩, by simp [rounds], ?_⟩
  intro i polling
  obtain rfl : 0 = i := by simpa [start, globals, State.setDistribution] using polling
  exact ⟨Nat.zero_le _, by simp [rounds, reports], fun index before => absurd before (by simp)⟩

theorem Tracks.poll {answer : Option Report} (tracks : Tracks past state)
    (stepped : step sample state (.poll answer) = some next) :
    Tracks (past ++ [.poll answer]) next := by
  rcases step_poll_eq_some.mp stepped with ⟨i, bound, polling, rfl⟩
  have same : rounds (past ++ [.poll answer]) = rounds past := rounds_of_ne past (by simp)
  have complete : rounds (past ++ [.poll answer]) * servers ≤
      (reports (past ++ [.poll answer])).length := by
    rw [same]
    exact tracks.complete.trans (reports_isPrefix_append past _).length_le
  have current := tracks.current.of_eq same (reports_isPrefix_append past _)
  cases answer with
  | none => exact ⟨current, complete, fun i polled => by simp [State.poll] at polled⟩
  | some report =>
      refine ⟨current, complete, ?_⟩
      intro i' polled
      obtain rfl : i + 1 = i' := by simpa [State.poll] using polled
      exact (tracks.filled i polling).poll (i := ⟨i, bound⟩) report

/-- Only here `d` changes, and then it takes the weights of a round which is complete. -/
theorem Tracks.setDistribution (tracks : Tracks past state)
    (stepped : step sample state .setDistribution = some next) :
    Tracks (past ++ [.setDistribution]) next := by
  rcases step_setDistribution_eq_some.mp stepped with ⟨i, asked, polling, rfl⟩
  have filled := tracks.filled i polling
  obtain rfl : i = servers := filled.bound.antisymm asked
  have length : (reports past).length = (rounds past + 1) * i := by
    rw [filled.length, Nat.succ_mul]
  rcases filled.isRound with ⟨round, isRound, weights⟩
  refine ⟨Or.inr ⟨round, ⟨rounds past, ?_, ?_⟩, weights⟩, ?_, ?_⟩
  · exact rounds_setDistribution past
  · exact isRound.append _
  · simp [length]
  · intro i' polled
    obtain rfl : i' = 0 := (State.nextPass_polling polled).2
    exact ⟨Nat.zero_le _, by simp [length], fun index before => absurd before (by simp)⟩

omit [NeZero servers] in
/-- The other steps bring in nothing and keep both families of weights. -/
theorem Tracks.of_same {event : Event servers} (tracks : Tracks past state)
    (sameRounds : rounds (past ++ [event]) = rounds past)
    (sameReports : reports (past ++ [event]) = reports past)
    (sameD : next.d = state.d) (sameP : next.p = state.p)
    (samePhase : ∀ i, next.phase = .polling i → state.phase = .polling i) :
    Tracks (past ++ [event]) next where
  current := sameD ▸ tracks.current.of_eq sameRounds (reports_isPrefix_append past _)
  complete := by
    rw [sameRounds, sameReports]
    exact tracks.complete
  filled i polling := by
    rcases tracks.filled i (samePhase i polling) with ⟨bound, length, weights⟩
    constructor
    · exact bound
    · rw [sameRounds, sameReports]
      exact length
    · rw [sameRounds, sameReports, sameP]
      exact weights

theorem Tracks.step {event : Event servers} (tracks : Tracks past state)
    (stepped : Balancer.step sample state event = some next) : Tracks (past ++ [event]) next := by
  cases event with
  | poll answer => exact tracks.poll stepped
  | setDistribution => exact tracks.setDistribution stepped
  | writeUsage =>
      rcases step_writeUsage_eq_some.mp stepped with ⟨-, rfl⟩
      exact tracks.of_same (rounds_of_ne past (by simp)) (by simp) rfl rfl (by simp)
  | select index =>
      rcases step_select_eq_some.mp stepped with ⟨-, -, rfl⟩
      exact tracks.of_same (rounds_of_ne past (by simp)) (by simp) rfl rfl (fun _ same => same)

theorem tracks_of_run {engine : Engine} {events : List (Event servers)}
    {final : State servers Engine}
    (ran : run (Balancer.step sample) (start engine) events = some final) : Tracks events final :=
  run_history_invariant Tracks Tracks.step (tracks_start engine) ran

end Step

end LoadBalance.Balancer
