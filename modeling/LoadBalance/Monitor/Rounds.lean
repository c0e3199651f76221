import LoadBalance.Balancer.Rounds
import LoadBalance.Monitor.Reports

/-!
# The rounds of the distributor

The main thread of the distributor over byte streams does what the balancing model says,
for any reading of usages as rational numbers: each complete read is a poll with the
report of the triple which was charged. So the k-th triples of all servers are the
reports of round k.
-/

universe u v

namespace LoadBalance.Monitor

open Layout (Image)
open Machine (Reachable run run_concat_eq_some)

variable {R : Type u} {servers : ℕ} {Engine : Type v}

def Usage.report (value : R → ℚ) (usage : Usage R) : Balancer.Report where
  cpu := value usage.cpu
  memory := value usage.memory
  io := value usage.io

def Pc.phase : Pc → Balancer.Phase
  | .asking i | .waiting i => .polling i
  | .writing => .writing
  | .exited halt => .exited halt

namespace Polls

/-- The balancing model after the polls so far. -/
structure Stands (value : R → ℚ) (state : Polls servers R) (past : List (Balancer.Event servers))
    (balancer : Balancer.State servers Engine) : Prop where
  phase : balancer.phase = state.pc.phase
  inside : ∀ i, state.pc = .waiting i → i < servers
  asked : ∀ i, (balancer.cpuUsage i).length = (state.cpuUsage i).length
  reports : ∀ (i : Fin servers) (k : ℕ) (usage : Usage R), (state.used i)[k]? = some usage →
    (Balancer.reports past)[k * servers + i]? = some (usage.report value)
  rounds : ∀ i, state.pc.index? = some i → state.Rounds (Balancer.rounds past) i

section Step

variable [NeZero servers] {value : R → ℚ} {state : Polls servers R}
  {past : List (Balancer.Event servers)} {balancer : Balancer.State servers Engine}
  {sample : (Fin servers → ℚ) → Engine → Fin servers × Engine}

theorem stands_start [Double R] [Image R Byte] (engine : Engine) (link : Fin servers → Link R) :
    Stands value (start link) [] (Balancer.start engine) where
  phase := rfl
  inside := by
    intro i impossible
    cases impossible
  asked _ := rfl
  reports := by
    intro i k usage found
    cases found
  rounds := by
    intro i here j
    cases Option.some.inj here
    rfl

omit [NeZero servers] in
/-- A step which the balancing model does not see. -/
theorem Stands.of_same {next : Polls servers R} (stands : state.Stands value past balancer)
    (phase : next.pc.phase = state.pc.phase) (index : next.pc.index? = state.pc.index?)
    (inside : ∀ i, next.pc = .waiting i → i < servers)
    (cpuUsage : next.cpuUsage = state.cpuUsage) (used : next.used = state.used) :
    next.Stands value past balancer where
  phase := stands.phase.trans phase.symm
  inside := inside
  asked := by
    rw [cpuUsage]
    exact stands.asked
  reports := by
    rw [used]
    exact stands.reports
  rounds := by
    intro i here j
    rw [used]
    exact stands.rounds i (index ▸ here) j

omit [NeZero servers] in
theorem Stands.exit {next : Polls servers R} {later : List (Balancer.Event servers)}
    {nextBalancer : Balancer.State servers Engine} {halt : Halt}
    (stands : state.Stands value past balancer) (exited : next.pc = .exited halt)
    (phase : nextBalancer.phase = .exited halt)
    (asked : ∀ i, (nextBalancer.cpuUsage i).length = (next.cpuUsage i).length)
    (used : next.used = state.used) (reports : Balancer.reports later = Balancer.reports past) :
    next.Stands value later nextBalancer where
  phase := by
    rw [exited]
    exact phase
  inside := by
    intro i impossible
    rw [exited] at impossible
    cases impossible
  asked := asked
  reports := by
    rw [used, reports]
    exact stands.reports
  rounds := by
    intro i here
    rw [exited] at here
    cases here

omit [NeZero servers] in
/-- A complete read is a poll with the report of the triple. -/
theorem Stands.charge [Double R] (stands : state.Stands value past balancer)
    (tracks : Balancer.Tracks past balancer) {i : Fin servers} (atPc : state.pc = .waiting i)
    (usage : Usage R) :
    (state.charge i usage).Stands value (past ++ [.poll (some (usage.report value))])
      (balancer.poll i (some (usage.report value))) := by
  have polling : balancer.phase = .polling i := by
    rw [stands.phase, atPc]
    rfl
  have rounds := stands.rounds i (by rw [atPc]; rfl)
  have filled := tracks.filled i polling
  have sameRounds : Balancer.rounds (past ++ [.poll (some (usage.report value))]) =
      Balancer.rounds past := Balancer.rounds_of_ne past (by simp)
  have length : (state.used i).length = Balancer.rounds past := by
    have before := rounds i
    rwa [if_neg (lt_irrefl _)] at before
  refine ⟨rfl, fun _ impossible => Pc.noConfusion impossible, ?_, ?_, ?_⟩
  · intro j
    have before := stands.asked j
    by_cases this : j = i
    · subst this
      simp [Balancer.State.poll, Polls.charge, before]
    · simp [Balancer.State.poll, Polls.charge, this, before]
  · intro j k charged found
    rw [Balancer.reports_poll]
    change (Function.update state.used i _ j)[k]? = some charged at found
    have kept : (state.used j)[k]? = some charged →
        (Balancer.reports past ++ [usage.report value])[k * servers + j]? =
          some (charged.report value) := by
      intro old
      exact Machine.getElem?_of_grown (List.prefix_append _ _) (stands.reports j k charged old)
    by_cases this : j = i
    · subst this
      rw [Function.update_self] at found
      by_cases old : k < (state.used j).length
      · rw [List.getElem?_append_left old] at found
        exact kept found
      · -- the new triple is the last one, and its report the next one of the round
        have last : k = (state.used j).length := by
          have inside := (List.getElem?_eq_some_iff.mp found).1
          rw [List.length_append, List.length_singleton] at inside
          omega
        rw [last, List.getElem?_concat_length] at found
        cases found
        rw [last, length, ← filled.length]
        exact List.getElem?_concat_length
    · rw [Function.update_of_ne this] at found
      exact kept found
  · intro j here
    cases Option.some.inj here
    rw [sameRounds]
    exact Rounds.charge rounds usage

theorem Stands.setDistribution (stands : state.Stands value past balancer) {index : ℕ}
    (atPc : state.pc = .asking index) (asked : servers ≤ index) :
    Stands value { state with d := state.p }.nextPass (past ++ [.setDistribution])
      balancer.setDistribution.nextPass := by
  have same := stands.asked 0
  have rounds := stands.rounds index (by rw [atPc]; rfl)
  refine ⟨?_, ?_, stands.asked, ?_, ?_⟩
  · simp only [Balancer.State.nextPass, Balancer.State.setDistribution, Polls.nextPass, same]
    split
    · rfl
    · rfl
  · intro i waiting
    simp only [Polls.nextPass] at waiting
    split at waiting
    · cases waiting
    · cases waiting
  · intro j k usage found
    rw [Balancer.reports_setDistribution]
    exact stands.reports j k usage found
  · intro j here
    have first : j = 0 := by
      simp only [Polls.nextPass] at here
      split at here
      · exact (Option.some.inj here).symm
      · exact (Option.some.inj here).symm
    subst first
    intro i
    have before := rounds i
    rw [if_pos (i.isLt.trans_le asked)] at before
    rw [Balancer.rounds_setDistribution]
    change (state.used i).length = _
    simpa using before

omit [NeZero servers] in
theorem Stands.failed {next : Polls servers R} (stands : state.Stands value past balancer)
    (exited : next.pc = .exited (.exit "mon read <> 3*sizeof(double)"))
    (cpuUsage : next.cpuUsage = state.cpuUsage) (used : next.used = state.used)
    (i : Fin servers) :
    next.Stands value (past ++ [.poll none]) (balancer.poll i none) := by
  apply stands.exit exited rfl
  · rw [cpuUsage]
    exact stands.asked
  · exact used
  · rw [Balancer.reports_poll]
    exact List.append_nil _

/-- Every step is one of the balancing model, or one which it does not see. -/
theorem Stands.step [Double R] [Image R Byte] {next : Polls servers R} {engine : Engine}
    {event : Event servers R} (stands : state.Stands value past balancer)
    (ran : run (Balancer.step sample) (Balancer.start engine) past = some balancer)
    (stepped : state.step event = some next) :
    ∃ later nextBalancer,
      run (Balancer.step sample) (Balancer.start engine) later = some nextBalancer ∧
        next.Stands value later nextBalancer := by
  have phase := stands.phase
  have polled : ∀ (i : Fin servers) (answer : Option Balancer.Report),
      state.pc = .waiting i →
        run (Balancer.step sample) (Balancer.start engine) (past ++ [.poll answer]) =
          some (balancer.poll i answer) := by
    intro i answer atPc
    rw [atPc] at phase
    exact run_concat_eq_some.mpr ⟨balancer, ran,
      Balancer.step_poll_eq_some.mpr ⟨i, i.isLt, phase, rfl⟩⟩
  cases move_of_step stepped with
  | server i link moved =>
      exact ⟨past, balancer, ran, stands.of_same rfl rfl stands.inside rfl rfl⟩
  | asks i written atPc =>
      refine ⟨past, balancer, ran, stands.of_same ?_ ?_ ?_ rfl rfl⟩
      · rw [atPc]
        rfl
      · rw [atPc]
        rfl
      · intro j waiting
        cases waiting
        exact i.isLt
  | fails index atPc =>
      have bound := stands.inside index atPc
      refine ⟨_, _, polled ⟨index, bound⟩ none atPc, ?_⟩
      apply stands.failed
      · rfl
      · rfl
      · rfl
  | receives i bytes atPc short arrived =>
      by_cases full : bytes.length = reportLen R
      · rw [Polls.receive, if_pos full]
        refine ⟨_, _, polled i (some
          ((unpack (bytes ++ state.received.drop bytes.length)).report value)) atPc, ?_⟩
        apply Stands.charge
        · exact stands.of_same rfl rfl stands.inside rfl rfl
        · exact Balancer.tracks_of_run ran
        · exact atPc
      · rw [Polls.receive, if_neg full]
        refine ⟨_, _, polled i none atPc, ?_⟩
        apply stands.failed
        · rfl
        · rfl
        · rfl
  | sets index atPc asked =>
      rw [atPc] at phase
      refine ⟨_, _, run_concat_eq_some.mpr ⟨balancer, ran,
        Balancer.step_setDistribution_eq_some.mpr ⟨index, asked, phase, rfl⟩⟩, ?_⟩
      exact stands.setDistribution atPc asked
  | writes atPc =>
      rw [atPc] at phase
      refine ⟨_, _, run_concat_eq_some.mpr ⟨balancer, ran,
        Balancer.step_writeUsage_eq_some.mpr ⟨phase, rfl⟩⟩, ?_⟩
      apply stands.exit
      · rfl
      · rfl
      · exact stands.asked
      · rfl
      · exact Balancer.reports_writeUsage past

end Step

/-- Every run of the servers and the distributor contains one of the balancing model. -/
theorem exists_balancer_of_reachable [NeZero servers] [Double R] [Image R Byte] (value : R → ℚ)
    (sample : (Fin servers → ℚ) → Engine → Fin servers × Engine) (engine : Engine)
    {link : Fin servers → Link R} {state : Polls servers R}
    (reachable : Reachable step (start link) state) :
    ∃ past balancer, run (Balancer.step sample) (Balancer.start engine) past = some balancer ∧
      state.Stands value past balancer := by
  apply reachable.invariant (fun state => ∃ past balancer,
    run (Balancer.step sample) (Balancer.start engine) past = some balancer ∧
      state.Stands value past balancer)
  · rintro state event next ⟨past, balancer, ran, stands⟩ stepped
    exact stands.step ran stepped
  · exact ⟨[], Balancer.start engine, rfl, stands_start engine link⟩

/-- The k-th triples of all servers are the reports of round `k`. -/
theorem Stands.isRound {value : R → ℚ} {state : Polls servers R}
    {past : List (Balancer.Event servers)} {balancer : Balancer.State servers Engine}
    (stands : state.Stands value past balancer) {k : ℕ} {round : Fin servers → Usage R}
    (charged : ∀ i, (state.used i)[k]? = some (round i)) :
    Balancer.IsRound past k fun i => (round i).report value :=
  fun i => stands.reports i k (round i) (charged i)

end Polls

end LoadBalance.Monitor
