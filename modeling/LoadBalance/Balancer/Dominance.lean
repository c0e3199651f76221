import LoadBalance.Balancer.Selection

/-!
# Less loaded servers

The weight of a server falls with each of its usages, and it jumps down to 0 where one of
them reaches the limit. So a server which is less loaded than another one in all respects
never has the smaller weight, on both sides of the jump and across it. What is left of the
100 percent at the limit keeps the weights of the other servers above 5.
-/

namespace LoadBalance.Balancer

open Machine Weights

variable {servers : ℕ} {Engine : Type*}

namespace Report

/-- No usage is greater than the other one. -/
structure AtMost (report other : Report) : Prop where
  cpu : report.cpu ≤ other.cpu
  memory : report.memory ≤ other.memory
  io : report.io ≤ other.io

/-- Besides, one usage is smaller. -/
structure Below (report other : Report) : Prop where
  atMost : report.AtMost other
  smaller : report.cpu < other.cpu ∨ report.memory < other.memory ∨ report.io < other.io

/-- No usage is negative. -/
structure Nonneg (report : Report) : Prop where
  cpu : 0 ≤ report.cpu
  memory : 0 ≤ report.memory
  io : 0 ≤ report.io

variable {report other : Report}

theorem weight_of_not_overloaded (free : ¬report.Overloaded) :
    report.weight = 6 / 10 * (100 - report.cpu) + 3 / 10 * (100 - report.memory) +
      1 / 10 * (100 - report.io) := if_neg free

theorem five_lt_weight (free : ¬report.Overloaded) : 5 < report.weight := by
  rw [weight_of_not_overloaded free]
  simp only [Overloaded, not_or, not_le] at free
  rcases free with ⟨cpu, memory, io⟩
  linarith

theorem weight_eq_zero_iff : report.weight = 0 ↔ report.Overloaded := by
  constructor
  · intro zero
    by_contra free
    exact (weight_pos free).ne' zero
  · exact weight_of_overloaded

theorem weight_le_hundred (nonneg : report.Nonneg) : report.weight ≤ 100 := by
  by_cases overloaded : report.Overloaded
  · rw [weight_of_overloaded overloaded]
    norm_num
  · have cpu := nonneg.cpu
    have memory := nonneg.memory
    have io := nonneg.io
    rw [weight_of_not_overloaded overloaded]
    linarith

theorem AtMost.overloaded (atMost : report.AtMost other) (overloaded : report.Overloaded) :
    other.Overloaded := by
  rcases overloaded with cpu | memory | io
  · exact .inl (cpu.trans atMost.cpu)
  · exact .inr (.inl (memory.trans atMost.memory))
  · exact .inr (.inr (io.trans atMost.io))

theorem AtMost.weight_le (atMost : report.AtMost other) : other.weight ≤ report.weight := by
  by_cases overloaded : other.Overloaded
  · rw [weight_of_overloaded overloaded]
    exact report.weight_nonneg
  · have free : ¬report.Overloaded := fun both => overloaded (atMost.overloaded both)
    have cpu := atMost.cpu
    have memory := atMost.memory
    have io := atMost.io
    rw [weight_of_not_overloaded overloaded, weight_of_not_overloaded free]
    linarith

theorem Below.weight_lt (below : report.Below other) (free : ¬report.Overloaded) :
    other.weight < report.weight := by
  by_cases overloaded : other.Overloaded
  · rw [weight_of_overloaded overloaded]
    exact weight_pos free
  · have cpu := below.atMost.cpu
    have memory := below.atMost.memory
    have io := below.atMost.io
    rw [weight_of_not_overloaded overloaded, weight_of_not_overloaded free]
    rcases below.smaller with smaller | smaller | smaller
    · linarith
    · linarith
    · linarith

end Report

/-- The weights, and the probabilities of the servers with a weight, follow the order of the
usages in a round. -/
structure Dominance (round : Fin servers → Report) (p : Fin servers → ℚ) : Prop where
  ordered : ∀ i j, (round i).AtMost (round j) → p j ≤ p i
  strict : ∀ i j, (round i).Below (round j) → ¬(round i).Overloaded → p j < p i
  zero : ∀ i, p i = 0 ↔ (round i).Overloaded
  above : ∀ i, ¬(round i).Overloaded → 5 < p i
  shares : ∀ i j, 0 < p i → 0 < p j → (round i).AtMost (round j) → share p j ≤ share p i
  strictShares : ∀ i j, 0 < p i → 0 < p j → (round i).Below (round j) → share p j < share p i
  factor : (∀ i, (round i).Nonneg) → ∀ i j, 0 < p i → 0 < p j → share p i < 20 * share p j

theorem dominance_weights (round : Fin servers → Report) :
    Dominance round fun index => (round index).weight := by
  have valid : ∀ i, 0 < (round i).weight → Valid fun index => (round index).weight := by
    intro i positive
    apply (valid_iff_exists_pos fun index => (round index).weight_nonneg).mpr
    exact ⟨i, positive⟩
  constructor
  · intro i j atMost
    exact atMost.weight_le
  · intro i j below free
    exact below.weight_lt free
  · intro i
    exact Report.weight_eq_zero_iff
  · intro i free
    exact Report.five_lt_weight free
  · intro i j positive _ atMost
    rw [(valid i positive).share_le_share_iff]
    exact atMost.weight_le
  · intro i j positive _ below
    rw [(valid i positive).share_lt_share_iff]
    exact below.weight_lt (Report.weight_pos_iff.mp positive)
  · intro nonneg i j positive positiveOther
    rw [(valid i positive).share_lt_mul_share_iff]
    have bound := Report.weight_le_hundred (nonneg i)
    have above := Report.five_lt_weight (Report.weight_pos_iff.mp positiveOther)
    linarith

/-- A run which has completed a round has a last one. -/
theorem Current.exists_isLastRound {events : List (Event servers)} {weights : Fin servers → ℚ}
    (current : Current events weights) (completed : 0 < rounds events) :
    ∃ round, IsLastRound events round ∧ weights = fun index => (round index).weight := by
  rcases current with ⟨none, _⟩ | last
  · omega
  · exact last

/--
When a round of any number of servers is completed, `p` and the distribution hold the
weights of its reports, and they follow the order of the usages. So does every later draw
until the next round is completed.
-/
theorem dominance_of_run [NeZero servers]
    {sample : (Fin servers → ℚ) → Engine → Fin servers × Engine} {engine : Engine}
    {events : List (Event servers)} {final : State servers Engine}
    (ran : run (step sample) (start engine) events = some final)
    (completed : 0 < rounds events) :
    (∃ round, IsLastRound events round ∧ Dominance round final.d) ∧
      ∀ past, events = past ++ [.setDistribution] → final.p = final.d := by
  constructor
  · rcases (tracks_of_run ran).current.exists_isLastRound completed with ⟨round, isLast, weights⟩
    rw [weights]
    exact ⟨round, isLast, dominance_weights round⟩
  · rintro past rfl
    rcases run_concat_eq_some.mp ran with ⟨middle, _, stepped⟩
    rcases step_setDistribution_eq_some.mp stepped with ⟨_, _, _, rfl⟩
    rfl

theorem dominance_of_run_halfLoaded :
    ∃ final, run (step weightedSample) (start 1) halfLoaded = some final ∧
      ∃ round, IsLastRound halfLoaded round ∧ Dominance round final.d := by
  rcases exists_run_of_any (show (run (step weightedSample) (start 1) halfLoaded).any
      (fun _ => true) = true by decide +kernel) with ⟨final, ran, _⟩
  exact ⟨final, ran, (dominance_of_run ran (by decide +kernel)).1⟩

end LoadBalance.Balancer
