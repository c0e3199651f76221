import Mathlib.Algebra.Order.Field.Basic
import Mathlib.Tactic.Positivity
import LoadBalance.Balancer.Rounds
import LoadBalance.Lib.WeightedChoice

/-!
# Selecting a server

What the service thread draws from. Every selection uses the weights of one completed
round, whatever the main thread has stored in `p` since; so a server which was
overloaded in that round is not selected while another one was not. Where all servers
are overloaded in one round, `set_distribution` passes on weights which define no
distribution at all, and this is the only case in which it does.
-/

universe u

namespace LoadBalance.Balancer

open Machine Weights

variable {servers : ℕ} {Engine : Type u}

/-- What `std::discrete_distribution` promises on weights which define a distribution. -/
def NeverZero (sample : (Fin servers → ℚ) → Engine → Fin servers × Engine) : Prop :=
  ∀ {weights}, Valid weights → ∀ engine, weights (sample weights engine).1 ≠ 0

section Sample

/-- The default engine: a multiplicative generator modulo a prime. -/
def nextRandom (engine : ℕ) : ℕ := 16807 * engine % 2147483647

/-- A draw in proportion to the weights, with a number from the default engine. -/
def weightedSample [NeZero servers] (weights : Fin servers → ℚ) (engine : ℕ) :
    Fin servers × ℕ :=
  let ticket : ℚ := ((nextRandom engine - 1 : ℕ) : ℚ) / 2147483646
  (choose weights (ticket * ∑ index, weights index), nextRandom engine)

theorem neverZero_weightedSample [NeZero servers] :
    NeverZero (@weightedSample servers _) := by
  intro weights valid engine
  have below : nextRandom engine - 1 < 2147483646 := by
    have := Nat.mod_lt (16807 * engine) (show 0 < 2147483647 by decide)
    simp only [nextRandom]
    omega
  refine (choose_pos (mul_nonneg (by positivity) valid.sum_pos.le) ?_).ne'
  apply mul_lt_of_lt_one_left valid.sum_pos
  rw [div_lt_one (by norm_num)]
  exact_mod_cast below

end Sample

section Weights

theorem valid_weights_iff {round : Fin servers → Report} :
    Valid (fun index => (round index).weight) ↔ ∃ index, ¬(round index).Overloaded := by
  rw [valid_iff_exists_pos fun index => (round index).weight_nonneg]
  exact exists_congr fun index => Report.weight_pos_iff

theorem valid_uniform [NeZero servers] : Valid (uniform servers) := by
  have pos : (0 : ℚ) < 100 / servers :=
    div_pos (by norm_num) (Nat.cast_pos.mpr (NeZero.pos servers))
  exact (valid_iff_exists_pos fun _ => pos.le).mpr ⟨0, pos⟩

end Weights

section Room

/-- In round `k` some server reported all three usages below the limit. -/
def HasRoom (events : List (Event servers)) (k : ℕ) : Prop :=
  ∃ index : Fin servers, ∃ report,
    (reports events)[k * servers + index]? = some report ∧ ¬report.Overloaded

theorem IsRound.hasRoom_iff {events : List (Event servers)} {k : ℕ}
    {round : Fin servers → Report} (isRound : IsRound events k round) :
    HasRoom events k ↔ ∃ index, ¬(round index).Overloaded := by
  apply exists_congr
  intro index
  simp [isRound index]

/-- A completed round is not changed by what follows. -/
theorem hasRoom_append_iff {past : List (Event servers)} {k : ℕ} (event : Event servers)
    (complete : rounds past * servers ≤ (reports past).length) (earlier : k < rounds past) :
    HasRoom (past ++ [event]) k ↔ HasRoom past k := by
  apply exists_congr
  intro index
  have inside : k * servers + index < (reports past).length := by
    calc k * servers + index < (k + 1) * servers := by
          rw [Nat.succ_mul]
          exact Nat.add_lt_add_left index.isLt _
      _ ≤ rounds past * servers := Nat.mul_le_mul_right _ earlier
      _ ≤ (reports past).length := complete
  rcases reports_isPrefix_append past event with ⟨rest, grown⟩
  rw [← grown, List.getElem?_append_left inside]

end Room

variable [NeZero servers] {sample : (Fin servers → ℚ) → Engine → Fin servers × Engine}

/--
Every selection of a run draws from the weights of the last round which the run has
completed before it. No server which was overloaded in that round is selected if
another server was not.
-/
theorem select_draws_from_current {engine : Engine} {before after : List (Event servers)}
    {index : Fin servers} {final : State servers Engine}
    (ran : run (step sample) (start engine) (before ++ .select index :: after) = some final) :
    (∃ state weights, run (step sample) (start engine) before = some state ∧
      Current before weights ∧ (sample weights state.e).1 = index) ∧
    (NeverZero sample → ∀ round, IsLastRound before round →
      (∃ other, ¬(round other).Overloaded) → ¬(round index).Overloaded) := by
  rw [run_append, Option.bind_eq_some_iff] at ran
  rcases ran with ⟨state, ranBefore, ranAfter⟩
  rcases run_cons_eq_some.mp ranAfter with ⟨next, stepped, -⟩
  rcases step_select_eq_some.mp stepped with ⟨-, drawn, -⟩
  have current : Current before state.d := (tracks_of_run ranBefore).current
  refine ⟨⟨state, state.d, ranBefore, current, drawn⟩, ?_⟩
  intro neverZero round isLast free
  have installed : state.d = fun index => (round index).weight := by
    rcases current with ⟨zero, -⟩ | ⟨round', isLast', installed⟩
    · rcases isLast with ⟨k, count, -⟩
      omega
    · rw [installed, isLast'.unique isLast]
  rw [installed] at drawn
  have nonzero := neverZero (valid_weights_iff.mpr free) state.e
  rw [drawn] at nonzero
  intro overloaded
  exact nonzero (Report.weight_of_overloaded overloaded)

/-- A round of two servers, the first of them overloaded. -/
def halfLoaded : List (Event 2) :=
  [.poll (some ⟨97, 40, 10⟩), .poll (some ⟨50, 40, 10⟩), .setDistribution,
    .poll (some ⟨20, 30, 10⟩)]

def halfRound : Fin 2 → Report := ![⟨97, 40, 10⟩, ⟨50, 40, 10⟩]

/-- The run goes on with a selection, which draws the second server. -/
theorem select_draws_from_current_halfLoaded :
    (∃ final, run (step weightedSample) (start 1) (halfLoaded ++ [.select 1, .select 1]) =
        some final) ∧
      (∃ state weights, run (step weightedSample) (start 1) halfLoaded = some state ∧
        Current halfLoaded weights ∧ (weightedSample weights state.e).1 = 1) ∧
      IsLastRound halfLoaded halfRound ∧ ¬(halfRound 1).Overloaded := by
  have isLast : IsLastRound halfLoaded halfRound :=
    ⟨0, by decide +kernel, Fin.forall_fin_two.mpr ⟨rfl, rfl⟩⟩
  have possible : (run (step weightedSample) (start 1) (halfLoaded ++ [.select 1, .select 1])).any
      (fun _ => true) = true := by
    decide +kernel
  rcases exists_run_of_any possible with ⟨final, ran, -⟩
  have drawn := select_draws_from_current ran
  exact ⟨⟨final, ran⟩, drawn.1, isLast, drawn.2 neverZero_weightedSample halfRound isLast
    ⟨1, by decide⟩⟩

/-- The weights which a step hands to `d` or draws from define a distribution. -/
def WellDefined (state : State servers Engine) : Event servers → Prop
  | .setDistribution => Valid state.p
  | .select _ => Valid state.d
  | .poll _ | .writeUsage => True

theorem Current.valid {past : List (Event servers)} {weights : Fin servers → ℚ}
    (current : Current past weights) (room : ∀ k < rounds past, HasRoom past k) :
    Valid weights := by
  rcases current with ⟨-, rfl⟩ | ⟨round, ⟨k, count, isRound⟩, rfl⟩
  · exact valid_uniform
  · exact valid_weights_iff.mpr (isRound.hasRoom_iff.mp (room k (by omega)))

theorem Tracks.wellDefined_iff {past : List (Event servers)} {state next : State servers Engine}
    {event : Event servers} (tracks : Tracks past state)
    (stepped : Balancer.step sample state event = some next)
    (room : ∀ k < rounds past, HasRoom past k) :
    WellDefined state event ↔ ∀ k < rounds (past ++ [event]), HasRoom (past ++ [event]) k := by
  have kept : ∀ k < rounds past, HasRoom (past ++ [event]) k := fun k earlier =>
    (hasRoom_append_iff event tracks.complete earlier).mpr (room k earlier)
  have unchanged : event ≠ .setDistribution →
      ∀ k < rounds (past ++ [event]), HasRoom (past ++ [event]) k := by
    intro other
    rw [rounds_of_ne past other]
    exact kept
  cases event with
  | poll answer => exact iff_of_true trivial (unchanged (by simp))
  | writeUsage => exact iff_of_true trivial (unchanged (by simp))
  | select index => exact iff_of_true (tracks.current.valid room) (unchanged (by simp))
  | setDistribution =>
      rcases step_setDistribution_eq_some.mp stepped with ⟨i, asked, polling, -⟩
      have filled := tracks.filled i polling
      obtain rfl : i = servers := filled.bound.antisymm asked
      rcases filled.isRound with ⟨round, isRound, weights⟩
      have last := isRound.append .setDistribution
      rw [WellDefined, weights, valid_weights_iff, ← last.hasRoom_iff, rounds_setDistribution]
      constructor
      · intro lastRoom k within
        rcases Nat.lt_succ_iff_lt_or_eq.mp within with earlier | rfl
        · exact kept k earlier
        · exact lastRoom
      · exact fun all => all (rounds past) (Nat.lt_succ_self _)

/--
The distribution is defined by its weights, whenever it is rebuilt and whenever it is
drawn from, in just those runs all of whose completed rounds have a server with room.
-/
theorem wellDefined_iff_hasRoom {engine : Engine} {events : List (Event servers)}
    {final : State servers Engine}
    (ran : run (step sample) (start engine) events = some final) :
    (Valid (globals engine : State servers Engine).p ∧
      RunsUnder (step sample) WellDefined (start engine) events final) ↔
    ∀ k < rounds events, HasRoom events k := by
  induction events using List.reverseRecOn generalizing final with
  | nil =>
      simp only [run_nil, Option.some.injEq] at ran
      subst ran
      exact iff_of_true ⟨valid_uniform, .nil _⟩ (fun k none => absurd none (by simp [rounds]))
  | append_singleton past event ih =>
      rcases run_concat_eq_some.mp ran with ⟨middle, ranBefore, stepped⟩
      have tracks := tracks_of_run ranBefore
      constructor
      · rintro ⟨initially, guarded⟩
        rcases RunsUnder.concat_iff.mp guarded with ⟨middle', guardedBefore, defined, -⟩
        obtain rfl : middle = middle' :=
          Option.some.inj (ranBefore.symm.trans guardedBefore.run)
        have room := (ih ranBefore).mp ⟨initially, guardedBefore⟩
        exact (tracks.wellDefined_iff stepped room).mp defined
      · intro room
        have roomBefore : ∀ k < rounds past, HasRoom past k := fun k earlier =>
          (hasRoom_append_iff event tracks.complete earlier).mp
            (room k (earlier.trans_le (rounds_le_append past event)))
        rcases (ih ranBefore).mpr roomBefore with ⟨initially, guardedBefore⟩
        refine ⟨initially, RunsUnder.concat_iff.mpr ⟨middle, guardedBefore, ?_, stepped⟩⟩
        exact (tracks.wellDefined_iff stepped roomBefore).mpr room

theorem wellDefined_iff_hasRoom_halfLoaded :
    ∃ final, RunsUnder (step weightedSample) WellDefined (start 1) halfLoaded final := by
  have possible : (run (step weightedSample) (start 1) halfLoaded).any
      (fun _ => true) = true := by
    decide +kernel
  have room : ∀ k < rounds halfLoaded, HasRoom halfLoaded k := by
    intro k within
    obtain rfl : k = 0 := Nat.lt_one_iff.mp within
    exact ⟨1, ⟨50, 40, 10⟩, rfl, by decide⟩
  rcases exists_run_of_any possible with ⟨final, ran, -⟩
  exact ⟨final, ((wellDefined_iff_hasRoom ran).mpr room).2⟩

def fullLoad : List (Event 4) :=
  List.replicate 4 (.poll (some ⟨100, 80, 60⟩)) ++ [.setDistribution]

theorem not_wellDefined_of_fullLoad :
    ∃ final, run (step weightedSample) (start 1) fullLoad = some final ∧
      ¬RunsUnder (step weightedSample) WellDefined (start 1) fullLoad final := by
  have possible : (run (step weightedSample) (start 1) fullLoad).any
      (fun _ => true) = true := by
    decide +kernel
  have vanish : (run (step weightedSample) (start 1)
      (List.replicate 4 (.poll (some ⟨100, 80, 60⟩) : Event 4))).any
      (fun state => decide (¬Valid state.p)) = true := by
    decide +kernel
  rcases exists_run_of_any possible with ⟨final, ran, -⟩
  rcases exists_run_of_any vanish with ⟨middle, ranBefore, shown⟩
  refine ⟨final, ran, ?_⟩
  intro guarded
  rcases RunsUnder.concat_iff.mp guarded with ⟨middle', guardedBefore, defined, -⟩
  obtain rfl : middle = middle' := Option.some.inj (ranBefore.symm.trans guardedBefore.run)
  exact of_decide_eq_true shown defined

end LoadBalance.Balancer
