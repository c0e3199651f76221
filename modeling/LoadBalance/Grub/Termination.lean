import Mathlib.Logic.Relation
import LoadBalance.Lib.Endless
import LoadBalance.Grub.Alignment

/-!
# The end of the loop over the messages

How far `cur` moves is read from the frame, with signs. A negative step is a count which
`write` refuses, so that the loop is left. If the step is zero, `write` has nothing to do
and returns 0, and the loop goes on where it is.
-/

namespace LoadBalance.Grub

/-- The loop has reached its bound, or it has been left. -/
def Replay.Done (n : ℤ) (replay : Replay) : Prop :=
  n ≤ replay.cur ∨ replay.flow = .again ∨ replay.flow = .exited

/-- Whatever `write` returns, as long as it may for the counts it is given, the loop ends. -/
def Ends (memory : ℤ → Byte) (n : ℤ) : Prop :=
  ∀ rets : ℕ → WriteResult,
    (∀ count replay,
      Machine.run (Replay.step memory n) .start (Machine.firstEvents rets count) = some replay →
        Returns memory replay (rets count)) →
    ∃ count replay,
      Machine.run (Replay.step memory n) .start (Machine.firstEvents rets count) = some replay ∧
        replay.Done n

/-- From the message at one offset to the one behind it, if its decoded length is not
negative. -/
def Hop (memory : ℤ → Byte) (n cur next : ℤ) : Prop :=
  cur < n ∧ cur < next ∧ next = cur + (headerLen + lengthInt memory cur)

/-- A message inside of the frame whose length is decoded as -8. -/
def Stuck (memory : ℤ → Byte) (n cur : ℤ) : Prop :=
  cur < n ∧ memory (cur + 6) = 0x00 ∧ memory (cur + 7) = 0xF8

instance (memory : ℤ → Byte) (n cur : ℤ) : Decidable (Stuck memory n cur) :=
  inferInstanceAs (Decidable (_ ∧ _ ∧ _))

variable {memory : ℤ → Byte} {n : ℤ}

theorem step_eq_none_iff {replay : Replay} (ret : WriteResult) :
    replay.step memory n ret = none ↔ replay.Done n := by
  rw [Replay.step]
  constructor
  · intro refused
    by_contra running
    simp only [Replay.Done, not_or, not_le] at running
    have goesOn : replay.flow = .running := by
      cases flow : replay.flow with
      | running => rfl
      | again => exact absurd flow running.2.1
      | exited => exact absurd flow running.2.2
    rw [if_pos ⟨goesOn, running.1⟩] at refused
    cases ret with
    | count writen => cases refused
    | error errno =>
        simp only at refused
        split at refused
        · cases refused
        · cases refused
  · intro done
    apply if_neg
    rintro ⟨running, inside⟩
    rcases done with atBound | again | exited
    · omega
    · rw [running] at again
      cases again
    · rw [running] at exited
      cases exited

theorem ends_iff_not_endless :
    Ends memory n ↔ ¬Machine.Endless (Replay.step memory n) (Returns memory) .start := by
  constructor
  · rintro ends ⟨states, rets, start, steps⟩
    have ran : ∀ count, Machine.run (Replay.step memory n) .start
        (Machine.firstEvents rets count) = some (states count) := by
      intro count
      rw [← start]
      exact Machine.run_firstEvents (fun index => (steps index).2) count
    have returns : ∀ count replay, Machine.run (Replay.step memory n) .start
        (Machine.firstEvents rets count) = some replay → Returns memory replay (rets count) := by
      intro count replay reached
      rw [ran count, Option.some.injEq] at reached
      exact reached ▸ (steps count).1
    rcases ends rets returns with ⟨count, replay, ended, done⟩
    rw [ran count, Option.some.injEq] at ended
    subst ended
    have refused := (@step_eq_none_iff memory n _ (rets count)).mpr done
    rw [(steps count).2] at refused
    cases refused
  · intro finite rets returns
    by_contra goesOn
    simp only [not_exists, not_and] at goesOn
    apply finite
    apply Machine.endless_of_forall_run returns
    intro count
    induction count with
    | zero => exact ⟨.start, rfl⟩
    | succ count ih =>
        rcases ih with ⟨replay, ran⟩
        have notDone := goesOn count replay ran
        rw [← step_eq_none_iff (rets count), ← ne_eq, Option.ne_none_iff_exists'] at notDone
        rcases notDone with ⟨next, stepped⟩
        rw [Machine.firstEvents_succ]
        exact ⟨next, Machine.run_concat_eq_some.mpr ⟨replay, ran, stepped⟩⟩

/-- A step of length zero: only one pair of signed bytes adds up to -8. -/
theorem step_zero_iff (memory : ℤ → Byte) (cur : ℤ) :
    headerLen + lengthInt memory cur = 0 ↔
      memory (cur + 6) = 0x00 ∧ memory (cur + 7) = 0xF8 := by
  have highLt := (memory (cur + 6)).isLt
  have lowLt := (memory (cur + 7)).isLt
  rw [← BitVec.toNat_inj, ← BitVec.toNat_inj, lengthInt, BitVec.toInt_eq_toNat_cond,
    BitVec.toInt_eq_toNat_cond]
  simp only [headerLen]
  constructor
  · intro zero
    split at zero <;> split at zero <;> simp <;> omega
  · rintro ⟨high, low⟩
    rw [high, low]
    decide

/-- The cursor only moves forward along the messages whose length is not negative. -/
theorem hops_of_step {replay next : Replay} {ret : WriteResult}
    (walked : replay.flow = .running →
      Relation.ReflTransGen (Hop memory n) firstMessage replay.cur)
    (returns : Returns memory replay ret) (stepped : replay.step memory n ret = some next)
    (free : ∀ cur, Relation.ReflTransGen (Hop memory n) firstMessage cur → ¬Stuck memory n cur) :
    next.flow = .running → Hop memory n replay.cur next.cur ∧
      Relation.ReflTransGen (Hop memory n) firstMessage next.cur := by
  intro running
  have possible : replay.flow = .running ∧ replay.cur < n := by
    by_contra impossible
    rw [Replay.step, if_neg impossible] at stepped
    cases stepped
  cases ret with
  | error errno =>
      rw [Replay.step, if_pos possible] at stepped
      by_cases again : errno = .eagain
      · simp only [again, if_true, Option.some.injEq] at stepped
        rw [← stepped] at running
        cases running
      · simp only [again, if_false, Option.some.injEq] at stepped
        rw [← stepped] at running
        cases running
  | count writen =>
      rw [step_count possible.1 possible.2, Option.some.injEq] at stepped
      have offered : (writen : ℤ) ≤ headerLen + lengthInt memory replay.cur := returns
      have moves : headerLen + lengthInt memory replay.cur ≠ 0 := by
        intro zero
        apply free replay.cur (walked possible.1)
        exact ⟨possible.2, (step_zero_iff memory replay.cur).mp zero⟩
      have hop : Hop memory n replay.cur next.cur := by
        rw [← stepped]
        refine ⟨possible.2, ?_, rfl⟩
        simp only
        omega
      exact ⟨hop, (walked possible.1).tail hop⟩

/-- The bytes up to the bound, and one more while the loop is running. -/
def Replay.remaining (n : ℤ) (replay : Replay) : ℕ :=
  if replay.flow = .running then (n - replay.cur).toNat + 1 else 0

theorem not_endless_of_free
    (free : ∀ cur, Relation.ReflTransGen (Hop memory n) firstMessage cur → ¬Stuck memory n cur) :
    ¬Machine.Endless (Replay.step memory n) (Returns memory) .start := by
  apply Machine.not_endless_of_measure
    (fun replay => replay.flow = .running →
      Relation.ReflTransGen (Hop memory n) firstMessage replay.cur) (Replay.remaining n)
  · intro replay ret next walked returns stepped
    have hops := hops_of_step walked returns stepped free
    refine ⟨fun running => (hops running).2, ?_⟩
    have running : replay.flow = .running := by
      by_contra halted
      rw [Replay.step, if_neg (fun possible => halted possible.1)] at stepped
      cases stepped
    rw [Replay.remaining, Replay.remaining, if_pos running]
    by_cases goesOn : next.flow = .running
    · rw [if_pos goesOn]
      have forward := (hops goesOn).1
      have inside := forward.1
      have further := forward.2.1
      omega
    · rw [if_neg goesOn]
      omega
  · intro _
    exact .refl

/-- On the way to a message of length zero, a `write` which takes everything goes on, and
there one which takes nothing does. -/
theorem endless_of_stuck {stuck : ℤ} (isStuck : Stuck memory n stuck)
    (reached : Relation.ReflTransGen (Hop memory n) firstMessage stuck) :
    Machine.Endless (Replay.step memory n) (Returns memory) .start := by
  apply Machine.endless_of_lasting fun replay =>
    replay.flow = .running ∧ Relation.ReflTransGen (Hop memory n) replay.cur stuck
  · rintro replay ⟨running, ahead⟩
    rcases ahead.cases_head with here | ⟨middle, hop, ahead⟩
    · rw [← here] at isStuck
      have zero := (step_zero_iff memory replay.cur).mpr isStuck.2
      refine ⟨.count 0, _, ?_, step_count running isStuck.1 0, rfl, ?_⟩
      · exact zero.ge
      · rw [show replay.cur + (headerLen + lengthInt memory replay.cur) = stuck by omega]
    · rcases hop with ⟨inside, further, rfl⟩
      refine ⟨.count (headerLen + lengthInt memory replay.cur).toNat, _, ?_,
        step_count running inside _, rfl, ahead⟩
      have whole : (((headerLen + lengthInt memory replay.cur).toNat : ℕ) : ℤ) ≤
          headerLen + lengthInt memory replay.cur := by omega
      exact whole
  · exact ⟨rfl, reached⟩

/--
For every content of the memory and every bound, the loop ends whatever `write` returns if
and only if no message inside of the frame which the loop can come to has the length bytes
00 F8.
-/
theorem ends_iff_not_stuck (memory : ℤ → Byte) (n : ℤ) :
    Ends memory n ↔
      ¬∃ cur, Relation.ReflTransGen (Hop memory n) firstMessage cur ∧ Stuck memory n cur := by
  rw [ends_iff_not_endless]
  constructor
  · rintro finite ⟨stuck, reached, isStuck⟩
    exact finite (endless_of_stuck isStuck reached)
  · intro none
    apply not_endless_of_free
    intro cur reached isStuck
    exact none ⟨cur, reached, isStuck⟩

/-- A frame of 62 bytes in which the length of the first message is F8, i.e. 248. -/
theorem not_ends_of_length_248 :
    Accepts (fun offset => if offset = 61 then 0xF8 else sampleFrame 6 5 48 offset) ∧
      ¬Ends (fun offset => if offset = 61 then 0xF8 else sampleFrame 6 5 48 offset) 62 := by
  refine ⟨by decide +kernel, ?_⟩
  rw [ends_iff_not_endless, not_not]
  apply endless_of_stuck _ .refl
  decide +kernel

end LoadBalance.Grub
