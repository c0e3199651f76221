import Mathlib.Algebra.Order.BigOperators.Group.Finset
import Mathlib.Algebra.Order.Ring.Nat
import Mathlib.Data.Fintype.BigOperators
import Mathlib.Data.Nat.Choose.Basic
import LoadBalance.Lib.Endless
import LoadBalance.Lib.Family

/-!
# The experiment with `EPOLLEXCLUSIVE`

Some threads wait for one counter (`eventfd`), each with an epoll instance of its own, and
`main` writes into the counter. With `EPOLLEXCLUSIVE`, a write wakes one or more of the
threads, but not all of them, and a thread which is woken reads until the counter is 0. A
call of `epoll_wait` which a signal interrupts changes nothing and is left out.
-/

namespace LoadBalance.EventFd

/-- Where a thread is: in front of `epoll_ctl`, in `epoll_wait`, or in the loop of `read`s. -/
inductive Pc where
  | starting
  | waiting
  | reading
deriving DecidableEq, Repr

structure Thread where
  pc : Pc
  /-- The counter is on the ready list of the thread's epoll instance. -/
  ready : Bool
deriving DecidableEq, Repr

/-- What a thread prints. -/
inductive Line where
  /-- There is an event. -/
  | event
  | read (a : ℕ)
  /-- `read` has returned -1. -/
  | failed
deriving DecidableEq, Repr

structure Experiment (threads : ℕ) where
  counter : ℕ
  thread : Fin threads → Thread
  /-- The variable of the loop in `main`. -/
  i : ℕ
  output : List (Fin threads × Line)

inductive Event (threads : ℕ) where
  | add (thread : Fin threads)
  /-- `epoll_wait` looks through its ready list. -/
  | wait (thread : Fin threads)
  | read (thread : Fin threads)
  /-- A `write` of `main`, with the threads which it wakes. -/
  | write (woken : Fin threads → Bool)

/-- The largest value of the counter, for which a `write` of more fails with `EAGAIN`. -/
def counterMax : ℕ := 2 ^ 64 - 2

def passes : ℕ := 1000

namespace Experiment

variable {threads : ℕ} {experiment next : Experiment threads}

/-- The threads are created, and `main` is in front of its loop. -/
def start (threads : ℕ) : Experiment threads where
  counter := 10
  thread _ := ⟨.starting, false⟩
  i := 0
  output := []

def setThread (experiment : Experiment threads) (index : Fin threads) (thread : Thread) :
    Experiment threads :=
  { experiment with thread := Function.update experiment.thread index thread }

def print (experiment : Experiment threads) (index : Fin threads) (line : Line) :
    Experiment threads :=
  { experiment with output := experiment.output ++ [(index, line)] }

def Registered (experiment : Experiment threads) (index : Fin threads) : Prop :=
  (experiment.thread index).pc ≠ .starting

instance (experiment : Experiment threads) (index : Fin threads) :
    Decidable (experiment.Registered index) :=
  inferInstanceAs (Decidable (¬_))

/-- One or more of the threads which have registered, if there are any. -/
def Wakes (experiment : Experiment threads) (woken : Fin threads → Bool) : Prop :=
  (∀ index, woken index = true → experiment.Registered index) ∧
    ((∃ index, experiment.Registered index) → ∃ index, woken index = true)

instance (experiment : Experiment threads) (woken : Fin threads → Bool) :
    Decidable (experiment.Wakes woken) :=
  inferInstanceAs (Decidable (_ ∧ _))

def wake (experiment : Experiment threads) (woken : Fin threads → Bool) : Experiment threads :=
  { experiment with
    thread := fun index =>
      if woken index then { experiment.thread index with ready := true }
      else experiment.thread index }

def step (experiment : Experiment threads) : Event threads → Option (Experiment threads)
  | .add index =>
      if (experiment.thread index).pc = .starting then
        some (experiment.setThread index ⟨.waiting, decide (0 < experiment.counter)⟩)
      else none
  | .wait index =>
      if experiment.thread index = ⟨.waiting, true⟩ then
        -- the event is only reported if it is still there, and then it stays on the list
        if 0 < experiment.counter then
          some ((experiment.setThread index ⟨.reading, true⟩).print index .event)
        else some (experiment.setThread index ⟨.waiting, false⟩)
      else none
  | .read index =>
      if (experiment.thread index).pc = .reading then
        if 0 < experiment.counter then
          some ({ experiment with counter := 0 }.print index (.read experiment.counter))
        else
          some ((experiment.setThread index
            { experiment.thread index with pc := .waiting }).print index .failed)
      else none
  | .write woken =>
      if experiment.i < passes ∧ experiment.Wakes woken then
        if experiment.counter + experiment.i ≤ counterMax then
          some { experiment.wake woken with
            counter := experiment.counter + experiment.i
            i := experiment.i + 1 }
        else some { experiment with i := experiment.i + 1 }
      else none

/-- The values which have been read. -/
def values (output : List (Fin threads × Line)) : List ℕ :=
  output.filterMap fun line =>
    match line.2 with
    | .read a => some a
    | .event | .failed => none

/-- What a step does. -/
inductive Moves (experiment : Experiment threads) : Experiment threads → Prop where
  | adds (index : Fin threads) (starting : (experiment.thread index).pc = .starting) :
      Moves experiment (experiment.setThread index ⟨.waiting, decide (0 < experiment.counter)⟩)
  | reports (index : Fin threads) (woken : experiment.thread index = ⟨.waiting, true⟩)
      (more : 0 < experiment.counter) :
      Moves experiment ((experiment.setThread index ⟨.reading, true⟩).print index .event)
  | drops (index : Fin threads) (woken : experiment.thread index = ⟨.waiting, true⟩)
      (zero : experiment.counter = 0) :
      Moves experiment (experiment.setThread index ⟨.waiting, false⟩)
  | reads (index : Fin threads) (reading : (experiment.thread index).pc = .reading)
      (more : 0 < experiment.counter) :
      Moves experiment ({ experiment with counter := 0 }.print index (.read experiment.counter))
  | leaves (index : Fin threads) (reading : (experiment.thread index).pc = .reading)
      (zero : experiment.counter = 0) :
      Moves experiment ((experiment.setThread index
        { experiment.thread index with pc := .waiting }).print index .failed)
  | writes (woken : Fin threads → Bool) (inLoop : experiment.i < passes)
      (wakes : experiment.Wakes woken)
      (room : experiment.counter + experiment.i ≤ counterMax) :
      Moves experiment { experiment.wake woken with
        counter := experiment.counter + experiment.i
        i := experiment.i + 1 }
  | fails (inLoop : experiment.i < passes)
      (full : counterMax < experiment.counter + experiment.i) :
      Moves experiment { experiment with i := experiment.i + 1 }

theorem moves_of_step {event : Event threads} (stepped : experiment.step event = some next) :
    Moves experiment next := by
  cases event with
  | add index =>
      rcases Option.ite_some_none_eq_some.mp stepped with ⟨starting, rfl⟩
      exact .adds index starting
  | wait index =>
      rw [step] at stepped
      split at stepped
      · rename_i woken
        split at stepped
        · rename_i more
          cases stepped
          exact .reports index woken more
        · rename_i zero
          cases stepped
          exact .drops index woken (Nat.eq_zero_of_not_pos zero)
      · cases stepped
  | read index =>
      rw [step] at stepped
      split at stepped
      · rename_i reading
        split at stepped
        · rename_i more
          cases stepped
          exact .reads index reading more
        · rename_i zero
          cases stepped
          exact .leaves index reading (Nat.eq_zero_of_not_pos zero)
      · cases stepped
  | write woken =>
      rw [step] at stepped
      split at stepped
      · rename_i begins
        split at stepped
        · rename_i room
          cases stepped
          exact .writes woken begins.1 begins.2 room
        · rename_i full
          cases stepped
          exact .fails begins.1 (Nat.lt_of_not_le full)
      · cases stepped

/-- The account of the counter, and that a counter which is not 0 is known to some thread. -/
structure Sound (experiment : Experiment threads) : Prop where
  inLoop : experiment.i ≤ passes
  account : (values experiment.output).sum + experiment.counter =
    10 + experiment.i * (experiment.i - 1) / 2
  positive : ∀ value ∈ values experiment.output, 0 < value
  count : (values experiment.output).length ≤ experiment.i + 1
  further : 0 < experiment.counter → (values experiment.output).length ≤ experiment.i
  awake : 0 < experiment.counter → (∃ index, experiment.Registered index) →
    ∃ index, (experiment.thread index).pc = .reading ∨
      experiment.thread index = ⟨.waiting, true⟩

section Values

variable (output : List (Fin threads × Line)) (index : Fin threads)

@[simp]
theorem values_read (a : ℕ) : values (output ++ [(index, .read a)]) = values output ++ [a] := by
  simp [values]

@[simp]
theorem values_event : values (output ++ [(index, .event)]) = values output := by
  simp [values]

@[simp]
theorem values_failed : values (output ++ [(index, .failed)]) = values output := by
  simp [values]

end Values

theorem sound_start : (start threads).Sound where
  inLoop := Nat.zero_le _
  account := by simp [start, values]
  positive := by simp [start, values]
  count := Nat.zero_le _
  further := fun _ => Nat.zero_le _
  awake := fun _ registered => absurd rfl registered.choose_spec

/-- The counter has room for every value which `main` writes. -/
theorem Sound.room (sound : experiment.Sound) (inLoop : experiment.i < passes) :
    experiment.counter + experiment.i ≤ counterMax := by
  have account := sound.account
  have triangle : experiment.i * (experiment.i - 1) ≤ 1000 * 1000 :=
    Nat.mul_le_mul inLoop.le ((Nat.sub_le _ _).trans inLoop.le)
  simp only [passes] at inLoop
  simp only [counterMax]
  omega

theorem Sound.moves (sound : experiment.Sound) (moves : Moves experiment next) : next.Sound := by
  cases moves with
  | adds index starting =>
      refine { sound with awake := ?_ }
      intro more _
      exact ⟨index, .inr (by simp [setThread, show 0 < experiment.counter from more])⟩
  | reports index woken more =>
      refine ⟨sound.inLoop, ?_, ?_, ?_, ?_, ?_⟩
      · simpa [print, setThread] using sound.account
      · simpa [print, setThread] using sound.positive
      · simpa [print, setThread] using sound.count
      · simpa [print, setThread] using sound.further
      · intro _ _
        exact ⟨index, .inl (by simp [print, setThread])⟩
  | drops index woken zero =>
      refine { sound with awake := ?_ }
      intro more
      exact absurd more (zero ▸ Nat.lt_irrefl 0)
  | reads index reading more =>
      refine ⟨sound.inLoop, ?_, ?_, ?_, ?_, ?_⟩
      · simpa [print] using sound.account
      · simp only [print, values_read, List.forall_mem_append, List.forall_mem_singleton]
        exact ⟨sound.positive, more⟩
      · simpa [print] using sound.further more
      · intro positive
        exact absurd positive (Nat.lt_irrefl 0)
      · intro positive
        exact absurd positive (Nat.lt_irrefl 0)
  | leaves index reading zero =>
      refine ⟨sound.inLoop, ?_, ?_, ?_, ?_, ?_⟩
      · simpa [print, setThread] using sound.account
      · simpa [print, setThread] using sound.positive
      · simpa [print, setThread] using sound.count
      · simpa [print, setThread] using sound.further
      · intro more
        exact absurd more (zero ▸ Nat.lt_irrefl 0)
  | writes woken inLoop wakes room =>
      have account := sound.account
      refine ⟨inLoop, ?_, sound.positive, sound.count.trans (Nat.le_succ _), fun _ => sound.count,
        ?_⟩
      · have triangle := Nat.triangle_succ experiment.i
        simp only [wake]
        omega
      · rintro _ ⟨index, registered⟩
        have before : experiment.Registered index := by
          simp only [Registered, wake] at registered
          split at registered
          · exact registered
          · exact registered
        rcases wakes.2 ⟨index, before⟩ with ⟨first, firstWoken⟩
        have isRegistered := wakes.1 first firstWoken
        refine ⟨first, ?_⟩
        simp only [wake, if_pos firstWoken]
        cases pc : (experiment.thread first).pc with
        | starting => exact absurd pc isRegistered
        | waiting => exact .inr rfl
        | reading => exact .inl rfl
  | fails inLoop full => exact absurd (sound.room inLoop) (Nat.not_le_of_lt full)

theorem sound_of_reachable (reachable : Machine.Reachable step (start threads) experiment) :
    experiment.Sound :=
  reachable.invariant Sound (fun sound stepped => sound.moves (moves_of_step stepped)) sound_start

/-- In every order of the steps, what has been read and what the counter still holds is what
`main` has written, together with the initial value. No value is read which is 0, and there
are no more values than `write`s and the initial value. -/
theorem read_once (reachable : Machine.Reachable step (start threads) experiment) :
    (values experiment.output).sum + experiment.counter =
        10 + experiment.i * (experiment.i - 1) / 2 ∧
      (values experiment.output).length ≤ experiment.i + 1 ∧
      ∀ value ∈ values experiment.output, 0 < value := by
  have sound := sound_of_reachable reachable
  exact ⟨sound.account, sound.count, sound.positive⟩

/-- The second thread is woken in vain. -/
def sampleEvents : List (Event 2) :=
  let first : Fin 2 := ⟨0, Nat.zero_lt_two⟩
  let second : Fin 2 := Fin.last 1
  [.add first, .wait first, .add second, .wait second, .read first, .read second,
    .write (· = second), .write (· = second), .wait second, .read second]

theorem read_once_sampleEvents :
    ∃ experiment : Experiment 2, values experiment.output = [10, 1] ∧
      (values experiment.output).sum + experiment.counter =
        10 + experiment.i * (experiment.i - 1) / 2 := by
  rcases Machine.exists_reachable_of_any sampleEvents
    (show (Machine.run step (start 2) sampleEvents).any
      (fun experiment => values experiment.output = [10, 1]) = true by decide +kernel)
    with ⟨experiment, reachable, shown⟩
  exact ⟨experiment, of_decide_eq_true shown, (read_once reachable).1⟩

/-- The steps which a thread can take until the next `write`. -/
def weight (counter : ℕ) (thread : Thread) : ℕ :=
  match thread.pc with
  | .starting => if 0 < counter then 2 else 3
  | .waiting => if 0 < counter then 1 else if thread.ready then 1 else 0
  | .reading => if 0 < counter then 0 else 2

/-- How often the counter can still become 0 or more than 0. -/
def episodes (experiment : Experiment threads) : ℕ :=
  2 * (passes - experiment.i) + if 0 < experiment.counter then 1 else 0

/-- A bound for the steps which are left. -/
def remaining (experiment : Experiment threads) : ℕ :=
  experiment.episodes * (3 * threads + 1) +
    ∑ index, weight experiment.counter (experiment.thread index)

theorem weight_le (counter : ℕ) (thread : Thread) : weight counter thread ≤ 3 := by
  unfold weight
  split
  all_goals split_ifs
  all_goals decide

theorem sum_weight_le (counter : ℕ) (thread : Fin threads → Thread) :
    ∑ index, weight counter (thread index) ≤ 3 * threads := by
  calc ∑ index, weight counter (thread index) ≤ ∑ _ : Fin threads, 3 :=
        Finset.sum_le_sum fun index _ => weight_le counter (thread index)
    _ = 3 * threads := by
        rw [Finset.sum_const_nat fun _ _ => rfl, Finset.card_univ, Fintype.card_fin, Nat.mul_comm]

@[simp]
theorem remaining_print (index : Fin threads) (line : Line) :
    (experiment.print index line).remaining = experiment.remaining := rfl

/-- The counter stays as it is, and a thread goes on. -/
theorem remaining_setThread {index : Fin threads} {thread : Thread}
    (less : weight experiment.counter thread <
      weight experiment.counter (experiment.thread index)) :
    (experiment.setThread index thread).remaining < experiment.remaining := by
  have sums := Family.sum_update_add (weight experiment.counter) experiment.thread index thread
  have same : (experiment.setThread index thread).episodes = experiment.episodes := rfl
  rw [remaining, remaining, same]
  apply Nat.add_lt_add_left
  simp only [setThread]
  omega

/-- Whatever the threads do anew counts less than an episode. -/
theorem remaining_of_episodes (less : next.episodes < experiment.episodes) :
    next.remaining < experiment.remaining := by
  have bound := sum_weight_le next.counter next.thread
  calc next.remaining < (next.episodes + 1) * (3 * threads + 1) := by
        rw [remaining, Nat.add_mul, Nat.one_mul]
        omega
    _ ≤ experiment.episodes * (3 * threads + 1) := Nat.mul_le_mul_right _ less
    _ ≤ experiment.remaining := Nat.le_add_right _ _

theorem Moves.remaining_lt (moves : Moves experiment next) :
    next.remaining < experiment.remaining := by
  cases moves with
  | adds index starting =>
      apply remaining_setThread
      by_cases more : 0 < experiment.counter
      · simp [weight, starting, more]
      · simp [weight, starting, more]
  | reports index woken more =>
      rw [remaining_print]
      apply remaining_setThread
      simp [weight, woken, more]
  | drops index woken zero =>
      apply remaining_setThread
      simp [weight, woken, zero]
  | reads index reading more =>
      apply remaining_of_episodes
      simp only [episodes, print, if_pos more]
      exact Nat.lt_succ_self _
  | leaves index reading zero =>
      rw [remaining_print]
      apply remaining_setThread
      simp only [weight, reading, zero, if_neg (Nat.lt_irrefl 0)]
      split
      · exact Nat.one_lt_two
      · exact Nat.zero_lt_two
  | writes woken inLoop wakes room =>
      apply remaining_of_episodes
      simp only [episodes]
      split
      all_goals omega
  | fails inLoop full =>
      apply remaining_of_episodes
      simp only [episodes]
      omega

/-- Nobody has a step left. -/
def Done (experiment : Experiment threads) : Prop :=
  experiment.i = passes ∧ experiment.counter = 0 ∧
    ∀ index, experiment.thread index = ⟨.waiting, false⟩

theorem Sound.done (sound : experiment.Sound) (someThread : 0 < threads)
    (noStep : ∀ event, experiment.step event = none) : experiment.Done := by
  have registered : ∀ index, experiment.Registered index := by
    intro index starting
    have stuck := noStep (.add index)
    rw [step, if_pos starting] at stuck
    cases stuck
  have waiting : ∀ index, (experiment.thread index).pc = .waiting := by
    intro index
    have stuck := noStep (.read index)
    rw [step] at stuck
    cases pc : (experiment.thread index).pc with
    | starting => exact absurd pc (registered index)
    | waiting => rfl
    | reading =>
        rw [if_pos pc] at stuck
        split at stuck
        · cases stuck
        · cases stuck
  have asleep : ∀ index, experiment.thread index ≠ ⟨.waiting, true⟩ := by
    intro index woken
    have stuck := noStep (.wait index)
    rw [step, if_pos woken] at stuck
    split at stuck
    · cases stuck
    · cases stuck
  refine ⟨?_, ?_, ?_⟩
  · by_contra more
    have inLoop : experiment.i < passes := lt_of_le_of_ne sound.inLoop more
    have wakes : experiment.Wakes fun _ => true :=
      ⟨fun index _ => registered index, fun _ => ⟨⟨0, someThread⟩, rfl⟩⟩
    have stuck := noStep (.write fun _ => true)
    rw [step, if_pos ⟨inLoop, wakes⟩, if_pos (sound.room inLoop)] at stuck
    cases stuck
  · by_contra more
    rcases sound.awake (Nat.pos_of_ne_zero more) ⟨⟨0, someThread⟩, registered _⟩ with
      ⟨index, reading | woken⟩
    · rw [waiting index] at reading
      cases reading
    · exact asleep index woken
  · intro index
    have pc := waiting index
    have notReady := asleep index
    rcases thread : experiment.thread index with ⟨_, ready⟩
    rw [thread] at pc notReady
    cases pc
    cases ready with
    | false => rfl
    | true => exact absurd rfl notReady

theorem Sound.sum_values (sound : experiment.Sound) (done : experiment.Done) :
    (values experiment.output).sum = 499510 := by
  have account := sound.account
  rw [done.1, done.2.1] at account
  exact account

/-- The experiment comes to its end in every order of its steps, and at its end, the threads
have read all that `main` has written. -/
theorem all_read (someThread : 0 < threads) :
    (∀ events (experiment : Experiment threads),
      Machine.run step (start threads) events = some experiment →
        events.length ≤ 2001 * (3 * threads + 1) + 2 * threads) ∧
      ∀ experiment : Experiment threads, Machine.Reachable step (start threads) experiment →
        ((∀ event, experiment.step event = none) →
          experiment.Done ∧ (values experiment.output).sum = 499510) ∧
        ∃ events final, Machine.run step experiment events = some final ∧
          ∀ event, final.step event = none := by
  constructor
  · intro events experiment ran
    have spent := Machine.run_history_invariant
      (fun past state => past.length + state.remaining ≤ (start threads).remaining)
      (fun {past state event next} spent stepped => by
        have less := (moves_of_step stepped).remaining_lt
        rw [List.length_append, List.length_singleton]
        omega)
      (Nat.zero_add _).le ran
    have initially : (start threads).remaining = 2001 * (3 * threads + 1) + 2 * threads := by
      simp [remaining, episodes, start, weight, passes, Nat.mul_comm]
    exact (Nat.le_add_right _ _).trans (initially ▸ spent)
  · intro experiment reachable
    have sound := sound_of_reachable reachable
    constructor
    · intro noStep
      have done := sound.done someThread noStep
      exact ⟨done, sound.sum_values done⟩
    · apply Machine.exists_run_to_rest (fun _ => True) remaining
      · intro state event next _ stepped
        exact ⟨trivial, (moves_of_step stepped).remaining_lt⟩
      · trivial

/-- Two threads wait, and the first `write` wakes the first of them only. -/
def oneWoken : List (Event 2) :=
  let first : Fin 2 := 0
  let second := Fin.last 1
  [.add first, .wait first, .read first, .read first, .wait first, .add second,
    .write fun _ => true, .wait first, .wait second, .write fun index => index = first]

/-- The two threads still read everything. -/
theorem all_read_oneWoken :
    ∃ woken : Experiment 2, Machine.run step (start 2) oneWoken = some woken ∧
      (∃ index other, (woken.thread index).ready = true ∧
        woken.thread other = ⟨.waiting, false⟩) ∧
      ∃ events final, Machine.run step woken events = some final ∧
        (values final.output).sum = 499510 := by
  rcases @Machine.exists_run_of_any _ _ step (start 2) oneWoken
      (fun woken => ∃ index other, (woken.thread index).ready = true ∧
        woken.thread other = ⟨.waiting, false⟩) (by decide +kernel) with ⟨woken, ran, shown⟩
  have all := (@all_read 2 (by decide)).2
  rcases (all woken ⟨oneWoken, ran⟩).2 with ⟨events, final, finished, rest⟩
  have reachable : Machine.Reachable step (start 2) final :=
    ⟨oneWoken ++ events, by rw [Machine.run_append, ran]; exact finished⟩
  exact ⟨woken, ran, of_decide_eq_true shown, events, final, finished,
    ((all final reachable).1 rest).2⟩

end Experiment

end LoadBalance.EventFd
