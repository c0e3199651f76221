import LoadBalance.Bench.Hanging

/-!
# Which processes run `benchcore`

The variable `pid` tells behind the loop of `bench` who a process is, and it is 0 before the
loop as it is in a child. So the original process is told apart from a child only if it has
gone through the loop at least once, which a negative number of clients prevents.
-/

namespace LoadBalance.Bench

/-- `if(clients == 0) clients = 1;` -/
def mainClients (c : ℤ) : ℤ := if c = 0 then 1 else c

def Action.isCore : Action → Bool
  | .benchcore _ _ => true
  | _ => false

def Action.isFscanf : Action → Bool
  | .fscanf => true
  | _ => false

/-- A process begins its run of `benchcore`. -/
def Event.runsCore (who : ℕ) (event : Event) : Bool := event.who = who && event.action.isCore

/-- The parent reads a report. -/
def Event.reads (event : Event) : Bool := event.who = 0 && event.action.isFscanf

/-- How often a child has run `benchcore` where it is. -/
structure OnceBehind (count : ℕ) (pc : Pc) : Prop where
  atMost : count ≤ 1
  before : pc = .core → count = 0
  behind : pc ≠ .core → pc ≠ .killed → count = 1

/-- What is expected of the original process and its children, when so much has happened. -/
structure Forked (program : Program) (asked : ℤ) (past : List Event) (system : System)
    (original : Proc) (children : List Proc) : Prop where
  procs : system.procs = original :: children
  noCore : past.countP (Event.runsCore 0) = 0
  forks : ∀ event ∈ past, ∀ pid, event.action = .fork pid → event.who = 0
  once : ∀ index child, children[index]? = some child →
    OnceBehind (past.countP (Event.runsCore (index + 1))) child.pc
  canRun : ∀ index child, children[index]? = some child → child.pc = .core →
    ∀ sigaction run, (system.step program ⟨index + 1, .benchcore sigaction run⟩).isSome
  whole : original.pc = .listening ∨ original.pc = .reading ∨ original.pc = .reported →
    (children.length : ℤ) = asked
  waits : original.pc = .reading → (past.countP Event.reads : ℤ) < asked
  reported : original.pc = .reported → (past.countP Event.reads : ℤ) = asked
  failed : ∀ event ∈ past, ∀ pid, event.action = .fork pid → pid < 0 →
    original.pc = .ended 3

/-- In every run with `-c c`, `bench` forks the processes which it should. -/
def ForksRight (program : Program) (c : ℤ) : Prop :=
  ∀ events system, Machine.run (System.step program) (System.start (mainClients c)) events =
      some system →
    ∃ original children, Forked program (max 1 c) events system original children

/-- What the past says about the processes, apart from what they say themselves. -/
structure Account (clients : ℤ) (past : List Event) (original : Proc) (children : List Proc) :
    Prop where
  known : ∀ event ∈ past, event.who ≤ children.length
  noCore : past.countP (Event.runsCore 0) = 0
  forks : ∀ event ∈ past, ∀ pid, event.action = .fork pid → event.who = 0
  once : ∀ index child, children[index]? = some child →
    OnceBehind (past.countP (Event.runsCore (index + 1))) child.pc
  reads : (past.countP Event.reads : ℤ) + original.parent.clients = clients
  failed : ∀ event ∈ past, ∀ pid, event.action = .fork pid → pid < 0 →
    original.pc = .ended 3

variable {program : Program} {clients : ℤ} {past : List Event} {system next : System}
  {event : Event} {original : Proc} {children : List Proc}

/-- Either the original process or a child takes a step. -/
theorem step_procs (procs : system.procs = original :: children)
    (stepped : system.step program event = some next) :
    (event.who = 0 ∧ ∃ effect,
      original.act program (!system.hasWriter) system.pipe event.action = some effect ∧
        next.procs = effect.proc :: (children ++ effect.child.toList)) ∨
    ∃ index child effect, event.who = index + 1 ∧ children[index]? = some child ∧
      child.act program (!system.hasWriter) system.pipe event.action = some effect ∧
        next.procs = original :: (children.set index effect.proc ++ effect.child.toList) := by
  simp only [System.step, procs] at stepped
  cases who : event.who with
  | zero =>
      simp only [who, List.getElem?_cons_zero] at stepped
      rcases Option.map_eq_some_iff.mp stepped with ⟨effect, acted, rfl⟩
      exact .inl ⟨rfl, effect, acted, rfl⟩
  | succ index =>
      simp only [who, List.getElem?_cons_succ] at stepped
      cases found : children[index]? with
      | none => simp [found] at stepped
      | some child =>
          simp only [found] at stepped
          rcases Option.map_eq_some_iff.mp stepped with ⟨effect, acted, rfl⟩
          exact .inr ⟨index, child, effect, rfl, found, acted, rfl⟩

namespace Proc

variable {proc : Proc} {eof : Bool} {pipe : List Char} {action : Action} {effect : Effect}

@[simp]
theorem parent_leave (pc : Pc) : (proc.leave pc).parent = proc.parent := rfl

@[simp]
theorem parent_behindLoop : proc.behindLoop.parent = proc.parent := by
  rw [behindLoop]
  split
  · rfl
  · split
    · rfl
    · rfl

@[simp]
theorem parent_loopHead : proc.loopHead.parent = proc.parent := by
  rw [loopHead]
  split
  · rfl
  · exact parent_behindLoop

/-- A child does not fork, and it leaves the place where it begins with `benchcore`. -/
theorem once_of_act (isChild : proc.pc.OfChild)
    (acted : proc.act program eof pipe action = some effect) {count : ℕ}
    (once : OnceBehind count proc.pc) :
    (∀ pid, action ≠ .fork pid) ∧
      OnceBehind (count + if action.isCore then 1 else 0) effect.proc.pc := by
  rcases isChild.not_parent with ⟨probing, piping, forking, listening, reading⟩
  cases move_of_act acted with
  | probe here => exact absurd here probing
  | pipe here => exact absurd here piping
  | forkFails here _ => exact absurd here forking
  | fork here _ => exact absurd here forking
  | openReading here => exact absurd here listening
  | fscanf here _ => exact absurd here reading
  | coreFails here _ | core here _ =>
      have none := once.before here
      refine ⟨nofun, ?_, nofun, ?_⟩
      · simp [Action.isCore, none]
      · simp [Action.isCore, none]
  | @openWriting opened here =>
      have ran := once.behind (by simp [here]) (by simp [here])
      cases opened with
      | true => exact ⟨nofun, ran.le, nofun, fun _ _ => ran⟩
      | false => exact ⟨nofun, ran.le, nofun, fun _ _ => ran⟩
  | report here =>
      have ran := once.behind (by simp [here]) (by simp [here])
      exact ⟨nofun, ran.le, nofun, fun _ _ => ran⟩
  | kill => exact ⟨nofun, once.atMost, nofun, fun _ alive => absurd rfl alive⟩

end Proc

/-- The original process is not where `benchcore` is called, it takes one report off those it
waits for with each `fscanf`, and it ends on a failed `fork`. -/
theorem Sound.original_effect {pending : List Report}
    (sound : Sound program clients system original children pending) {action : Action}
    {effect : Effect}
    (acted : original.act program (!system.hasWriter) system.pipe action = some effect) :
    action.isCore = false ∧
      (if action.isFscanf then 1 else 0) + effect.proc.parent.clients = original.parent.clients ∧
      ∀ pid, action = .fork pid → pid < 0 → effect.proc.pc = .ended 3 := by
  have stage := sound.stage
  cases Proc.move_of_act acted with
  | @probe i here =>
      refine ⟨rfl, ?_, by simp⟩
      by_cases failed : i < 0
      · simp [Action.isFscanf, failed]
      · simp [Action.isFscanf, failed]
  | @pipe ret here =>
      refine ⟨rfl, ?_, by simp⟩
      by_cases failed : ret = 0
      · simp [Action.isFscanf, failed]
      · simp [Action.isFscanf, failed]
  | @forkFails pid here failed =>
      refine ⟨rfl, by simp [Action.isFscanf], ?_⟩
      intro _ _ _
      rw [Proc.behindLoop, if_pos failed]
      rfl
  | @fork pid here parentOf =>
      refine ⟨rfl, by simp [Action.isFscanf], ?_⟩
      rintro _ ⟨⟩ negative
      omega
  | coreFails here _ | core here _ | openWriting here | report here =>
      simp only [Stage, here] at stage
  | @openReading opened here =>
      refine ⟨rfl, ?_, by simp⟩
      cases opened with
      | true => simp [Action.isFscanf, Parent.start]
      | false => simp [Action.isFscanf]
  | @fscanf parent rest here read =>
      simp only [Stage, here] at stage
      rw [sound.hasWriter stage.2.1, Bool.not_true] at read
      rcases sound.fscanf_cases here read with ⟨report, later, _, taken, _⟩
      rw [take_values] at taken
      have left : parent.clients = original.parent.clients - 1 := by rw [taken]
      refine ⟨rfl, ?_, by simp⟩
      by_cases goesOn : parent.flow = .reading
      · simp [Action.isFscanf, goesOn, left]
      · simp [Action.isFscanf, goesOn, left]
  | kill => exact ⟨rfl, by simp [Action.isFscanf], by simp⟩

namespace Account

theorem start (clients : ℤ) (original : Proc) (asked : original.parent.clients = clients) :
    Account clients [] original [] where
  known := List.forall_mem_nil _
  noCore := rfl
  forks := List.forall_mem_nil _
  once index child found := by simp at found
  reads := by simpa using asked
  failed := List.forall_mem_nil _

theorem child_act {pending : List Report}
    (account : Account clients past original children)
    (sound : Sound program clients system original children pending) {index : ℕ} {child : Proc}
    (who : event.who = index + 1) (found : children[index]? = some child) {eof : Bool}
    {pipe : List Char} {effect : Effect}
    (acted : child.act program eof pipe event.action = some effect) :
    Account clients (past ++ [event]) original (children.set index effect.proc) := by
  have inside := (List.getElem?_eq_some_iff.mp found).choose
  have isChild := sound.isChild child (List.mem_of_getElem? found)
  rcases Proc.once_of_act isChild acted (account.once index child found) with ⟨noFork, once⟩
  constructor
  · intro earlier earlierMem
    rw [List.length_set]
    rcases List.mem_append.mp earlierMem with old | new
    · exact account.known earlier old
    · rw [List.mem_singleton.mp new, who]
      omega
  · rw [List.countP_append, List.countP_singleton, account.noCore]
    simp [Event.runsCore, who]
  · intro earlier earlierMem pid forked
    rcases List.mem_append.mp earlierMem with old | new
    · exact account.forks earlier old pid forked
    · rw [List.mem_singleton.mp new] at forked
      exact absurd forked (noFork pid)
  · intro place proc here
    rw [List.countP_append, List.countP_singleton]
    by_cases same : index = place
    · subst same
      rw [List.getElem?_set_self inside, Option.some.injEq] at here
      rw [← here]
      simpa [Event.runsCore, who] using once
    · rw [List.getElem?_set_ne same] at here
      simpa [Event.runsCore, who, same] using account.once place proc here
  · rw [List.countP_append, List.countP_singleton]
    simpa [Event.reads, who] using account.reads
  · intro earlier earlierMem pid forked failed
    rcases List.mem_append.mp earlierMem with old | new
    · exact account.failed earlier old pid forked failed
    · rw [List.mem_singleton.mp new] at forked
      exact absurd forked (noFork pid)

theorem original_act {pending : List Report}
    (account : Account clients past original children)
    (sound : Sound program clients system original children pending)
    (who : event.who = 0) {effect : Effect}
    (acted : original.act program (!system.hasWriter) system.pipe event.action = some effect) :
    Account clients (past ++ [event]) effect.proc (children ++ effect.child.toList) := by
  rcases sound.original_effect acted with ⟨noCore, reads, failed⟩
  have alive := Proc.not_gone_of_act acted
  have known : ∀ earlier ∈ past ++ [event], earlier.who ≤ children.length := by
    intro earlier earlierMem
    rcases List.mem_append.mp earlierMem with old | new
    · exact account.known earlier old
    · rw [List.mem_singleton.mp new, who]
      exact Nat.zero_le _
  constructor
  · intro earlier earlierMem
    have bound := known earlier earlierMem
    rw [List.length_append]
    omega
  · rw [List.countP_append, List.countP_singleton, account.noCore]
    simp [Event.runsCore, noCore]
  · intro earlier earlierMem pid forked
    rcases List.mem_append.mp earlierMem with old | new
    · exact account.forks earlier old pid forked
    · rw [List.mem_singleton.mp new, who]
  · intro place proc here
    by_cases old : place < children.length
    · rw [List.getElem?_append_left old] at here
      rw [List.countP_append, List.countP_singleton]
      simpa [Event.runsCore, who] using account.once place proc here
    · -- nobody has this number yet
      have none : (past ++ [event]).countP (Event.runsCore (place + 1)) = 0 := by
        rw [List.countP_eq_zero]
        intro earlier earlierMem
        have bound := known earlier earlierMem
        have other : earlier.who ≠ place + 1 := by omega
        simp [Event.runsCore, other]
      rw [List.getElem?_append_right (not_lt.mp old)] at here
      have born : effect.child = some proc := by
        simpa using List.mem_of_getElem? here
      have core := Proc.core_of_act acted born
      rw [none, core]
      exact ⟨Nat.zero_le 1, fun _ => rfl, fun behind => absurd rfl behind⟩
  · rw [List.countP_append, List.countP_singleton]
    have before := account.reads
    simp only [Event.reads, who, decide_true, Bool.true_and]
    push_cast
    omega
  · intro earlier earlierMem pid forked negative
    rcases List.mem_append.mp earlierMem with old | new
    · have ended := account.failed earlier old pid forked negative
      exact absurd (by simp [Proc.Gone, ended]) alive
    · rw [List.mem_singleton.mp new] at forked
      exact failed pid forked negative

end Account

/-- The account of the reports is kept, and that of the past. -/
def Recorded (program : Program) (clients : ℤ) (past : List Event) (system : System) : Prop :=
  ∃ original children pending, Sound program clients system original children pending ∧
    Account clients past original children

theorem recorded_start (program : Program) (clients : ℤ) :
    Recorded program clients [] (System.start clients) := by
  refine ⟨_, [], [], ⟨rfl, List.forall_mem_nil _, ?_, ?_, ?_⟩, Account.start clients _ rfl⟩
  · exact ⟨rfl, rfl, rfl⟩
  · exact ⟨[], List.forall_mem_nil _, rfl⟩
  · simp [Parent.start]

theorem Recorded.step (positive : 1 ≤ clients) (recorded : Recorded program clients past system)
    (stepped : system.step program event = some next) :
    Recorded program clients (past ++ [event]) next := by
  rcases recorded with ⟨original, children, pending, sound, account⟩
  rcases sound.step positive stepped with ⟨original', children', pending', after, _⟩
  have procs := after.procs
  rcases step_procs sound.procs stepped with
    ⟨who, effect, acted, moved⟩ | ⟨index, child, effect, who, found, acted, moved⟩
  · rw [procs, List.cons.injEq] at moved
    rcases moved with ⟨rfl, rfl⟩
    exact ⟨_, _, pending', after, account.original_act sound who acted⟩
  · have isChild := sound.isChild child (List.mem_of_getElem? found)
    have none := (Proc.act_of_child isChild acted).1
    rw [procs, none, Option.toList_none, List.append_nil, List.cons.injEq] at moved
    rcases moved with ⟨rfl, rfl⟩
    exact ⟨_, _, pending', after, account.child_act sound who found acted⟩

theorem Recorded.forked (recorded : Recorded program clients past system) :
    ∃ original children, Forked program clients past system original children := by
  rcases recorded with ⟨original, children, pending, sound, account⟩
  have stage := sound.stage
  have reads := account.reads
  refine ⟨original, children, sound.procs, account.noCore, account.forks, account.once, ?_, ?_,
    ?_, ?_, account.failed⟩
  · intro index child found core sigaction run
    simp only [System.step, sound.procs, List.getElem?_cons_succ, found, Proc.act, core, if_true]
    split
    · rfl
    · rfl
  · rintro (listening | reading | reported)
    · simp only [Stage, listening] at stage
      exact stage.1
    · simp only [Stage, reading] at stage
      exact stage.1
    · simp only [Stage, reported] at stage
      exact stage.1
  · intro reading
    simp only [Stage, reading] at stage
    omega
  · intro reported
    simp only [Stage, reported] at stage
    omega

/-- With a negative number, `pid` is still 0 behind the loop, in which nothing was forked. -/
theorem exists_core_of_neg (program : Program) (negative : clients < 0) :
    ∃ system, Machine.run (System.step program) (System.start clients)
      [⟨0, .probe 5⟩, ⟨0, .pipe 0⟩, ⟨0, .benchcore 0 []⟩] = some system := by
  have skips : ¬0 < clients := by omega
  simp [Machine.run_cons, System.step, System.start, Proc.act, Proc.loopHead, Proc.behindLoop,
    Parent.start, skips, benchcore]

/--
For every number given with `-c`, in every run with every pattern of results of `fork`, the
right processes are forked and run `benchcore` if and only if the number is not negative.
-/
theorem forksRight_iff (program : Program) (c : ℤ) : ForksRight program c ↔ 0 ≤ c := by
  constructor
  · intro right
    by_contra negative
    have kept : mainClients c = c := if_neg (by omega)
    rcases exists_core_of_neg program (not_le.mp negative) with ⟨system, ran⟩
    rw [← kept] at ran
    rcases right _ system ran with ⟨original, children, forked⟩
    exact absurd forked.noCore (by decide)
  · intro nonneg events system ran
    have asked : mainClients c = max 1 c := by
      rw [mainClients]
      split
      · omega
      · omega
    have positive : 1 ≤ max 1 c := le_max_left 1 c
    rw [asked] at ran
    apply Recorded.forked
    exact Machine.run_history_invariant (Recorded program (max 1 c))
      (fun recorded stepped => recorded.step positive stepped)
      (recorded_start program (max 1 c)) ran

/-- `-c -1`: the original process runs the benchmark itself and writes a report which nobody
reads. -/
theorem not_forksRight_of_minus_one :
    (∃ system, Machine.run (System.step .testBench) (System.start (mainClients (-1)))
        [⟨0, .probe 5⟩, ⟨0, .pipe 0⟩, ⟨0, .benchcore 0 []⟩, ⟨0, .fdopen true⟩,
          ⟨0, .report⟩] = some system ∧
      system.procs.map Proc.pc = [.ended 0] ∧ system.pipe = "0 0 0\n".toList) ∧
      ¬ForksRight .testBench (-1) := by
  constructor
  · rcases @Machine.exists_run_of_any _ _ (System.step .testBench)
        (System.start (mainClients (-1)))
        [⟨0, .probe 5⟩, ⟨0, .pipe 0⟩, ⟨0, .benchcore 0 []⟩, ⟨0, .fdopen true⟩, ⟨0, .report⟩]
        (fun system => system.procs.map Proc.pc = [.ended 0] ∧ system.pipe = "0 0 0\n".toList)
        (by decide +kernel) with ⟨system, ran, shown⟩
    exact ⟨system, ran, of_decide_eq_true shown⟩
  · intro right
    rcases exists_core_of_neg .testBench (show mainClients (-1) < 0 by decide) with ⟨system, ran⟩
    rcases right _ system ran with ⟨original, children, forked⟩
    exact absurd forked.noCore (by decide)

end LoadBalance.Bench
