import LoadBalance.Bench.Forks

/-!
# Children which do not report

The parent keeps the end of the pipe for writing open, so for it the pipe never ends. Of
the reports which it still waits for, some are in the pipe, some have yet to be written,
and those of the children which are gone without a line never come.
-/

namespace LoadBalance.Bench

variable {program : Program} {clients : ℤ}

/-- Where a child can be. -/
def Pc.OfChild : Pc → Prop
  | .core | .opening | .reporting | .ended _ | .killed => True
  | _ => False

/-- What holds of the original process, when it has forked this many children. -/
def Stage (clients : ℤ) (forked : ℕ) (original : Proc) : Prop :=
  match original.pc with
  | .probing | .piping =>
      forked = 0 ∧ original.pid = 0 ∧ original.parent.clients = clients
  | .forking =>
      original.i = forked ∧ forked < clients ∧ original.writeEnd = true ∧
        original.parent.clients = clients
  | .listening =>
      forked = clients ∧ original.writeEnd = true ∧ original.parent.clients = clients
  | .reading =>
      forked = clients ∧ original.writeEnd = true ∧ 1 ≤ original.parent.clients ∧
        original.parent.flow = .reading
  | .reported => forked = clients ∧ original.parent.clients = 0
  | .core | .opening | .reporting => False
  | .ended _ | .killed => True

/-- The reports in the pipe are those of the children which have written a line, without
those which the parent has read. -/
structure Sound (program : Program) (clients : ℤ) (system : System) (original : Proc)
    (children : List Proc) (pending : List Report) : Prop where
  procs : system.procs = original :: children
  isChild : ∀ child ∈ children, child.pc.OfChild
  stage : Stage clients children.length original
  input : ∃ space, (∀ char ∈ space, Decimal.isSpace char = true) ∧
    original.pushedBack ++ system.pipe = space ++ pending.flatMap program.line
  wrote : (children.countP (fun child => child.Wrote) : ℤ) + original.parent.clients =
    pending.length + clients

theorem Pc.OfChild.not_parent {pc : Pc} (isChild : pc.OfChild) :
    pc ≠ .probing ∧ pc ≠ .piping ∧ pc ≠ .forking ∧ pc ≠ .listening ∧ pc ≠ .reading := by
  refine ⟨?_, ?_, ?_, ?_, ?_⟩
  all_goals
    rintro rfl
    exact isChild

theorem benchcore_ok {descriptors : Finset ℤ} {sigaction : ℤ} {run : List Answers}
    {process : Process} (returned : benchcore program descriptors sigaction run = .ok process) :
    sigaction = 0 := by
  by_contra nonzero
  rw [benchcore, if_pos nonzero] at returned
  cases returned

theorem benchcore_error {descriptors : Finset ℤ} {sigaction status : ℤ} {run : List Answers}
    (failed : benchcore program descriptors sigaction run = .error status) :
    sigaction ≠ 0 ∧ status = 3 := by
  rw [benchcore] at failed
  split at failed
  · rename_i nonzero
    cases failed
    exact ⟨nonzero, rfl⟩
  · cases failed

namespace Proc

/-- What a process can do, and where. -/
inductive Move (program : Program) (eof : Bool) (pipe : List Char) (proc : Proc) :
    Action → Effect → Prop where
  | probe {i : ℤ} (here : proc.pc = .probing) :
      Move program eof pipe proc (.probe i)
        ⟨if i < 0 then proc.leave (.ended 1) else { proc with pc := .piping }, pipe, none⟩
  | pipe {ret : ℤ} (here : proc.pc = .piping) :
      Move program eof pipe proc (.pipe ret)
        ⟨if ret ≠ 0 then proc.leave (.ended 3)
          else { proc with i := 0, readEnd := true, writeEnd := true }.loopHead, pipe, none⟩
  | forkFails {pid : ℤ} (here : proc.pc = .forking) (failed : pid < 0) :
      Move program eof pipe proc (.fork pid) ⟨{ proc with pid }.behindLoop, pipe, none⟩
  | fork {pid : ℤ} (here : proc.pc = .forking) (parentOf : 0 < pid) :
      Move program eof pipe proc (.fork pid)
        ⟨{ proc with pid, i := proc.i + 1 }.loopHead, pipe,
          some { proc with pid := 0 }.behindLoop⟩
  | coreFails {sigaction : ℤ} {run : List Answers} (here : proc.pc = .core)
      (failed : sigaction ≠ 0) :
      Move program eof pipe proc (.benchcore sigaction run) ⟨proc.leave (.ended 3), pipe, none⟩
  | core {sigaction : ℤ} {run : List Answers} {totals : Report} (here : proc.pc = .core)
      (succeeded : sigaction = 0) :
      Move program eof pipe proc (.benchcore sigaction run)
        ⟨{ proc with pc := .opening, parent := { proc.parent with totals } }, pipe, none⟩
  | openWriting {opened : Bool} (here : proc.pc = .opening) :
      Move program eof pipe proc (.fdopen opened)
        ⟨if opened then { proc with pc := .reporting } else proc.leave (.ended 3), pipe, none⟩
  | openReading {opened : Bool} (here : proc.pc = .listening) :
      Move program eof pipe proc (.fdopen opened)
        ⟨if opened then { proc with pc := .reading, parent := .start proc.parent.clients }
          else proc.leave (.ended 3), pipe, none⟩
  | report (here : proc.pc = .reporting) :
      Move program eof pipe proc .report
        ⟨proc.leave (.ended 0), pipe ++ program.line proc.parent.totals, none⟩
  | fscanf {parent : Parent} {rest : List Char} (here : proc.pc = .reading)
      (read : proc.parent.iteration program eof (proc.pushedBack ++ pipe) =
        some (parent, rest)) :
      Move program eof pipe proc .fscanf
        ⟨if parent.flow = .reading then { proc with parent, pushedBack := rest.take 1 }
          else { proc with parent, pushedBack := rest.take 1 }.leave .reported, rest.drop 1, none⟩
  | kill (notGone : ¬proc.Gone) :
      Move program eof pipe proc .kill ⟨proc.leave .killed, pipe, none⟩

variable {proc : Proc} {eof : Bool} {pipe : List Char} {action : Action} {effect : Effect}

theorem move_of_act (acted : proc.act program eof pipe action = some effect) :
    proc.Move program eof pipe action effect := by
  cases action with
  | probe i =>
      rcases Option.ite_none_right_eq_some.mp acted with ⟨here, same⟩
      cases same
      exact .probe here
  | pipe ret =>
      rcases Option.ite_none_right_eq_some.mp acted with ⟨here, same⟩
      cases same
      exact .pipe here
  | fork pid =>
      rcases Option.ite_none_right_eq_some.mp acted with ⟨here, forked⟩
      split at forked
      · rename_i failed
        cases forked
        exact .forkFails here failed
      · rename_i succeeded
        rcases Option.ite_none_left_eq_some.mp forked with ⟨parentOf, same⟩
        cases same
        exact .fork here (by omega)
  | benchcore sigaction run =>
      rcases Option.ite_none_right_eq_some.mp acted with ⟨here, ran⟩
      split at ran
      · rename_i failed
        cases ran
        rcases benchcore_error failed with ⟨nonzero, rfl⟩
        exact .coreFails here nonzero
      · rename_i succeeded
        cases ran
        exact .core here (benchcore_ok succeeded)
  | fdopen opened =>
      simp only [act] at acted
      split at acted
      · rename_i here
        cases acted
        exact .openWriting here
      · rcases Option.ite_none_right_eq_some.mp acted with ⟨here, same⟩
        cases same
        exact .openReading here
  | report =>
      rcases Option.ite_none_right_eq_some.mp acted with ⟨here, same⟩
      cases same
      exact .report here
  | fscanf =>
      rcases Option.ite_none_right_eq_some.mp acted with ⟨here, mapped⟩
      rcases Option.map_eq_some_iff.mp mapped with ⟨⟨parent, rest⟩, read, rfl⟩
      exact .fscanf here read
  | kill =>
      rcases Option.ite_none_left_eq_some.mp acted with ⟨notGone, same⟩
      cases same
      exact .kill notGone

theorem not_gone_of_act (acted : proc.act program eof pipe action = some effect) :
    ¬proc.Gone := by
  cases move_of_act acted with
  | kill notGone => exact notGone
  | probe here | pipe here | forkFails here _ | fork here _ | coreFails here _ | core here _
  | openWriting here | openReading here | report here | fscanf here _ =>
      rw [Gone, here]
      exact not_false

theorem Wrote.gone (wrote : proc.Wrote) : proc.Gone := by
  rw [Wrote] at wrote
  simp [Gone, wrote]

/-- A forked process leaves the loop at once, for its own run of `benchcore`. -/
theorem core_of_act {child : Proc} (acted : proc.act program eof pipe action = some effect)
    (born : effect.child = some child) : child.pc = .core := by
  cases move_of_act acted with
  | fork =>
      cases born
      rfl
  | _ => cases born

/-- A child leaves the pipe as it is, unless it writes its line, which is its last step. -/
theorem act_of_child (isChild : proc.pc.OfChild)
    (acted : proc.act program eof pipe action = some effect) :
    effect.child = none ∧ effect.proc.pc.OfChild ∧
      ((effect.pipe = pipe ∧ ¬effect.proc.Wrote) ∨
        ∃ report, effect.pipe = pipe ++ program.line report ∧ effect.proc.Wrote) := by
  rcases isChild.not_parent with ⟨probing, piping, forking, listening, reading⟩
  cases move_of_act acted with
  | probe here => exact absurd here probing
  | pipe here => exact absurd here piping
  | forkFails here _ => exact absurd here forking
  | fork here _ => exact absurd here forking
  | openReading here => exact absurd here listening
  | fscanf here _ => exact absurd here reading
  | coreFails => exact ⟨rfl, trivial, .inl ⟨rfl, by simp [Wrote, leave]⟩⟩
  | core => exact ⟨rfl, trivial, .inl ⟨rfl, nofun⟩⟩
  | @openWriting opened =>
      cases opened with
      | true => exact ⟨rfl, trivial, .inl ⟨rfl, nofun⟩⟩
      | false => exact ⟨rfl, trivial, .inl ⟨rfl, by simp [Wrote, leave]⟩⟩
  | report => exact ⟨rfl, trivial, .inr ⟨proc.parent.totals, rfl, rfl⟩⟩
  | kill => exact ⟨rfl, trivial, .inl ⟨rfl, nofun⟩⟩

/-- A child which ends has written its line, unless it failed or was killed. -/
theorem wrote_iff_succeeds (isChild : proc.pc.OfChild)
    (acted : proc.act program eof pipe action = some effect) :
    (effect.proc.Gone → effect.proc.Wrote) ↔ action.Succeeds := by
  rcases isChild.not_parent with ⟨probing, piping, forking, listening, reading⟩
  cases move_of_act acted with
  | probe here => exact absurd here probing
  | pipe here => exact absurd here piping
  | forkFails here _ => exact absurd here forking
  | fork here _ => exact absurd here forking
  | openReading here => exact absurd here listening
  | fscanf here _ => exact absurd here reading
  | coreFails _ failed => simp [Gone, Wrote, leave, Action.Succeeds, failed]
  | core _ succeeded => simp [Gone, Action.Succeeds, succeeded]
  | @openWriting opened =>
      cases opened with
      | true => simp [Gone, Action.Succeeds]
      | false => simp [Gone, Wrote, leave, Action.Succeeds]
  | report => simp [Wrote, leave, Action.Succeeds]
  | kill => simp [Gone, Wrote, leave, Action.Succeeds]

end Proc

/-- What an event does to the list of the children. -/
inductive Change (program : Program) (event : Event) (children : List Proc) : List Proc → Prop where
  | same (who : event.who = 0) : Change program event children children
  | forked {child : Proc} (who : event.who = 0) (core : child.pc = .core) :
      Change program event children (children ++ [child])
  | acted {index : ℕ} {child : Proc} {eof : Bool} {pipe : List Char} {effect : Effect}
      (who : event.who = index + 1) (found : children[index]? = some child)
      (acted : child.act program eof pipe event.action = some effect) :
      Change program event children (children.set index effect.proc)

namespace Sound

variable {system : System} {original : Proc} {children : List Proc} {pending : List Report}

/-- The original process has moved on, and nothing was read, written or forked. -/
theorem moved {proc : Proc} (sound : Sound program clients system original children pending)
    (pushedBack : proc.pushedBack = original.pushedBack)
    (left : proc.parent.clients = original.parent.clients)
    (stage : Stage clients children.length proc) :
    ∃ later, Sound program clients
      ⟨proc :: (children ++ (none : Option Proc).toList), system.pipe⟩ proc
      (children ++ (none : Option Proc).toList) later := by
  rw [Option.toList_none, List.append_nil]
  exact ⟨pending, rfl, sound.isChild, stage, pushedBack ▸ sound.input, left ▸ sound.wrote⟩

theorem forked {proc child : Proc}
    (sound : Sound program clients system original children pending)
    (pushedBack : proc.pushedBack = original.pushedBack)
    (left : proc.parent.clients = original.parent.clients) (core : child.pc = .core)
    (stage : Stage clients (children.length + 1) proc) :
    Sound program clients ⟨proc :: (children ++ [child]), system.pipe⟩ proc
      (children ++ [child]) pending where
  procs := rfl
  isChild := by
    intro other otherMem
    rcases List.mem_append.mp otherMem with old | new
    · exact sound.isChild other old
    · rw [List.mem_singleton.mp new, core]
      trivial
  stage := by
    rw [List.length_append]
    exact stage
  input := by
    rw [pushedBack]
    exact sound.input
  wrote := by
    have notYet : ¬child.Wrote := by simp [Proc.Wrote, core]
    rw [left, List.countP_append, List.countP_singleton]
    simpa [notYet] using sound.wrote

/-- The parent finds the first report which it has not read, or it waits. -/
theorem fscanf_cases (sound : Sound program clients system original children pending)
    (reading : original.pc = .reading) {parent : Parent} {rest : List Char}
    (read : original.parent.iteration program false (original.pushedBack ++ system.pipe) =
      some (parent, rest)) :
    ∃ report later, pending = report :: later ∧
      parent = original.parent.take program (program.values report) ∧
      rest = '\n' :: later.flatMap program.line := by
  have stage := sound.stage
  simp only [Stage, reading] at stage
  rcases sound.input with ⟨space, isBlank, input⟩
  rw [input] at read
  cases pending with
  | nil =>
      have waits : Scan.numbers false program.conversions space = none := by
        cases program with
        | testBench => rw [Program.conversions, Scan.numbers, Scan.number_of_blank isBlank]
        | someipBench => rw [Program.conversions, Scan.numbers, Scan.number_of_blank isBlank]
      rw [List.flatMap_nil, List.append_nil] at read
      simp [Parent.iteration, stage.2.2.2, waits] at read
  | cons report later =>
      rw [List.flatMap_cons, iteration_line false stage.2.2.2 isBlank, Option.some.injEq,
        Prod.mk.injEq] at read
      exact ⟨report, later, rfl, read.1.symm, read.2.symm⟩

theorem hasWriter (sound : Sound program clients system original children pending)
    (writeEnd : original.writeEnd = true) : system.hasWriter = true := by
  rw [System.hasWriter, sound.procs, List.any_cons, writeEnd, Bool.true_or]

/-- One report less is waited for, and one less is in the pipe. -/
theorem fscanf (sound : Sound program clients system original children pending)
    (reading : original.pc = .reading) {parent : Parent} {rest : List Char}
    (read : original.parent.iteration program (!system.hasWriter)
      (original.pushedBack ++ system.pipe) = some (parent, rest)) :
    ∃ later, Sound program clients
      ⟨(if parent.flow = .reading then { original with parent, pushedBack := rest.take 1 }
        else { original with parent, pushedBack := rest.take 1 }.leave .reported) :: children,
        rest.drop 1⟩
      (if parent.flow = .reading then { original with parent, pushedBack := rest.take 1 }
        else { original with parent, pushedBack := rest.take 1 }.leave .reported)
      children later := by
  have stage := sound.stage
  simp only [Stage, reading] at stage
  rw [sound.hasWriter stage.2.1, Bool.not_true] at read
  rcases sound.fscanf_cases reading read with ⟨report, later, rfl, taken, rfl⟩
  rw [take_values] at taken
  have left : parent.clients = original.parent.clients - 1 := by rw [taken]
  have wrote := sound.wrote
  rw [List.length_cons] at wrote
  have newline : ∃ space, (∀ char ∈ space, Decimal.isSpace char = true) ∧
      ['\n'] ++ later.flatMap program.line = space ++ later.flatMap program.line :=
    ⟨['\n'], List.forall_mem_singleton.mpr rfl, rfl⟩
  refine ⟨later, ?_⟩
  by_cases last : original.parent.clients - 1 = 0
  · have finished : parent.flow ≠ .reading := by simp [taken, last]
    rw [if_neg finished]
    exact ⟨rfl, sound.isChild, ⟨stage.1, left.trans last⟩, newline,
      by simp only [Proc.leave, left]; omega⟩
  · have goesOn : parent.flow = .reading := by simp [taken, last]
    have positive : 1 ≤ parent.clients := by omega
    rw [if_pos goesOn]
    refine ⟨rfl, sound.isChild, ?_, newline, by simp only [left]; omega⟩
    simp only [Stage, reading]
    exact ⟨stage.1, stage.2.1, positive, goesOn⟩

/-- Behind `fork`, the original process goes round the loop again or leaves it. -/
theorem fork (sound : Sound program clients system original children pending)
    (forking : original.pc = .forking) {pid : ℤ} (parentOf : 0 < pid) :
    Sound program clients
      ⟨{ original with pid, i := original.i + 1 }.loopHead ::
        (children ++ [{ original with pid := 0 }.behindLoop]), system.pipe⟩
      { original with pid, i := original.i + 1 }.loopHead
      (children ++ [{ original with pid := 0 }.behindLoop]) pending := by
  have stage := sound.stage
  simp only [Stage, forking] at stage
  rw [Proc.loopHead]
  by_cases more : original.i + 1 < original.parent.clients
  · rw [if_pos more]
    apply sound.forked
    · rfl
    · rfl
    · rfl
    · refine ⟨?_, by omega, stage.2.2.1, stage.2.2.2⟩
      push_cast
      rw [stage.1]
  · rw [if_neg more, Proc.behindLoop, if_neg (not_lt_of_gt parentOf), if_neg parentOf.ne']
    apply sound.forked
    · rfl
    · rfl
    · rfl
    · refine ⟨?_, stage.2.2.1, stage.2.2.2⟩
      push_cast
      omega

theorem original_act (sound : Sound program clients system original children pending)
    (positive : 1 ≤ clients) {action : Action} {effect : Effect}
    (acted : original.act program (!system.hasWriter) system.pipe action = some effect) :
    ∃ later, Sound program clients
      ⟨effect.proc :: (children ++ effect.child.toList), effect.pipe⟩ effect.proc
      (children ++ effect.child.toList) later := by
  have stage := sound.stage
  cases Proc.move_of_act acted with
  | @probe i here =>
      simp only [Stage, here] at stage
      by_cases failed : i < 0
      · rw [if_pos failed]
        exact sound.moved rfl rfl trivial
      · rw [if_neg failed]
        exact sound.moved rfl rfl stage
  | @pipe ret here =>
      simp only [Stage, here] at stage
      by_cases failed : ret ≠ 0
      · rw [if_pos failed]
        exact sound.moved rfl rfl trivial
      · have enters : (0 : ℤ) < original.parent.clients := by omega
        rw [if_neg failed, Proc.loopHead, if_pos enters]
        apply sound.moved
        · rfl
        · rfl
        · exact ⟨by rw [stage.1]; rfl, by omega, rfl, stage.2.2⟩
  | forkFails _ failed =>
      rw [Proc.behindLoop, if_pos failed]
      exact sound.moved rfl rfl trivial
  | fork here parentOf => exact ⟨pending, sound.fork here parentOf⟩
  | coreFails here _ | core here _ | openWriting here | report here =>
      simp only [Stage, here] at stage
  | @openReading opened here =>
      simp only [Stage, here] at stage
      cases opened with
      | true =>
          apply sound.moved
          · rfl
          · rfl
          · exact ⟨stage.1, stage.2.1, stage.2.2 ▸ positive, rfl⟩
      | false => exact sound.moved rfl rfl trivial
  | fscanf here read =>
      rw [Option.toList_none, List.append_nil]
      exact sound.fscanf here read
  | kill _ => exact sound.moved rfl rfl trivial

theorem child_act (sound : Sound program clients system original children pending)
    {index : ℕ} {child : Proc} (found : children[index]? = some child) {eof : Bool}
    {action : Action} {effect : Effect}
    (acted : child.act program eof system.pipe action = some effect) :
    effect.child = none ∧ ∃ later, Sound program clients
      ⟨original :: children.set index effect.proc, effect.pipe⟩ original
      (children.set index effect.proc) later := by
  rcases List.getElem?_eq_some_iff.mp found with ⟨inside, here⟩
  have isChild := sound.isChild child (here ▸ List.getElem_mem inside)
  rcases Proc.act_of_child isChild acted with ⟨none, stillChild, outcome⟩
  have notYet : ¬children[index].Wrote := by
    rw [here]
    exact fun wrote => Proc.not_gone_of_act acted wrote.gone
  have isChild : ∀ other ∈ children.set index effect.proc, other.pc.OfChild := by
    intro other otherMem
    rcases List.mem_or_eq_of_mem_set otherMem with old | rfl
    · exact sound.isChild other old
    · exact stillChild
  have stage : Stage clients (children.set index effect.proc).length original := by
    rw [List.length_set]
    exact sound.stage
  have counted := @List.countP_set _ (fun child => decide child.Wrote) children index
    effect.proc inside
  have wrote := sound.wrote
  rcases sound.input with ⟨space, isBlank, input⟩
  refine ⟨none, ?_⟩
  rcases outcome with ⟨samePipe, silent⟩ | ⟨report, newPipe, line⟩
  · refine ⟨pending, rfl, isChild, stage, ⟨space, isBlank, ?_⟩, ?_⟩
    · rw [samePipe]
      exact input
    · simp only [notYet, silent, decide_false, Bool.false_eq_true, if_false] at counted
      rw [counted]
      exact wrote
  · refine ⟨pending ++ [report], rfl, isChild, stage, ⟨space, isBlank, ?_⟩, ?_⟩
    · rw [newPipe, ← List.append_assoc, input, List.flatMap_append, List.flatMap_singleton,
        List.append_assoc]
    · simp only [notYet, line, decide_false, decide_true, Bool.false_eq_true, if_false,
        if_true] at counted
      rw [counted, List.length_append, List.length_singleton]
      push_cast
      omega

theorem step (sound : Sound program clients system original children pending)
    (positive : 1 ≤ clients) {event : Event} {next : System}
    (stepped : system.step program event = some next) :
    ∃ original children' pending, Sound program clients next original children' pending ∧
      Change program event children children' := by
  simp only [System.step, sound.procs] at stepped
  cases who : event.who with
  | zero =>
      simp only [who, List.getElem?_cons_zero] at stepped
      rcases Option.map_eq_some_iff.mp stepped with ⟨effect, acted, rfl⟩
      rcases sound.original_act positive acted with ⟨later, after⟩
      refine ⟨_, _, later, after, ?_⟩
      cases born : effect.child with
      | none =>
          rw [Option.toList_none, List.append_nil]
          exact .same who
      | some child => exact .forked who (Proc.core_of_act acted born)
  | succ index =>
      simp only [who, List.getElem?_cons_succ] at stepped
      cases found : children[index]? with
      | none => simp [found] at stepped
      | some child =>
          simp only [found] at stepped
          rcases Option.map_eq_some_iff.mp stepped with ⟨effect, acted, rfl⟩
          rcases sound.child_act found acted with ⟨none, later, after⟩
          simp only [none, Option.toList_none, List.append_nil, List.set_cons_succ]
          exact ⟨_, _, later, after, .acted who found acted⟩

/-- The parent does not wait while there is a report which it has not read. -/
theorem pending_nil (sound : Sound program clients system original children pending)
    (reading : original.pc = .reading)
    (waits : system.step program ⟨0, .fscanf⟩ = none) : pending = [] := by
  have stage := sound.stage
  simp only [Stage, reading] at stage
  rcases sound.input with ⟨space, isBlank, input⟩
  cases pending with
  | nil => rfl
  | cons report later =>
      rw [List.flatMap_cons] at input
      simp [System.step, sound.procs, Proc.act, reading, input,
        iteration_line _ stage.2.2.2 isBlank] at waits

theorem not_hung (sound : Sound program clients system original children pending)
    (all : ∀ child ∈ children, child.Gone → child.Wrote) : ¬system.Hung program := by
  rintro ⟨parent, others, procs, reading, gone, _, waits⟩
  rw [sound.procs, List.cons.injEq] at procs
  rcases procs with ⟨rfl, rfl⟩
  have nothing := sound.pending_nil reading waits
  have stage := sound.stage
  simp only [Stage, reading] at stage
  have wrote := sound.wrote
  have every : children.countP (fun child => child.Wrote) = children.length := by
    rw [List.countP_eq_length]
    intro child childMem
    exact decide_eq_true (all child childMem (gone child childMem))
  rw [every, nothing, List.length_nil] at wrote
  omega

theorem not_reported (sound : Sound program clients system original children pending)
    {child : Proc} (childMem : child ∈ children) (silent : ¬child.Wrote) : ¬system.Reported := by
  rintro ⟨parent, others, procs, reported⟩
  rw [sound.procs, List.cons.injEq] at procs
  rcases procs with ⟨rfl, rfl⟩
  have stage := sound.stage
  simp only [Stage, reported] at stage
  have wrote := sound.wrote
  have few := @List.countP_le_length _ (fun child : Proc => decide child.Wrote) children
  have every : children.countP (fun child => child.Wrote) = children.length := by omega
  rw [List.countP_eq_length] at every
  exact silent (of_decide_eq_true (every child childMem))

end Sound

namespace System

/-- The account is kept, and every child which is gone has written its line. -/
def Holds (program : Program) (clients : ℤ) (system : System) : Prop :=
  ∃ original children pending, Sound program clients system original children pending ∧
    ∀ child ∈ children, child.Gone → child.Wrote

/-- The account is kept, and some child is gone without a line. -/
def Lost (program : Program) (clients : ℤ) (system : System) : Prop :=
  ∃ original children pending, Sound program clients system original children pending ∧
    ∃ child ∈ children, child.Gone ∧ ¬child.Wrote

theorem holds_start (program : Program) (clients : ℤ) :
    (start clients).Holds program clients := by
  refine ⟨_, [], [], ⟨rfl, List.forall_mem_nil _, ?_, ?_, ?_⟩, List.forall_mem_nil _⟩
  · exact ⟨rfl, rfl, rfl⟩
  · exact ⟨[], List.forall_mem_nil _, rfl⟩
  · simp [Parent.start]

theorem Holds.step {system next : System} {event : Event} (positive : 1 ≤ clients)
    (holds : system.Holds program clients) (writesLine : system.WritesLine event)
    (stepped : system.step program event = some next) : next.Holds program clients := by
  rcases holds with ⟨original, children, pending, sound, all⟩
  rcases sound.step positive stepped with ⟨original', children', pending', after, change⟩
  refine ⟨original', children', pending', after, ?_⟩
  intro child childMem gone
  cases change with
  | same _ => exact all child childMem gone
  | forked _ core =>
      rcases List.mem_append.mp childMem with old | new
      · exact all child old gone
      · rw [List.mem_singleton.mp new] at gone
        simp [Proc.Gone, core] at gone
  | acted who found acted =>
      rcases List.mem_or_eq_of_mem_set childMem with old | rfl
      · exact all child old gone
      · have isChild := sound.isChild _ (List.mem_of_getElem? found)
        have succeeds := writesLine.resolve_left (by omega)
        exact (Proc.wrote_iff_succeeds isChild acted).mpr succeeds gone

theorem Holds.lost {system next : System} {event : Event} (positive : 1 ≤ clients)
    (holds : system.Holds program clients) (silent : ¬system.WritesLine event)
    (stepped : system.step program event = some next) : next.Lost program clients := by
  rcases holds with ⟨original, children, pending, sound, _⟩
  rcases sound.step positive stepped with ⟨original', children', pending', after, change⟩
  rw [WritesLine, not_or] at silent
  refine ⟨original', children', pending', after, ?_⟩
  cases change with
  | same who => exact absurd who silent.1
  | forked who _ => exact absurd who silent.1
  | @acted index child eof pipe effect who found acted =>
      have isChild := sound.isChild _ (List.mem_of_getElem? found)
      have inside := (List.getElem?_eq_some_iff.mp found).choose
      have fails := mt (Proc.wrote_iff_succeeds isChild acted).mp silent.2
      rw [Classical.not_imp] at fails
      exact ⟨effect.proc, List.mem_set inside effect.proc, fails⟩

theorem Lost.step {system next : System} {event : Event} (positive : 1 ≤ clients)
    (lost : system.Lost program clients) (stepped : system.step program event = some next) :
    next.Lost program clients := by
  rcases lost with ⟨original, children, pending, sound, child, childMem, gone, silent⟩
  rcases sound.step positive stepped with ⟨original', children', pending', after, change⟩
  refine ⟨original', children', pending', after, child, ?_, gone, silent⟩
  cases change with
  | same _ => exact childMem
  | forked _ _ => exact List.mem_append_left _ childMem
  | acted _ found acted =>
      rcases List.mem_iff_getElem?.mp childMem with ⟨place, here⟩
      rw [List.mem_iff_getElem?]
      refine ⟨place, ?_⟩
      rw [List.getElem?_set_ne, here]
      rintro rfl
      rw [found, Option.some.injEq] at here
      exact Proc.not_gone_of_act acted (here ▸ gone)

/--
For every number of children and every order of what the processes do, the parent never
hangs in a run in which no child ends without its line. Once one has, the parent has no way
out of its loop: it never comes to its report, and in particular not through the branch for
children which have died.
-/
theorem not_hung_of_writesLine (program : Program) (positive : 1 ≤ clients)
    {events : List Event} {final : System}
    (guarded : Machine.RunsUnder (System.step program) WritesLine (start clients) events final) :
    ¬final.Hung program ∧
      ∀ event next, ¬final.WritesLine event → final.step program event = some next →
        ∀ later, Machine.Reachable (System.step program) next later → ¬later.Reported := by
  have holds := guarded.invariant (Holds program clients)
    (fun holds writesLine stepped => holds.step positive writesLine stepped)
    (holds_start program clients)
  constructor
  · rcases holds with ⟨original, children, pending, sound, all⟩
    exact sound.not_hung all
  · intro event next silent stepped later reachable
    have lost := reachable.invariant (Lost program clients)
      (fun lost stepped => lost.step positive stepped) (holds.lost positive silent stepped)
    rcases lost with ⟨original, children, pending, sound, child, childMem, _, unwritten⟩
    exact sound.not_reported childMem unwritten

/-- Two children; the one which was forked first reports last. -/
def twoChildren : List Event :=
  [⟨0, .probe 5⟩, ⟨0, .pipe 0⟩, ⟨0, .fork 201⟩, ⟨0, .fork 202⟩, ⟨2, .benchcore 0 []⟩,
    ⟨0, .fdopen true⟩, ⟨2, .fdopen true⟩, ⟨2, .report⟩, ⟨0, .fscanf⟩,
    ⟨1, .benchcore 0 [.reading errRes]⟩, ⟨1, .fdopen true⟩, ⟨1, .report⟩, ⟨0, .fscanf⟩]

theorem not_hung_of_writesLine_sample :
    ∃ final, Machine.RunsUnder (System.step .testBench) WritesLine (start 2) twoChildren final ∧
      (final.procs.map Proc.pc = [.reported, .ended 0, .ended 0]) ∧ ¬final.Hung .testBench := by
  rcases @Machine.RunsUnder.exists_of_any _ _ (System.step .testBench) WritesLine _ (start 2)
      twoChildren (fun final => final.procs.map Proc.pc = [.reported, .ended 0, .ended 0])
      (by decide +kernel) with ⟨final, guarded, ended⟩
  exact ⟨final, guarded, of_decide_eq_true ended,
    (not_hung_of_writesLine .testBench (by decide) guarded).1⟩

/-- A parent which waits for the line of its only child. -/
def waitingParent : Proc where
  pc := .reading
  pid := 201
  i := 1
  parent := .start 1
  readEnd := true
  writeEnd := true
  pushedBack := []

/-- Its child, whose `sigaction` has failed. -/
def exitedChild : Proc :=
  { waitingParent with pc := .ended 3, pid := 0, i := 0, readEnd := false, writeEnd := false }

/-- A single child whose `sigaction` fails. -/
theorem hung_of_exit :
    ∃ final, Machine.Reachable (System.step .testBench) (start 1) final ∧
      final.Hung .testBench := by
  refine ⟨⟨[waitingParent, exitedChild], []⟩, ⟨[⟨0, .probe 5⟩, ⟨0, .pipe 0⟩, ⟨0, .fork 201⟩,
    ⟨1, .benchcore (-1) []⟩, ⟨0, .fdopen true⟩], ?_⟩, waitingParent, [exitedChild], rfl, rfl, ?_,
    rfl, ?_⟩
  · decide +kernel
  · decide
  · decide +kernel

end System

end LoadBalance.Bench
