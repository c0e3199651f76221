import Mathlib.Data.List.Perm.Basic
import LoadBalance.Bench.Children

/-!
# What the benchmark prints

The original process adds up the reports in the order in which its children come to write
them, and `fscanf` puts the first number of each into `i`, which `bench` returns in the end.
-/

namespace LoadBalance.Bench

/-- The iterations of a process which comes out of `benchcore` with this action. -/
def Action.run? : Action → Option (List Answers)
  | .benchcore sigaction run => if sigaction = 0 then some run else none
  | _ => none

/-- The iterations of each process which has come out of `benchcore`. -/
def runs (events : List Event) : List (List Answers) :=
  events.filterMap fun event => event.action.run?

/-- The counters of a process which comes out of `benchcore`. -/
def Report.ofRun (program : Program) (run : List Answers) : Report :=
  match benchcore program ∅ 0 run with
  | .ok process => .ofProcess process
  | .error _ => ⟨0, 0, 0⟩

/-- The processes, and what the last `fscanf` has put into the variable `i`. -/
structure Returning where
  system : System
  i : ℤ

namespace Returning

def start (clients : ℤ) : Returning where
  system := .start clients
  i := 0

/-- The first number which the original process would read. -/
def scanned (program : Program) (system : System) : Option ℤ :=
  system.procs.head?.bind fun original =>
    (Scan.numbers (!system.hasWriter) program.conversions
      (original.pushedBack ++ system.pipe)).bind fun (values, _) => values.head?

def step (program : Program) (returning : Returning) (event : Event) : Option Returning :=
  (returning.system.step program event).map fun system =>
    { system
      i := if event.reads then (scanned program returning.system).getD returning.i
        else returning.i }

/-- What `bench` returns in the original process. -/
def status (returning : Returning) : Option ℤ :=
  returning.system.procs.head?.bind fun original =>
    match original.pc with
    | .reported => some returning.i
    | .ended status => some status
    | _ => none

end Returning

/-- A child with the counters of its run of `benchcore`. -/
def Proc.HasRun (proc : Proc) : Prop :=
  proc.pc = .opening ∨ proc.pc = .reporting ∨ proc.Wrote

/-- A child which is gone without a line. -/
def Proc.Failed (proc : Proc) : Prop := proc.Gone ∧ ¬proc.Wrote

instance (proc : Proc) : Decidable proc.HasRun := inferInstanceAs (Decidable (_ ∨ _ ∨ _))

instance (proc : Proc) : Decidable proc.Failed := inferInstanceAs (Decidable (_ ∧ _))

/-- The counters of the children which have written a line. -/
def written (children : List Proc) : List Report :=
  (children.filter fun child => child.Wrote).map fun child => child.parent.totals

/-- The counters of the children which have written a line or can still do so. -/
def counters (children : List Proc) : List Report :=
  (children.filter fun child => child.HasRun).map fun child => child.parent.totals

/-- `read` has the reports which the original process has added up, and `lost` those of the
children which are gone without a line. -/
structure Tallied (program : Program) (clients : ℤ) (past : List Event) (returning : Returning)
    (original : Proc) (children : List Proc) (read pending lost : List Report) : Prop where
  sound : Sound program clients returning.system original children pending
  left : (read.length : ℤ) + original.parent.clients = clients
  totals : original.parent.totals = gather program ⟨0, 0, 0⟩ read
  lines : (read ++ pending).Perm (written children)
  last : ∀ report ∈ read.getLast?, returning.i = report.speed.toInt
  ran : ((runs past).map (.ofRun program)).Perm (counters children ++ lost)
  few : lost.length ≤ children.countP fun child => child.Failed

/-- The account of the reports, with some division of them. -/
def Returning.Settles (program : Program) (clients : ℤ) (past : List Event)
    (returning : Returning) : Prop :=
  ∃ original children read pending lost,
    Tallied program clients past returning original children read pending lost

variable {program : Program} {clients : ℤ} {past : List Event} {event : Event}
  {returning next : Returning} {original : Proc} {children : List Proc}
  {read pending lost : List Report}

theorem gather_perm {first second : List Report} (same : first.Perm second) (totals : Report) :
    gather program totals first = gather program totals second := by
  rw [gather_eq, gather_eq, (same.map Report.speed).sum_eq, (same.map Report.failed).sum_eq,
    (same.map Report.diff).sum_eq]

theorem gather_append_singleton (totals report : Report) (reports : List Report) :
    gather program totals (reports ++ [report]) =
      (gather program totals reports).add program (program.values report) := by
  simp [gather, List.foldl_append]

theorem written_perm {first second : List Proc} (same : first.Perm second) :
    (written first).Perm (written second) :=
  (same.filter _).map _

theorem counters_perm {first second : List Proc} (same : first.Perm second) :
    (counters first).Perm (counters second) :=
  (same.filter _).map _

theorem written_cons (child : Proc) (children : List Proc) :
    written (child :: children) =
      if child.Wrote then child.parent.totals :: written children else written children := by
  by_cases wrote : child.Wrote
  · simp [written, wrote]
  · simp [written, wrote]

theorem counters_cons (child : Proc) (children : List Proc) :
    counters (child :: children) =
      if child.HasRun then child.parent.totals :: counters children else counters children := by
  by_cases ran : child.HasRun
  · simp [counters, ran]
  · simp [counters, ran]

/-- A child in its place among the others, before and behind a step of it. -/
theorem exists_others {index : ℕ} {child : Proc} (found : children[index]? = some child) :
    ∃ others, children.Perm (child :: others) ∧
      ∀ later, (children.set index later).Perm (later :: others) := by
  rcases List.getElem?_eq_some_iff.mp found with ⟨inside, rfl⟩
  exact ⟨children.eraseIdx index, (List.getElem_cons_eraseIdx_perm inside).symm,
    fun later => List.set_perm_cons_eraseIdx inside later⟩

theorem runs_concat (past : List Event) (event : Event) :
    runs (past ++ [event]) = runs past ++ event.action.run?.toList := by
  rw [runs, List.filterMap_append]
  cases ran : event.action.run? with
  | none => simp [runs, ran]
  | some run => simp [runs, ran]

namespace Proc

variable {proc : Proc} {eof : Bool} {pipe : List Char} {action : Action} {effect : Effect}

@[simp]
theorem pushedBack_leave (pc : Pc) : (proc.leave pc).pushedBack = proc.pushedBack := rfl

@[simp]
theorem pushedBack_behindLoop : proc.behindLoop.pushedBack = proc.pushedBack := by
  rw [behindLoop]
  split
  · rfl
  · split
    · rfl
    · rfl

@[simp]
theorem pushedBack_loopHead : proc.loopHead.pushedBack = proc.pushedBack := by
  rw [loopHead]
  split
  · rfl
  · exact pushedBack_behindLoop

/-- What a child can do, as far as its counters go. -/
inductive Counts (program : Program) (pipe : List Char) (proc : Proc) (action : Action)
    (effect : Effect) : Prop where
  | ran {run : List Answers} (here : proc.pc = .core) (acted : action.run? = some run)
      (there : effect.proc.pc = .opening)
      (totals : effect.proc.parent.totals = .ofRun program run) (same : effect.pipe = pipe)
  | opened (here : proc.pc = .opening) (noRun : action.run? = none)
      (there : effect.proc.pc = .reporting) (kept : effect.proc.parent = proc.parent)
      (same : effect.pipe = pipe)
  | wrote (here : proc.pc = .reporting) (noRun : action.run? = none)
      (there : effect.proc.Wrote) (kept : effect.proc.parent = proc.parent)
      (line : effect.pipe = pipe ++ program.line proc.parent.totals)
  | failed (alive : ¬proc.Gone) (noRun : action.run? = none) (there : effect.proc.Failed)
      (same : effect.pipe = pipe)

theorem Counts.of_act (isChild : proc.pc.OfChild)
    (acted : proc.act program eof pipe action = some effect) :
    Counts program pipe proc action effect := by
  have alive := not_gone_of_act acted
  rcases isChild.not_parent with ⟨probing, piping, forking, listening, reading⟩
  cases move_of_act acted with
  | probe here => exact absurd here probing
  | pipe here => exact absurd here piping
  | forkFails here _ => exact absurd here forking
  | fork here _ => exact absurd here forking
  | openReading here => exact absurd here listening
  | fscanf here _ => exact absurd here reading
  | coreFails here failed =>
      refine .failed alive ?_ ?_ rfl
      · rw [Action.run?, if_neg failed]
      · simp [Failed, Gone, Wrote, leave]
  | @core sigaction run totals here succeeded =>
      subst succeeded
      have asked : (Action.benchcore 0 run).run? = some run := by rw [Action.run?, if_pos rfl]
      refine .ran here asked rfl ?_ rfl
      simp only [act, here, if_true] at acted
      rw [Report.ofRun]
      cases result : benchcore program ∅ 0 run with
      | error status => simp [result, leave] at acted
      | ok process =>
          rw [result, Option.some.injEq, Effect.mk.injEq, Proc.mk.injEq, Parent.mk.injEq] at acted
          exact acted.1.2.2.2.1.2.1.symm
  | @openWriting opened here =>
      cases opened with
      | true => exact .opened here rfl rfl rfl rfl
      | false => exact .failed alive rfl (by simp [Failed, Gone, Wrote, leave]) rfl
  | report here => exact .wrote here rfl rfl rfl rfl
  | kill => exact .failed alive rfl (by simp [Failed, Gone, Wrote, leave]) rfl

end Proc

theorem run?_of_not_core {action : Action} (noCore : action.isCore = false) :
    action.run? = none := by
  cases action with
  | benchcore sigaction run => exact absurd noCore (by simp [Action.isCore])
  | _ => rfl

/-- The children which have just been forked have counted nothing. -/
theorem counters_append {born : List Proc} (atCore : ∀ child ∈ born, child.pc = .core) :
    written (children ++ born) = written children ∧
      counters (children ++ born) = counters children ∧
      (children ++ born).countP (fun child => child.Failed) =
        children.countP fun child => child.Failed := by
  refine ⟨?_, ?_, ?_⟩
  · have none : born.filter (fun child => child.Wrote) = [] := by
      rw [List.filter_eq_nil_iff]
      intro child childMem
      simp [Proc.Wrote, atCore child childMem]
    rw [written, List.filter_append, none, List.append_nil, written]
  · have none : born.filter (fun child => child.HasRun) = [] := by
      rw [List.filter_eq_nil_iff]
      intro child childMem
      simp [Proc.HasRun, Proc.Wrote, atCore child childMem]
    rw [counters, List.filter_append, none, List.append_nil, counters]
  · have none : born.countP (fun child => child.Failed) = 0 := by
      rw [List.countP_eq_zero]
      intro child childMem
      simp [Proc.Failed, Proc.Gone, atCore child childMem]
    rw [List.countP_append, none, Nat.add_zero]

/-- Apart from `fscanf`, nothing which the original process does touches the reports. -/
theorem Sound.original_keeps {system : System}
    (sound : Sound program clients system original children pending) {action : Action}
    {effect : Effect} (noScan : action.isFscanf = false)
    (acted : original.act program (!system.hasWriter) system.pipe action = some effect) :
    effect.pipe = system.pipe ∧ effect.proc.pushedBack = original.pushedBack ∧
      (effect.proc.parent.totals = original.parent.totals ∨
        original.pc = .listening ∧ effect.proc.parent.totals = ⟨0, 0, 0⟩) := by
  have stage := sound.stage
  cases Proc.move_of_act acted with
  | @probe i here =>
      by_cases failed : i < 0
      · simp [failed]
      · simp [failed]
  | @pipe ret here =>
      by_cases failed : ret = 0
      · simp [failed]
      · simp [failed]
  | forkFails here failed => simp
  | fork here parentOf => simp
  | coreFails here _ | core here _ | openWriting here | report here =>
      simp only [Stage, here] at stage
  | @openReading opened here =>
      cases opened with
      | true => exact ⟨rfl, rfl, .inr ⟨here, rfl⟩⟩
      | false => exact ⟨rfl, rfl, .inl rfl⟩
  | fscanf here read => exact absurd noScan (by simp [Action.isFscanf])
  | kill => exact ⟨rfl, rfl, .inl rfl⟩

/-- With `fscanf`, the original process takes the first of the lines which are waiting. -/
theorem Sound.fscanf_effect {system : System}
    (sound : Sound program clients system original children pending) {effect : Effect}
    (acted : original.act program (!system.hasWriter) system.pipe .fscanf = some effect) :
    ∃ report later, pending = report :: later ∧ effect.child = none ∧
      effect.proc.parent = original.parent.take program (program.values report) ∧
      effect.proc.pushedBack ++ effect.pipe = '\n' :: later.flatMap program.line ∧
      Returning.scanned program system = some report.speed.toInt := by
  cases Proc.move_of_act acted with
  | @fscanf parent rest here read =>
      have stage := sound.stage
      simp only [Stage, here] at stage
      have isOpen := sound.hasWriter stage.2.1
      rw [isOpen, Bool.not_true] at read
      rcases sound.fscanf_cases here read with ⟨report, later, rfl, taken, behind⟩
      refine ⟨report, later, rfl, rfl, ?_, ?_, ?_⟩
      · rw [← taken]
        split
        · rfl
        · rfl
      · rw [← behind]
        split
        · exact List.take_append_drop 1 rest
        · exact List.take_append_drop 1 rest
      · rcases sound.input with ⟨space, isBlank, input⟩
        have numbers := @Scan.numbers_line_append false _ (values_ne_nil program report) space
          (later.flatMap program.line) isBlank
        rw [length_values] at numbers
        rw [Returning.scanned, sound.procs, List.head?_cons, Option.bind_some, isOpen, input,
          List.flatMap_cons, Program.line, Bool.not_true, numbers]
        cases program with
        | testBench => rfl
        | someipBench => rfl

namespace Tallied

/-- The lines in the pipe are all which have been written and not read. -/
theorem sound_of_lines {system : System} {other : List Report}
    (after : Sound program clients system original children other)
    (input : ∃ space, (∀ char ∈ space, Decimal.isSpace char = true) ∧
      original.pushedBack ++ system.pipe = space ++ pending.flatMap program.line)
    (left : (read.length : ℤ) + original.parent.clients = clients)
    (lines : (read ++ pending).Perm (written children)) :
    Sound program clients system original children pending := by
  refine ⟨after.procs, after.isChild, after.stage, input, ?_⟩
  have counted := lines.length_eq
  rw [List.length_append, written, List.length_map, ← List.countP_eq_length_filter] at counted
  omega

theorem original_act
    (tallied : Tallied program clients past returning original children read pending lost)
    {effect : Effect}
    (acted : original.act program (!returning.system.hasWriter) returning.system.pipe
      event.action = some effect)
    (noScan : event.action.isFscanf = false) (sameI : next.i = returning.i)
    (newPipe : next.system.pipe = effect.pipe) {other : List Report}
    (after : Sound program clients next.system effect.proc (children ++ effect.child.toList)
      other) :
    next.Settles program clients (past ++ [event]) := by
  rcases tallied.sound.original_effect acted with ⟨noCore, taken, _⟩
  rcases tallied.sound.original_keeps noScan acted with ⟨samePipe, pushedBack, totals⟩
  have born : ∀ child ∈ effect.child.toList, child.pc = .core :=
    fun child childMem => Proc.core_of_act acted (Option.mem_toList.mp childMem)
  rcases @counters_append children _ born with ⟨sameWritten, sameCounters, sameFailed⟩
  have left : (read.length : ℤ) + effect.proc.parent.clients = clients := by
    have before := tallied.left
    simp only [noScan, Bool.false_eq_true, if_false] at taken
    omega
  have lines : (read ++ pending).Perm (written (children ++ effect.child.toList)) := by
    rw [sameWritten]
    exact tallied.lines
  refine ⟨_, _, read, pending, lost, sound_of_lines after ?_ left lines, left, ?_, lines,
    sameI ▸ tallied.last, ?_, ?_⟩
  · rw [pushedBack, newPipe, samePipe]
    exact tallied.sound.input
  · rcases totals with same | ⟨listening, reset⟩
    · rw [same, tallied.totals]
    · have stage := tallied.sound.stage
      have before := tallied.left
      simp only [Stage, listening] at stage
      have nothing : read = [] := List.length_eq_zero_iff.mp (by omega)
      rw [reset, nothing]
      rfl
  · rw [runs_concat, run?_of_not_core noCore, Option.toList_none, List.append_nil, sameCounters]
    exact tallied.ran
  · rw [sameFailed]
    exact tallied.few

/-- The original process reads the first of the lines which are waiting. -/
theorem fscanf
    (tallied : Tallied program clients past returning original children read pending lost)
    (scans : event.action = .fscanf) {effect : Effect}
    (acted : original.act program (!returning.system.hasWriter) returning.system.pipe
      event.action = some effect)
    (newI : next.i = (Returning.scanned program returning.system).getD returning.i)
    (newPipe : next.system.pipe = effect.pipe) {other : List Report}
    (after : Sound program clients next.system effect.proc (children ++ effect.child.toList)
      other) :
    next.Settles program clients (past ++ [event]) := by
  rw [scans] at acted
  rcases tallied.sound.fscanf_effect acted with
    ⟨report, later, rfl, childless, parent, input, scanned⟩
  rw [childless, Option.toList_none, List.append_nil] at after
  rw [take_values] at parent
  have left : ((read ++ [report]).length : ℤ) + effect.proc.parent.clients = clients := by
    have before := tallied.left
    rw [parent, List.length_append, List.length_singleton]
    push_cast
    omega
  have lines : ((read ++ [report]) ++ later).Perm (written children) := by
    rw [List.append_assoc, List.singleton_append]
    exact tallied.lines
  refine ⟨_, _, read ++ [report], later, lost, sound_of_lines after ?_ left lines, left, ?_,
    lines, ?_, ?_, tallied.few⟩
  · rw [newPipe, input]
    exact ⟨['\n'], List.forall_mem_singleton.mpr rfl, rfl⟩
  · rw [parent, gather_append_singleton, ← tallied.totals]
  · intro last isLast
    rw [List.getLast?_concat, Option.mem_some_iff] at isLast
    rw [newI, scanned, isLast, Option.getD_some]
  · rw [runs_concat, scans]
    simpa [Action.run?] using tallied.ran

theorem child_act
    (tallied : Tallied program clients past returning original children read pending lost)
    {index : ℕ} {child : Proc} (found : children[index]? = some child) {eof : Bool}
    {effect : Effect}
    (acted : child.act program eof returning.system.pipe event.action = some effect)
    (sameI : next.i = returning.i) (newPipe : next.system.pipe = effect.pipe)
    {other : List Report}
    (after : Sound program clients next.system original (children.set index effect.proc)
      other) :
    next.Settles program clients (past ++ [event]) := by
  have isChild := tallied.sound.isChild child (List.mem_of_getElem? found)
  have alive := Proc.not_gone_of_act acted
  have silent : ¬child.Wrote := fun wrote => alive wrote.gone
  have unfailed : ¬child.Failed := fun failed => alive failed.1
  rcases exists_others found with ⟨others, before, behind⟩
  have oldWritten := written_perm before
  have newWritten := written_perm (behind effect.proc)
  have oldCounters := counters_perm before
  have newCounters := counters_perm (behind effect.proc)
  have oldFailed := before.countP_eq fun child => decide child.Failed
  have newFailed := (behind effect.proc).countP_eq fun child => decide child.Failed
  rw [written_cons, if_neg silent] at oldWritten
  rw [written_cons] at newWritten
  rw [counters_cons] at oldCounters newCounters
  simp only [List.countP_cons, unfailed, decide_false, Bool.false_eq_true, if_false,
    Nat.add_zero] at oldFailed
  rw [List.countP_cons] at newFailed
  have few : lost.length ≤ (children.set index effect.proc).countP fun child => child.Failed := by
    have before := tallied.few
    omega
  have noLine : effect.pipe = returning.system.pipe →
      ∃ space, (∀ char ∈ space, Decimal.isSpace char = true) ∧
        original.pushedBack ++ next.system.pipe = space ++ pending.flatMap program.line := by
    intro same
    rw [newPipe, same]
    exact tallied.sound.input
  have unwritten : ¬effect.proc.Wrote →
      (read ++ pending).Perm (written (children.set index effect.proc)) := by
    intro unwritten
    rw [if_neg unwritten] at newWritten
    exact tallied.lines.trans (oldWritten.trans newWritten.symm)
  have noRuns : event.action.run? = none → runs (past ++ [event]) = runs past := by
    intro noRun
    rw [runs_concat, noRun, Option.toList_none, List.append_nil]
  have kept : child.HasRun → effect.proc.HasRun → effect.proc.parent = child.parent →
      (counters children).Perm (counters (children.set index effect.proc)) := by
    intro before behind same
    rw [if_pos before] at oldCounters
    rw [if_pos behind, same] at newCounters
    exact oldCounters.trans newCounters.symm
  cases Proc.Counts.of_act isChild acted with
  | @ran run here asked there totals same =>
      have lines := unwritten (by simp [Proc.Wrote, there])
      refine ⟨_, _, read, pending, lost, sound_of_lines after (noLine same) tallied.left lines,
        tallied.left, tallied.totals, lines, sameI ▸ tallied.last, ?_, few⟩
      rw [if_pos (.inl there), totals] at newCounters
      rw [if_neg (by simp [Proc.HasRun, Proc.Wrote, here])] at oldCounters
      rw [runs_concat, asked, Option.toList_some, List.map_append, List.map_singleton]
      have added := (tallied.ran.trans (oldCounters.append_right lost)).append_right
        [Report.ofRun program run]
      exact added.trans (List.perm_append_comm.trans (newCounters.append_right lost).symm)
  | opened here noRun there same samePipe =>
      have lines := unwritten (by simp [Proc.Wrote, there])
      refine ⟨_, _, read, pending, lost, sound_of_lines after (noLine samePipe) tallied.left lines,
        tallied.left, tallied.totals, lines, sameI ▸ tallied.last, ?_, few⟩
      rw [noRuns noRun]
      exact tallied.ran.trans ((kept (.inl here) (.inr (.inl there)) same).append_right lost)
  | wrote here noRun there same line =>
      rw [if_pos there, same] at newWritten
      have lines : (read ++ (pending ++ [child.parent.totals])).Perm
          (written (children.set index effect.proc)) := by
        rw [← List.append_assoc]
        have added := (tallied.lines.trans oldWritten).append_right [child.parent.totals]
        exact added.trans (List.perm_append_comm.trans newWritten.symm)
      refine ⟨_, _, read, pending ++ [child.parent.totals], lost,
        sound_of_lines after ?_ tallied.left lines, tallied.left, tallied.totals, lines,
        sameI ▸ tallied.last, ?_, few⟩
      · rcases tallied.sound.input with ⟨space, isBlank, input⟩
        refine ⟨space, isBlank, ?_⟩
        rw [newPipe, line, ← List.append_assoc, input, List.flatMap_append,
          List.flatMap_singleton, List.append_assoc]
      · rw [noRuns noRun]
        exact tallied.ran.trans
          ((kept (.inr (.inl here)) (.inr (.inr there)) same).append_right lost)
  | failed _ noRun there same =>
      have lines := unwritten there.2
      have stopped : ¬effect.proc.HasRun := by
        rintro (opening | reporting | wrote)
        · simp [Proc.Failed, Proc.Gone, opening] at there
        · simp [Proc.Failed, Proc.Gone, reporting] at there
        · exact there.2 wrote
      rw [if_neg stopped] at newCounters
      have ran := tallied.ran.trans (oldCounters.append_right lost)
      by_cases counted : child.HasRun
      · -- what the child has counted is lost with it
        refine ⟨_, _, read, pending, child.parent.totals :: lost,
          sound_of_lines after (noLine same) tallied.left lines, tallied.left, tallied.totals,
          lines, sameI ▸ tallied.last, ?_, ?_⟩
        · rw [if_pos counted] at ran
          rw [noRuns noRun]
          have moved := ran.trans List.perm_middle.symm
          exact moved.trans (newCounters.append_right _).symm
        · have before := tallied.few
          simp only [there, decide_true, if_true] at newFailed
          rw [List.length_cons]
          omega
      · refine ⟨_, _, read, pending, lost, sound_of_lines after (noLine same) tallied.left lines,
          tallied.left, tallied.totals, lines, sameI ▸ tallied.last, ?_, few⟩
        rw [if_neg counted] at ran
        rw [noRuns noRun]
        exact ran.trans (newCounters.append_right lost).symm

end Tallied

namespace Returning

theorem settles_start (program : Program) (clients : ℤ) :
    Settles program clients [] (start clients) := by
  refine ⟨_, [], [], [], [], ⟨rfl, List.forall_mem_nil _, ⟨rfl, rfl, rfl⟩, ?_, ?_⟩, ?_, rfl,
    .refl _, ?_, .refl _, Nat.le_refl 0⟩
  · exact ⟨[], List.forall_mem_nil _, rfl⟩
  · simp [Parent.start]
  · simp [Parent.start]
  · simp

theorem Settles.step (positive : 1 ≤ clients) (settles : Settles program clients past returning)
    (stepped : returning.step program event = some next) :
    Settles program clients (past ++ [event]) next := by
  rcases settles with ⟨original, children, read, pending, lost, tallied⟩
  rcases Option.map_eq_some_iff.mp stepped with ⟨system, moved, rfl⟩
  simp only [System.step, tallied.sound.procs] at moved
  cases who : event.who with
  | zero =>
      simp only [who, List.getElem?_cons_zero] at moved
      rcases Option.map_eq_some_iff.mp moved with ⟨effect, acted, rfl⟩
      rcases tallied.sound.original_act positive acted with ⟨other, after⟩
      cases scans : event.action with
      | fscanf =>
          have reads : event.reads = true := by simp [Event.reads, who, scans, Action.isFscanf]
          exact tallied.fscanf scans acted (if_pos reads) rfl after
      | _ =>
          have noScan : event.action.isFscanf = false := by rw [scans]; rfl
          have stays : event.reads = false := by simp [Event.reads, noScan]
          exact tallied.original_act acted noScan (if_neg (by simp [stays])) rfl after
  | succ index =>
      simp only [who, List.getElem?_cons_succ] at moved
      cases found : children[index]? with
      | none => simp [found] at moved
      | some child =>
          simp only [found] at moved
          rcases Option.map_eq_some_iff.mp moved with ⟨effect, acted, rfl⟩
          rcases tallied.sound.child_act found acted with ⟨none, other, after⟩
          have stays : event.reads = false := by simp [Event.reads, who]
          simp only [none, Option.toList_none, List.append_nil, List.set_cons_succ]
          exact tallied.child_act found acted (if_neg (by simp [stays])) rfl after

end Returning

/-- When the original process has printed the totals, it has added up what every child has
counted, and nothing else. -/
theorem Tallied.reported
    (tallied : Tallied program clients past returning original children read pending lost)
    (reported : original.pc = .reported) :
    (∀ child ∈ children, child.Wrote) ∧ (children.length : ℤ) = clients ∧
      read.Perm ((runs past).map (.ofRun program)) := by
  have stage := tallied.sound.stage
  simp only [Stage, reported] at stage
  have left := tallied.left
  have lengths := tallied.lines.length_eq
  rw [List.length_append, written, List.length_map, ← List.countP_eq_length_filter] at lengths
  have atMost := @List.countP_le_length _ (fun child : Proc => decide child.Wrote) children
  have nothing : pending = [] := List.length_eq_zero_iff.mp (by omega)
  have every : ∀ child ∈ children, child.Wrote := by
    have all : children.countP (fun child => child.Wrote) = children.length := by omega
    rw [List.countP_eq_length] at all
    exact fun child childMem => of_decide_eq_true (all child childMem)
  have noneFailed : children.countP (fun child => child.Failed) = 0 := by
    rw [List.countP_eq_zero]
    intro child childMem failed
    exact (of_decide_eq_true failed).2 (every child childMem)
  have noneLost : lost = [] := by
    have few := tallied.few
    rw [noneFailed] at few
    exact List.length_eq_zero_iff.mp (Nat.le_zero.mp few)
  have same : written children = counters children := by
    rw [written, counters, List.filter_eq_self.mpr, List.filter_eq_self.mpr]
    · exact fun child childMem => decide_eq_true (.inr (.inr (every child childMem)))
    · exact fun child childMem => decide_eq_true (every child childMem)
  have lines := tallied.lines
  have ran := tallied.ran
  rw [nothing, List.append_nil, same] at lines
  rw [noneLost, List.append_nil] at ran
  exact ⟨every, stage.1.symm ▸ rfl, lines.trans ran.symm⟩

/-- `bench` returns the first number of the last report. -/
theorem Tallied.status
    (tallied : Tallied program clients past returning original children read pending lost)
    (positive : 1 ≤ clients) (reported : original.pc = .reported) :
    ∃ report ∈ read, returning.status = some report.speed.toInt := by
  have stage := tallied.sound.stage
  simp only [Stage, reported] at stage
  have left := tallied.left
  have nonempty : read ≠ [] := by
    rintro rfl
    rw [List.length_nil] at left
    omega
  have isLast := List.getLast?_eq_getLast_of_ne_nil nonempty
  refine ⟨_, List.getLast_mem nonempty, ?_⟩
  rw [Returning.status, tallied.sound.procs, List.head?_cons, Option.bind_some, reported]
  exact congrArg some (tallied.last _ isLast)

theorem Returning.tallied_of_run {c : ℤ} (nonneg : 0 ≤ c) {events : List Event}
    {final : Returning}
    (ran : Machine.run (Returning.step program) (.start (mainClients c)) events = some final)
    (procs : final.system.procs = original :: children) :
    ∃ read pending lost,
      Tallied program (max 1 c) events final original children read pending lost := by
  have asked : mainClients c = max 1 c := by
    rw [mainClients]
    split
    · omega
    · omega
  rw [asked] at ran
  rcases Machine.run_history_invariant (Returning.Settles program (max 1 c))
      (fun settles stepped => settles.step (le_max_left 1 c) stepped)
      (Returning.settles_start program (max 1 c)) ran with
    ⟨original', children', read, pending, lost, tallied⟩
  have same := tallied.sound.procs
  rw [procs, List.cons.injEq] at same
  rcases same with ⟨rfl, rfl⟩
  exact ⟨read, pending, lost, tallied⟩

/--
For every number of clients, every order in which the processes take their steps and all that
the calls return: if the original process prints its totals, then there is a child for every
client, each has come out of `benchcore` once and has written its line, the totals are the sums
of what the clients have counted, and what `bench` returns is the number of successes of one of
the clients.
-/
theorem printed_of_run (program : Program) {c : ℤ} (nonneg : 0 ≤ c) {events : List Event}
    {final : Returning}
    (ran : Machine.run (Returning.step program) (.start (mainClients c)) events = some final)
    {original : Proc} {children : List Proc} (procs : final.system.procs = original :: children)
    (reported : original.pc = .reported) :
    ((children.length : ℤ) = max 1 c ∧ ∀ child ∈ children, child.Wrote) ∧
      ((runs events).length : ℤ) = max 1 c ∧
      original.parent.totals =
        gather program ⟨0, 0, 0⟩ ((runs events).map (.ofRun program)) ∧
      ∃ run ∈ runs events, final.status = some (Report.ofRun program run).speed.toInt := by
  rcases Returning.tallied_of_run nonneg ran procs with ⟨read, pending, lost, tallied⟩
  rcases tallied.reported reported with ⟨every, whole, order⟩
  have count : ((runs events).length : ℤ) = max 1 c := by
    have stage := tallied.sound.stage
    simp only [Stage, reported] at stage
    have left := tallied.left
    have lengths := order.length_eq
    rw [List.length_map] at lengths
    omega
  refine ⟨⟨whole, every⟩, count, ?_, ?_⟩
  · rw [tallied.totals]
    exact gather_perm order ⟨0, 0, 0⟩
  · rcases tallied.status (le_max_left 1 c) reported with ⟨report, reportMem, status⟩
    rcases List.mem_map.mp (order.subset reportMem) with ⟨run, runMem, rfl⟩
    exact ⟨run, runMem, status⟩

/-- Two clients, with one success out of four attempts. -/
def Returning.sampleEvents : List Event :=
  [⟨0, .probe 5⟩, ⟨0, .pipe 0⟩, ⟨0, .fork 201⟩, ⟨0, .fork 202⟩,
    ⟨1, .benchcore 0 [.reading (List.replicate 16 0x61), .reading errRes]⟩,
    ⟨2, .benchcore 0 [.reading errRes, .reading errRes]⟩, ⟨0, .fdopen true⟩,
    ⟨2, .fdopen true⟩, ⟨2, .report⟩, ⟨0, .fscanf⟩, ⟨1, .fdopen true⟩, ⟨1, .report⟩, ⟨0, .fscanf⟩]

theorem Returning.exists_sample :
    ∃ final original children,
      Machine.run (step .testBench) (start (mainClients 2)) sampleEvents = some final ∧
        final.system.procs = original :: children ∧ original.pc = .reported ∧
        final.status = some 1 := by
  rcases @Machine.exists_run_of_any _ _ (step .testBench) (start (mainClients 2)) sampleEvents
      (fun final => final.system.procs.head?.map Proc.pc = some .reported ∧
        final.status = some 1) (by decide +kernel) with ⟨final, ran, shown⟩
  rcases of_decide_eq_true shown with ⟨reported, status⟩
  rcases Option.map_eq_some_iff.mp reported with ⟨original, first, atEnd⟩
  rcases List.head?_eq_some_iff.mp first with ⟨children, procs⟩
  exact ⟨final, original, children, ran, procs, atEnd, status⟩

theorem printed_of_run_sample :
    ∃ final original children,
      Machine.run (Returning.step .testBench) (.start (mainClients 2)) Returning.sampleEvents =
        some final ∧ final.system.procs = original :: children ∧
      original.parent.totals = gather .testBench ⟨0, 0, 0⟩ [⟨1, 0, 100⟩, ⟨0, 1, 0⟩] := by
  rcases Returning.exists_sample with ⟨final, original, children, ran, procs, reported, _⟩
  exact ⟨final, original, children, ran, procs,
    (printed_of_run .testBench (by decide) ran procs reported).2.2.1⟩

section Attempts

/-- The calls of an iteration succeed, and the reply passes the check. -/
def Answers.Succeeds (answers : Answers) : Prop :=
  answers.resolved = true ∧ 0 ≤ answers.socket ∧ 0 ≤ answers.connect ∧ rlen = answers.writen ∧
    answers.shutdown = 0 ∧ 16 ≤ answers.reply.length ∧ Accepted answers.reply ∧ answers.close = 0

instance (answers : Answers) : Decidable answers.Succeeds :=
  inferInstanceAs (Decidable (_ ∧ _ ∧ _ ∧ _ ∧ _ ∧ _ ∧ _ ∧ _))

/-- `someip_socket` counts nothing. -/
theorem someipSocket_counts {process opened : Process} {answers : Answers} {s : ℤ}
    (socket : someipSocket process answers = (s, opened)) :
    opened.speed = process.speed ∧ opened.failed = process.failed ∧
      (¬s < 0 ↔ answers.resolved = true ∧ 0 ≤ answers.socket ∧ 0 ≤ answers.connect) := by
  rw [someipSocket] at socket
  by_cases resolved : answers.resolved = true
  · rw [if_pos resolved] at socket
    by_cases refused : answers.socket < 0
    · rw [if_pos refused, Prod.mk.injEq] at socket
      rcases socket with ⟨rfl, rfl⟩
      exact ⟨rfl, rfl, by simp [refused]⟩
    · rw [if_neg refused] at socket
      by_cases unconnected : answers.connect < 0
      · simp only [unconnected, if_true, Prod.mk.injEq] at socket
        rcases socket with ⟨rfl, rfl⟩
        exact ⟨rfl, rfl, by simp [unconnected]⟩
      · simp only [unconnected, if_false, Prod.mk.injEq] at socket
        rcases socket with ⟨rfl, rfl⟩
        exact ⟨rfl, rfl, by simp [resolved, not_lt.mp refused, not_lt.mp unconnected]⟩
  · rw [if_neg resolved, Prod.mk.injEq] at socket
    rcases socket with ⟨rfl, rfl⟩
    exact ⟨rfl, rfl, by simp [resolved]⟩

/-- Every iteration adds to one of the two counters. -/
theorem iteration_counts (process : Process) (answers : Answers) :
    (iteration program process answers).speed =
        process.speed + (if answers.Succeeds then 1 else 0) ∧
      (iteration program process answers).failed =
        process.failed + (if answers.Succeeds then 0 else 1) := by
  rcases socket : someipSocket process answers with ⟨s, opened⟩
  rcases someipSocket_counts socket with ⟨speed, failed, connects⟩
  simp only [iteration, socket]
  by_cases unconnected : s < 0
  · have fails : ¬answers.Succeeds :=
      fun succeeds => connects.mpr ⟨succeeds.1, succeeds.2.1, succeeds.2.2.1⟩ unconnected
    simp [unconnected, fails, speed, failed]
  have connected := connects.mp unconnected
  by_cases written : rlen ≠ answers.writen
  · have fails : ¬answers.Succeeds := fun succeeds => written succeeds.2.2.2.1
    simp [unconnected, written, fails, Process.fail, speed, failed]
  by_cases shut : answers.shutdown ≠ 0
  · have fails : ¬answers.Succeeds := fun succeeds => shut succeeds.2.2.2.2.1
    simp [unconnected, written, shut, fails, Process.fail, speed, failed]
  cases read : answers.readn with
  | error errno =>
      have fails : ¬answers.Succeeds := by
        intro succeeds
        have full := succeeds.2.2.2.2.2.1
        simp [Answers.reply, read] at full
      simp [unconnected, written, shut, fails, Process.fail, speed, failed]
  | data buf =>
      have reply : answers.reply = buf := by rw [Answers.reply, read]
      by_cases short : buf.length < 16
      · have fails : ¬answers.Succeeds :=
          fun succeeds => not_le.mpr short (reply ▸ succeeds.2.2.2.2.2.1)
        simp [unconnected, written, shut, short, fails, Process.fail, speed, failed]
      by_cases refused : ¬Accepted buf
      · have fails : ¬answers.Succeeds :=
          fun succeeds => refused (reply ▸ succeeds.2.2.2.2.2.2.1)
        simp [unconnected, written, shut, short, refused, fails, Process.fail, speed, failed]
      by_cases close : answers.close ≠ 0
      · have fails : ¬answers.Succeeds := fun succeeds => close succeeds.2.2.2.2.2.2.2
        simp [unconnected, written, shut, short, refused, close, fails, Process.fail, speed,
          failed]
      · have succeeds : answers.Succeeds :=
          ⟨connected.1, connected.2.1, connected.2.2, not_ne_iff.mp written, not_ne_iff.mp shut,
            reply ▸ not_lt.mp short, reply ▸ not_not.mp refused, not_ne_iff.mp close⟩
        simp [unconnected, written, shut, short, refused, close, succeeds, speed, failed]

theorem iterations_counts (process : Process) (run : List Answers) :
    (iterations program process run).speed =
        process.speed + run.countP (fun answers => answers.Succeeds) ∧
      (iterations program process run).failed =
        process.failed + run.countP (fun answers => ¬answers.Succeeds) := by
  induction run generalizing process with
  | nil => exact ⟨rfl, rfl⟩
  | cons answers run ih =>
      rcases @iteration_counts program process answers with ⟨speed, failed⟩
      rcases ih (iteration program process answers) with ⟨laterSpeed, laterFailed⟩
      rw [iterations_cons, laterSpeed, laterFailed, speed, failed, List.countP_cons,
        List.countP_cons]
      by_cases succeeds : answers.Succeeds
      · simp only [succeeds, if_true, decide_true, not_true_eq_false, decide_false,
          Bool.false_eq_true, if_false]
        omega
      · simp only [succeeds, if_false, decide_false, not_false_eq_true, decide_true,
          Bool.false_eq_true, if_true]
        omega

/-- One of the failures of a client is taken off. -/
theorem ofRun_counts (program : Program) (run : List Answers) :
    (Report.ofRun program run).speed =
        BitVec.ofNat 32 (run.countP fun answers => answers.Succeeds) ∧
      (Report.ofRun program run).failed =
        BitVec.ofNat 32 (run.countP (fun answers => ¬answers.Succeeds) - 1) := by
  rcases @iterations_counts program ⟨0, 0, 0, ∅⟩ run with ⟨speed, failed⟩
  rw [Nat.zero_add] at speed failed
  simp only [Report.ofRun, benchcore, Report.ofProcess, ne_eq, not_true_eq_false, if_false]
  split
  · rw [← speed, ← failed]
    exact ⟨rfl, rfl⟩
  · rw [← speed, ← failed]
    exact ⟨rfl, congrArg _ (by omega)⟩

theorem sum_map_ofNat {α : Type*} (count : α → ℕ) (values : List α) :
    (values.map fun value => BitVec.ofNat 32 (count value)).sum =
      BitVec.ofNat 32 (values.map count).sum := by
  induction values with
  | nil => rfl
  | cons value values ih => rw [List.map_cons, List.sum_cons, ih, List.map_cons, List.sum_cons,
      BitVec.ofNat_add]

theorem toInt_ofNat {count : ℕ} (small : count < 2 ^ 31) :
    (BitVec.ofNat 32 count).toInt = count := by
  rw [BitVec.toInt_ofNat']
  apply Int.bmod_eq_of_le_mul_two
  · omega
  · omega

/-- With one failure taken off each client which has had any, this is what is missing. -/
theorem sum_failures (runs : List (List Answers)) :
    (runs.map fun run => run.countP (fun answers => ¬answers.Succeeds) - 1).sum +
        runs.countP (fun run => ∃ answers ∈ run, ¬answers.Succeeds) =
      runs.flatten.countP fun answers => ¬answers.Succeeds := by
  induction runs with
  | nil => rfl
  | cons run runs ih =>
      rw [List.map_cons, List.sum_cons, List.countP_cons, List.flatten_cons, List.countP_append,
        ← ih]
      by_cases any : ∃ answers ∈ run, ¬answers.Succeeds
      · have some : 0 < run.countP fun answers => ¬answers.Succeeds := by
          rw [List.countP_pos_iff]
          rcases any with ⟨answers, answersMem, fails⟩
          exact ⟨answers, answersMem, decide_eq_true fails⟩
        simp only [any, decide_true, if_true]
        omega
      · have none : run.countP (fun answers => ¬answers.Succeeds) = 0 := by
          rw [List.countP_eq_zero]
          intro answers answersMem fails
          exact any ⟨answers, answersMem, of_decide_eq_true fails⟩
        simp only [any, decide_false, Bool.false_eq_true, if_false]
        omega

/--
In every run in which the clients make fewer than 2^31 attempts together, the original process
prints as successes the attempts in which every call succeeds and the reply passes the check,
and as failures all others, but for one of each client which has had any.
-/
theorem attempts_of_run (program : Program) {c : ℤ} (nonneg : 0 ≤ c) {events : List Event}
    {final : Returning}
    (ran : Machine.run (Returning.step program) (.start (mainClients c)) events = some final)
    {original : Proc} {children : List Proc} (procs : final.system.procs = original :: children)
    (reported : original.pc = .reported) (few : (runs events).flatten.length < 2 ^ 31) :
    original.parent.totals.speed.toInt =
        (runs events).flatten.countP (fun answers => answers.Succeeds) ∧
      original.parent.totals.failed.toInt +
          (runs events).countP (fun run => ∃ answers ∈ run, ¬answers.Succeeds) =
        (runs events).flatten.countP fun answers => ¬answers.Succeeds := by
  rcases Returning.tallied_of_run nonneg ran procs with ⟨read, pending, lost, tallied⟩
  rcases tallied.reported reported with ⟨every, whole, order⟩
  have speeds : (((runs events).map (.ofRun program)).map Report.speed).sum =
      BitVec.ofNat 32 ((runs events).flatten.countP fun answers => answers.Succeeds) := by
    rw [List.map_map, List.countP_flatten, ← sum_map_ofNat]
    exact congrArg _ (List.map_congr_left fun run _ => (ofRun_counts program run).1)
  have faileds : (((runs events).map (.ofRun program)).map Report.failed).sum =
      BitVec.ofNat 32 ((runs events).map fun run =>
        run.countP (fun answers => ¬answers.Succeeds) - 1).sum := by
    rw [List.map_map, ← sum_map_ofNat]
    exact congrArg _ (List.map_congr_left fun run _ => (ofRun_counts program run).2)
  have missing := sum_failures (runs events)
  have succeeded := @List.countP_le_length _ (fun answers : Answers => decide answers.Succeeds)
    (runs events).flatten
  have failed := @List.countP_le_length _ (fun answers : Answers => decide ¬answers.Succeeds)
    (runs events).flatten
  rw [tallied.totals, gather_perm order, gather_eq, speeds, faileds]
  simp only [zero_add]
  rw [toInt_ofNat (by omega), toInt_ofNat (by omega)]
  exact ⟨rfl, by omega⟩

theorem attempts_of_run_sample :
    ∃ final original children,
      Machine.run (Returning.step .testBench) (.start (mainClients 2)) Returning.sampleEvents =
        some final ∧ final.system.procs = original :: children ∧
      original.parent.totals.speed.toInt = 1 ∧ original.parent.totals.failed.toInt + 2 = 3 := by
  rcases Returning.exists_sample with ⟨final, original, children, ran, procs, reported, _⟩
  exact ⟨final, original, children, ran, procs,
    attempts_of_run .testBench (by decide) ran procs reported (by decide)⟩

end Attempts

end LoadBalance.Bench
