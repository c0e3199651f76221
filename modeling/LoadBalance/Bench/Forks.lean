import LoadBalance.Bench.Reports

/-!
# The processes of a benchmark

`bench` of `test_bench.c` and of `someip_bench.c` as all processes execute it. A child is
a copy of its parent in the loop, with both ends of the pipe, and from then on only the
value of `pid` tells the two apart. Every step is what one process does with the result of
one call, so that the steps of the processes come in any order.
-/

namespace LoadBalance.Bench

/-- Where a process is in `bench`. -/
inductive Pc where
  /-- Before `someip_socket`, which tries whether there is a server. -/
  | probing
  | piping
  /-- Before `fork`. -/
  | forking
  | core
  /-- Before `fdopen` of the end for writing. -/
  | opening
  /-- Before `fprintf` and `fclose`. -/
  | reporting
  /-- Before `fdopen` of the end for reading. -/
  | listening
  /-- Before `fscanf`. -/
  | reading
  /-- The parent has left its loop and printed the totals. -/
  | reported
  | ended (status : ℤ)
  | killed
deriving DecidableEq, Repr

/-- A process. `parent` has the global variables. -/
structure Proc where
  pc : Pc
  pid : ℤ
  i : ℤ
  parent : Parent
  readEnd : Bool
  writeEnd : Bool
  /-- The byte which `fscanf` has read and given back to its stream. -/
  pushedBack : List Char
deriving DecidableEq

/-- What a process does next, with the result of the call. -/
inductive Action where
  | probe (i : ℤ)
  | pipe (ret : ℤ)
  /-- `fork`, with what it returns in the process which calls it. -/
  | fork (pid : ℤ)
  | benchcore (sigaction : ℤ) (run : List Answers)
  | fdopen (opened : Bool)
  | report
  | fscanf
  /-- A signal ends the process. -/
  | kill

/-- Neither a failure nor a signal ends the process. -/
def Action.Succeeds : Action → Prop
  | .benchcore sigaction _ => sigaction = 0
  | .fdopen opened => opened = true
  | .kill => False
  | _ => True

instance : ∀ action : Action, Decidable action.Succeeds
  | .benchcore _ _ => inferInstanceAs (Decidable (_ = _))
  | .fdopen _ => inferInstanceAs (Decidable (_ = _))
  | .kill => inferInstanceAs (Decidable False)
  | .probe _ | .pipe _ | .fork _ | .report | .fscanf => inferInstanceAs (Decidable True)

/-- What is left behind by an action: the process, the pipe, and the child, if one was forked. -/
structure Effect where
  proc : Proc
  pipe : List Char
  child : Option Proc
deriving DecidableEq

structure System where
  /-- The original process, and its children in the order in which they were forked. -/
  procs : List Proc
  pipe : List Char
deriving DecidableEq

structure Event where
  who : ℕ
  action : Action

/-- The counters of `benchcore`, as they are in the global variables. -/
def Report.ofProcess (process : Process) : Report where
  speed := BitVec.ofNat 32 process.speed
  failed := BitVec.ofNat 32 process.failed
  diff := process.diff

namespace Proc

/-- With the process, its descriptors go. -/
def leave (proc : Proc) (pc : Pc) : Proc :=
  { proc with pc, readEnd := false, writeEnd := false }

/-- The tests of `pid` behind the loop. -/
def behindLoop (proc : Proc) : Proc :=
  if proc.pid < 0 then proc.leave (.ended 3)
  else if proc.pid = 0 then { proc with pc := .core }
  else { proc with pc := .listening }

def loopHead (proc : Proc) : Proc :=
  if proc.i < proc.parent.clients then { proc with pc := .forking } else proc.behindLoop

def Gone (proc : Proc) : Prop :=
  match proc.pc with
  | .reported | .ended _ | .killed => True
  | _ => False

instance (proc : Proc) : Decidable proc.Gone := by
  unfold Gone
  split
  all_goals infer_instance

/-- A child which has written its line. -/
def Wrote (proc : Proc) : Prop := proc.pc = .ended 0

instance (proc : Proc) : Decidable proc.Wrote := inferInstanceAs (Decidable (_ = _))

def act (program : Program) (eof : Bool) (pipe : List Char) (proc : Proc) :
    Action → Option Effect
  | .probe i =>
      if proc.pc = .probing then
        some ⟨if i < 0 then proc.leave (.ended 1) else { proc with pc := .piping }, pipe, none⟩
      else none
  | .pipe ret =>
      if proc.pc = .piping then
        some ⟨if ret ≠ 0 then proc.leave (.ended 3)
          else { proc with i := 0, readEnd := true, writeEnd := true }.loopHead, pipe, none⟩
      else none
  | .fork pid =>
      if proc.pc = .forking then
        if pid < 0 then some ⟨{ proc with pid }.behindLoop, pipe, none⟩
        else if pid = 0 then none
        else some ⟨{ proc with pid, i := proc.i + 1 }.loopHead, pipe,
          some { proc with pid := 0 }.behindLoop⟩
      else none
  | .benchcore sigaction run =>
      if proc.pc = .core then
        match benchcore program ∅ sigaction run with
        | .error status => some ⟨proc.leave (.ended status), pipe, none⟩
        | .ok process =>
            some ⟨{ proc with
              pc := .opening
              parent := { proc.parent with totals := .ofProcess process } }, pipe, none⟩
      else none
  | .fdopen opened =>
      if proc.pc = .opening then
        some ⟨if opened then { proc with pc := .reporting } else proc.leave (.ended 3), pipe, none⟩
      else if proc.pc = .listening then
        some ⟨if opened then { proc with pc := .reading, parent := .start proc.parent.clients }
          else proc.leave (.ended 3), pipe, none⟩
      else none
  | .report =>
      if proc.pc = .reporting then
        some ⟨proc.leave (.ended 0), pipe ++ program.line proc.parent.totals, none⟩
      else none
  | .fscanf =>
      if proc.pc = .reading then
        -- the first byte behind the numbers has been taken out of the pipe
        (proc.parent.iteration program eof (proc.pushedBack ++ pipe)).map fun (parent, rest) =>
          let proc := { proc with parent, pushedBack := rest.take 1 }
          ⟨if parent.flow = .reading then proc else proc.leave .reported, rest.drop 1, none⟩
      else none
  | .kill => if proc.Gone then none else some ⟨proc.leave .killed, pipe, none⟩

end Proc

namespace System

/-- The state in which `bench` is called. -/
def start (clients : ℤ) : System where
  procs := [{
    pc := .probing
    pid := 0
    i := 0
    parent := .start clients
    readEnd := false
    writeEnd := false
    pushedBack := [] }]
  pipe := []

/-- Some process could still write into the pipe. -/
def hasWriter (system : System) : Bool := system.procs.any Proc.writeEnd

def step (program : Program) (system : System) (event : Event) : Option System :=
  match system.procs[event.who]? with
  | none => none
  | some proc =>
      (proc.act program (!system.hasWriter) system.pipe event.action).map fun effect =>
        { procs := system.procs.set event.who effect.proc ++ effect.child.toList
          pipe := effect.pipe }

/-- The parent waits in `fscanf` although all children are gone and the pipe is empty. -/
def Hung (program : Program) (system : System) : Prop :=
  ∃ original children, system.procs = original :: children ∧ original.pc = .reading ∧
    (∀ child ∈ children, child.Gone) ∧ system.pipe = [] ∧
    system.step program ⟨0, .fscanf⟩ = none

/-- The parent has printed the totals. -/
def Reported (system : System) : Prop :=
  ∃ original children, system.procs = original :: children ∧ original.pc = .reported

/-- A child only ends by writing its line. -/
def WritesLine (_ : System) (event : Event) : Prop := event.who = 0 ∨ event.action.Succeeds

instance (system : System) (event : Event) : Decidable (system.WritesLine event) :=
  inferInstanceAs (Decidable (_ ∨ _))

end System

end LoadBalance.Bench
