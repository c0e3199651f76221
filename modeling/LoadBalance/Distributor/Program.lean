import Mathlib.Logic.Function.Basic
import Mathlib.Tactic.Simps.Basic
import LoadBalance.Lib.Machine
import LoadBalance.Distributor.LoopBody

/-!
# The distributor and its descriptors

All of `algorithm_distributor.cc` which opens or closes a descriptor: `init_inner_mon`,
the start of `threadFunc` and its loop, and the files which the main thread writes. Beside
the variables of the program stands what only the system knows, which descriptors are open
and what each of them stands for.

A pass of the loop is one step. A descriptor which the main thread opens or closes during a
pass is none of the pass, so it might as well do so before the pass or after it.
-/

namespace LoadBalance.Distributor

/-- What an open descriptor stands for. -/
inductive Role (servers : ℕ) where
  /-- Open before `main`, like the standard streams. -/
  | inherited
  /-- A file which `mainThreadFunc` writes at its end. -/
  | file
  | listenInner
  | work (server : Fin servers)
  | monitor (server : Fin servers)
  | listenOuter
  | epoll
  /-- A connection of the outer port. Its number is never used again. -/
  | client (conn : ℕ)
deriving DecidableEq

/-- Where the program is: up to `connectMon` in `init_inner_mon`, then in `threadFunc`. -/
inductive Stage (servers : ℕ) where
  | listenInner
  | accept (server : Fin servers)
  /-- Behind `accept`, which has returned the descriptor. -/
  | connectMon (server : Fin servers) (newConnectionFd : Fd)
  | listenOuter
  | epollCreate
  | epollAdd
  | serving
  | halted (halt : Halt)
deriving DecidableEq

inductive Op where
  | add
  | del
deriving DecidableEq

/-- A successful `epoll_ctl`, with what its descriptor stood for. -/
structure Control (servers : ℕ) where
  op : Op
  fd : Fd
  role : Option (Role servers)
deriving DecidableEq

structure Program (servers : ℕ) where
  /-- The descriptors which were open before `main`. -/
  inherited : Finset Fd
  stage : Stage servers
  listenFdInner : Fd
  epollFd : Fd
  thread : Thread servers Byte
  /-- The entries of `events_` which the loop has not come to yet. -/
  ready : List (Fd × BitVec 32)
  /-- What the open descriptors stand for. -/
  table : Fd → Option (Role servers)
  /-- How many clients were accepted. -/
  conns : ℕ
  log : List (Control servers)

/-- A call, with what the system answers to it. -/
inductive Event (servers : ℕ) where
  /-- `GetListenFd`: the results of `socket`, `setsockopt`, `bind` and `listen`. -/
  | getListenFd (fd : Fd) (reuseAddr bound listened : ℤ)
  /-- `accept` in `init_inner_mon`. -/
  | accept (fd : Fd)
  /-- The results of `socket` and `connect`, and of the two calls of `setTcpNoDelay`. -/
  | connectMon (fd : Fd) (connected noDelayMon noDelay : ℤ)
  | epollCreate (fd : Fd)
  /-- The result of `epoll_ctl` for the listening socket. -/
  | epollAdd (result : ℤ)
  | epollWait (ready : List (Fd × BitVec 32))
  /-- A pass of the loop over `events_`. -/
  | pass (answers : Answers servers Byte)
  | openFile (fd : Fd)
  | closeFile (fd : Fd)
  /-- The main thread ends the process, after its reports or after a `read` which failed. -/
  | exitMain (finished : Bool)

/-- `GetListenFd` -/
def getListenFd (listenFd : Fd) (reuseAddr bound listened : ℤ) : Except Halt Fd :=
  if listenFd.toInt < 0 then .error (.assertion "listenFd >= 0")
  else if reuseAddr < 0 then .error (.exit "setsockopt  reuseport:")
  else if bound = -1 then .error (.assertion "ret != -1")
  else if listened = -1 then .error (.assertion "ret != -1")
  else .ok listenFd

/-- `accept` of `init_inner_mon` -/
def acceptInner (newConnectionFd : Fd) : Except Halt Fd :=
  if newConnectionFd.toInt < 0 then .error (.exit "inner connnect!") else .ok newConnectionFd

/-- `socket_connect_mon` -/
def socketConnectMon (cfd : Fd) (ret : ℤ) : Except Halt Fd :=
  if cfd.toInt < 0 then .error (.exit "mon socket")
  else if ret ≠ 0 then .error (.exit "mon connnect")
  else .ok cfd

/-- `socket_connect_mon` and the two calls of `setTcpNoDelay` behind it. -/
def connectMon (cfd : Fd) (connected noDelayMon noDelay : ℤ) : Except Halt Fd :=
  match socketConnectMon cfd connected, setTcpNoDelay noDelayMon, setTcpNoDelay noDelay with
  | .error halt, _, _ | .ok _, .error halt, _ | .ok _, .ok _, .error halt => .error halt
  | .ok monFd, .ok _, .ok _ => .ok monFd

/-- `epoll_create` -/
def epollCreate (epollFd : Fd) : Except Halt Fd :=
  if epollFd.toInt < 0 then .error (.assertion "epollFd >= 0") else .ok epollFd

namespace Stage

variable {servers : ℕ}

/-- The head of the loop in `init_inner_mon`. -/
def ofIndex (i : ℕ) : Stage servers :=
  if inside : i < servers then .accept ⟨i, inside⟩ else .listenOuter

/-- Behind `init_inner_mon`, where the two threads run. -/
def Initialised : Stage servers → Prop
  | .listenOuter | .epollCreate | .epollAdd | .serving => True
  | .listenInner | .accept _ | .connectMon _ _ | .halted _ => False

instance (stage : Stage servers) : Decidable stage.Initialised :=
  match stage with
  | .listenOuter | .epollCreate | .epollAdd | .serving => instDecidableTrue
  | .listenInner | .accept _ | .connectMon _ _ | .halted _ => instDecidableFalse

end Stage

namespace Program

variable {servers : ℕ}

def start (inherited : Finset Fd) : Program servers where
  inherited := inherited
  stage := .listenInner
  listenFdInner := 0
  epollFd := 0
  thread := {
    listenFdOuter := 0
    interest := ∅
    serverFdSet := ∅
    serversInner := fun _ => (0, 0)
    mess := .zero
  }
  ready := []
  table fd := if fd ∈ inherited then some .inherited else none
  conns := 0
  log := []

@[simps]
def setTable (program : Program servers) (fd : Fd) (role : Option (Role servers)) :
    Program servers :=
  { program with table := Function.update program.table fd role }

/-- An `epoll_ctl` on a descriptor. -/
@[simps]
def control (program : Program servers) (op : Op) (fd : Fd) : Program servers :=
  { program with log := program.log ++ [⟨op, fd, program.table fd⟩] }

/-- Go on with the result of a call, or end with its error. -/
def resume {β : Type} (program : Program servers) (result : Except Halt β)
    (next : β → Program servers) : Program servers :=
  match result with
  | .error halt => { program with stage := .halted halt }
  | .ok value => next value

/-- `servers_inner[i] = {newConnectionFd, mon_fd}` and the insertion into `serverFd_set`. -/
@[simps]
def storeServer (thread : Thread servers Byte) (server : Fin servers) (fds : Fd × Fd) :
    Thread servers Byte :=
  { thread with
    serversInner := Function.update thread.serversInner server fds
    serverFdSet := insert fds.1 thread.serverFdSet }

/-- What is left of one turn of the accept loop, beside the set of `epollFd`. -/
def acceptOne (program : Program servers) (fd : Fd) : Program servers :=
  { (program.setTable fd (some (.client program.conns))).control .add fd with
    conns := program.conns + 1 }

def perform (program : Program servers) : Call Byte → Program servers
  | .write _ _ => program
  | .close fd => (program.control .del fd).setTable fd none

/-- One pass of the loop. Only the listening socket is accepted from. -/
def pass (program : Program servers) (fd : Fd) (events : BitVec 32)
    (answers : Answers servers Byte) : Program servers :=
  program.resume (loopBody program.thread fd events answers) fun (thread, calls) =>
    let accepted := if fd = program.thread.listenFdOuter
      then (answers.accepted.map Prod.fst).foldl acceptOne program else program
    { calls.foldl perform accepted with thread := thread }

def step (program : Program servers) : Event servers → Option (Program servers)
  | .getListenFd fd reuseAddr bound listened =>
      match program.stage with
      | .listenInner =>
          some (program.resume (getListenFd fd reuseAddr bound listened) fun listenFd =>
            { program.setTable listenFd (some .listenInner) with
              stage := .ofIndex 0
              listenFdInner := listenFd })
      | .listenOuter =>
          some (program.resume (getListenFd fd reuseAddr bound listened) fun listenFd =>
            { program.setTable listenFd (some .listenOuter) with
              stage := .epollCreate
              thread := { program.thread with listenFdOuter := listenFd } })
      | _ => none
  | .accept fd =>
      match program.stage with
      | .accept server =>
          some (program.resume (acceptInner fd) fun newConnectionFd =>
            { program.setTable newConnectionFd (some (.work server)) with
              stage := .connectMon server newConnectionFd })
      | _ => none
  | .connectMon fd connected noDelayMon noDelay =>
      match program.stage with
      | .connectMon server newConnectionFd =>
          some (program.resume (connectMon fd connected noDelayMon noDelay) fun monFd =>
            { program.setTable monFd (some (.monitor server)) with
              stage := .ofIndex (server + 1)
              thread := storeServer program.thread server (newConnectionFd, monFd) })
      | _ => none
  | .epollCreate fd =>
      match program.stage with
      | .epollCreate =>
          some (program.resume (epollCreate fd) fun epollFd =>
            { program.setTable epollFd (some .epoll) with stage := .epollAdd, epollFd := epollFd })
      | _ => none
  | .epollAdd result =>
      match program.stage with
      | .epollAdd =>
          let listenFd := program.thread.listenFdOuter
          some (program.resume (epollCtlAdd program.thread.interest listenFd result) fun interest =>
            { program.control .add listenFd with
              stage := .serving
              thread := { program.thread with interest := interest } })
      | _ => none
  | .epollWait ready =>
      -- every registered descriptor is reported at most once
      if program.stage = .serving ∧ program.ready = [] ∧ (ready.map Prod.fst).Nodup ∧
          (ready.map Prod.fst).toFinset ⊆ program.thread.interest then
        some { program with ready := ready }
      else none
  | .pass answers =>
      match program.stage, program.ready with
      | .serving, (fd, events) :: ready =>
          some (({ program with ready := ready } : Program servers).pass fd events answers)
      | _, _ => none
  | .openFile fd =>
      if program.stage.Initialised then
        some (if fd.toInt < 0 then program else program.setTable fd (some .file))
      else none
  | .closeFile fd =>
      if program.stage.Initialised ∧ program.table fd = some .file then
        some (program.setTable fd none)
      else none
  | .exitMain finished =>
      let message := if finished then "finished!!" else "mon read <> 3*sizeof(double)"
      if program.stage.Initialised then some { program with stage := .halted (.exit message) }
      else none

/-- What is assumed of the system: a descriptor which a call returns was not open. -/
def ReturnsClosed (program : Program servers) : Event servers → Prop
  | .getListenFd fd _ _ _ | .accept fd | .connectMon fd _ _ _ | .epollCreate fd | .openFile fd =>
      0 ≤ fd.toInt → program.table fd = none
  | .pass answers =>
      program.ready.head?.map Prod.fst = some program.thread.listenFdOuter →
        (answers.accepted.map Prod.fst).Nodup ∧
          ∀ entry ∈ answers.accepted, program.table entry.1 = none
  | .epollAdd _ | .epollWait _ | .closeFile _ | .exitMain _ => True

instance (program : Program servers) (event : Event servers) :
    Decidable (program.ReturnsClosed event) :=
  match event with
  | .getListenFd fd _ _ _ | .accept fd | .connectMon fd _ _ _ | .epollCreate fd | .openFile fd =>
      inferInstanceAs (Decidable (0 ≤ fd.toInt → program.table fd = none))
  | .pass answers => inferInstanceAs (Decidable
      (program.ready.head?.map Prod.fst = some program.thread.listenFdOuter →
        (answers.accepted.map Prod.fst).Nodup ∧
          ∀ entry ∈ answers.accepted, program.table entry.1 = none))
  | .epollAdd _ | .epollWait _ | .closeFile _ | .exitMain _ => instDecidableTrue

/-- The descriptors which a step registers are all new, but `epoll_ctl` fails for one of them,
as the system lacks memory or watches. -/
def Refuses (program : Program servers) : Event servers → Prop
  | .epollAdd result => program.thread.listenFdOuter ∉ program.thread.interest ∧ result ≠ 0
  | .pass answers =>
      (answers.accepted.map Prod.fst).Nodup ∧
        (∀ fd ∈ answers.accepted.map Prod.fst, fd ∉ program.thread.interest) ∧
          ∃ entry ∈ answers.accepted, entry.2.2 ≠ 0
  | .getListenFd _ _ _ _ | .accept _ | .connectMon _ _ _ _ | .epollCreate _ | .epollWait _
  | .openFile _ | .closeFile _ | .exitMain _ => False

section Inherited

variable {program next : Program servers}

theorem inherited_resume {β : Type} {result : Except Halt β} {goOn : β → Program servers}
    (goesOn : ∀ value, (goOn value).inherited = program.inherited) :
    (program.resume result goOn).inherited = program.inherited := by
  cases result with
  | error halt => rfl
  | ok value => exact goesOn value

theorem inherited_foldl {β : Type} {act : Program servers → β → Program servers}
    (keeps : ∀ program item, (act program item).inherited = program.inherited) (list : List β) :
    (list.foldl act program).inherited = program.inherited := by
  induction list generalizing program with
  | nil => rfl
  | cons item list ih => exact ih.trans (keeps program item)

theorem inherited_pass (fd : Fd) (events : BitVec 32) (answers : Answers servers Byte) :
    (program.pass fd events answers).inherited = program.inherited := by
  apply inherited_resume
  rintro ⟨thread, calls⟩
  refine (inherited_foldl ?_ calls).trans ?_
  · intro program call
    cases call <;> rfl
  · split
    · apply inherited_foldl
      intro program fd
      rfl
    · rfl

theorem inherited_of_step {event : Event servers} (stepped : program.step event = some next) :
    next.inherited = program.inherited := by
  cases event with
  | pass answers =>
      simp only [step] at stepped
      split at stepped
      · cases stepped
        exact inherited_pass ..
      · cases stepped
  | getListenFd | accept | connectMon | epollCreate | epollAdd =>
      simp only [step] at stepped
      split at stepped
      all_goals cases stepped
      all_goals exact inherited_resume fun _ => rfl
  | epollWait | openFile | closeFile | exitMain =>
      simp only [step] at stepped
      split_ifs at stepped
      all_goals
        cases stepped
        rfl

end Inherited

end Program

end LoadBalance.Distributor
