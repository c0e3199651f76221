import LoadBalance.Distributor.Program

/-!
# What the variables of the distributor say about its descriptors

The numbers of descriptors are used again, while `servers_inner`, `serverFd_set` and the
set of `epollFd` keep naming them. The invariant ties the tables to what is open: a
descriptor which is open in a role of the program is the one in the variable for this
role, and the set of `epollFd` holds those of the listening socket and of the clients.
This file states the invariant and shows it for everything in front of the loop.
-/

namespace LoadBalance.Distributor

variable {servers : ℕ}

/-- The process has ended in `EpollCtl_Add` or in `CloseConnect`. -/
def ControlFailed (halt : Halt) : Prop :=
  halt = .exit "epoll_ctl add" ∨ halt = .exit "epoll_ctl del"

instance (halt : Halt) : Decidable (ControlFailed halt) := inferInstanceAs (Decidable (_ ∨ _))

/-- A call returns this descriptor or ends the process, but not for a failing `epoll_ctl`. -/
def Opens (result : Except Halt Fd) (fd : Fd) : Prop :=
  match result with
  | .ok returned => returned = fd ∧ 0 ≤ fd.toInt
  | .error halt => ¬ControlFailed halt

theorem opens_getListenFd (fd : Fd) (reuseAddr bound listened : ℤ) :
    Opens (getListenFd fd reuseAddr bound listened) fd := by
  simp only [getListenFd]
  split_ifs with negative
  · simp [Opens, ControlFailed]
  · simp [Opens, ControlFailed]
  · simp [Opens, ControlFailed]
  · simp [Opens, ControlFailed]
  · exact ⟨rfl, not_lt.mp negative⟩

theorem opens_acceptInner (fd : Fd) : Opens (acceptInner fd) fd := by
  simp only [acceptInner]
  split_ifs with negative
  · simp [Opens, ControlFailed]
  · exact ⟨rfl, not_lt.mp negative⟩

theorem opens_epollCreate (fd : Fd) : Opens (epollCreate fd) fd := by
  simp only [epollCreate]
  split_ifs with negative
  · simp [Opens, ControlFailed]
  · exact ⟨rfl, not_lt.mp negative⟩

theorem opens_socketConnectMon (fd : Fd) (ret : ℤ) : Opens (socketConnectMon fd ret) fd := by
  simp only [socketConnectMon]
  split_ifs with negative
  · simp [Opens, ControlFailed]
  · simp [Opens, ControlFailed]
  · exact ⟨rfl, not_lt.mp negative⟩

theorem setTcpNoDelay_error {result : ℤ} {halt : Halt}
    (failed : setTcpNoDelay result = .error halt) : ¬ControlFailed halt := by
  simp only [setTcpNoDelay] at failed
  split_ifs at failed
  cases failed
  simp [ControlFailed]

theorem opens_connectMon (fd : Fd) (connected noDelayMon noDelay : ℤ) :
    Opens (connectMon fd connected noDelayMon noDelay) fd := by
  have connects := opens_socketConnectMon fd connected
  simp only [connectMon]
  split
  · rename_i failed
    rwa [failed] at connects
  · rename_i failed
    exact setTcpNoDelay_error failed
  · rename_i failed
    exact setTcpNoDelay_error failed
  · rename_i monFd _ _ made _ _
    rwa [made] at connects

/-- With new descriptors `EpollCtl_Add` ends the accept loop only where the system refuses. -/
theorem acceptLoop_error_of_fresh {interest : Finset Fd} {accepted : List (Fd × ℤ × ℤ)}
    {errno : Errno} {halt : Halt} (distinct : (accepted.map Prod.fst).Nodup)
    (fresh : ∀ fd ∈ accepted.map Prod.fst, fd ∉ interest)
    (failed : acceptLoop interest accepted errno = .error halt) :
    ¬ControlFailed halt ∨ halt = .exit "epoll_ctl add" ∧ ∃ entry ∈ accepted, entry.2.2 ≠ 0 := by
  induction accepted generalizing interest with
  | nil =>
      simp only [acceptLoop] at failed
      split_ifs at failed
      cases failed
      simp [ControlFailed]
  | cons first accepted ih =>
      rcases first with ⟨fd, noDelay, result⟩
      simp only [List.map_cons, List.nodup_cons, List.forall_mem_cons] at distinct fresh
      simp only [acceptLoop] at failed
      split at failed
      · rename_i delayed
        cases failed
        exact .inl (setTcpNoDelay_error delayed)
      · rename_i adding
        cases failed
        simp only [epollCtlAdd, fresh.1, false_or] at adding
        split at adding
        · rename_i refused
          cases adding
          exact .inr ⟨rfl, _, List.mem_cons_self, refused⟩
        · cases adding
      · rename_i adding
        rcases epollCtlAdd_eq_ok adding with ⟨_, rfl⟩
        have rest : ∀ other ∈ accepted.map Prod.fst, other ∉ insert fd interest := by
          intro other otherMem inserted
          rcases Finset.mem_insert.mp inserted with same | old
          · exact distinct.1 (same ▸ otherMem)
          · exact fresh.2 other otherMem old
        rcases ih distinct.2 rest failed with other | ⟨ended, entry, entryMem, refused⟩
        · exact .inl other
        · exact .inr ⟨ended, entry, List.mem_cons_of_mem _ entryMem, refused⟩

namespace Stage

/-- `listenFd_inner` is set. -/
def HasInner : Stage servers → Prop
  | .listenInner | .halted _ => False
  | .accept _ | .connectMon _ _ | .listenOuter | .epollCreate | .epollAdd | .serving => True

/-- The entry of the server in `servers_inner` is set. -/
def Stored (stage : Stage servers) (server : Fin servers) : Prop :=
  match stage with
  | .listenInner | .halted _ => False
  | .accept next | .connectMon next _ => server < next
  | .listenOuter | .epollCreate | .epollAdd | .serving => True

/-- `listenFd_outer` is set. -/
def HasOuter : Stage servers → Prop
  | .epollCreate | .epollAdd | .serving => True
  | .listenInner | .accept _ | .connectMon _ _ | .listenOuter | .halted _ => False

/-- `epollFd` is set. -/
def HasEpoll : Stage servers → Prop
  | .epollAdd | .serving => True
  | .listenInner | .accept _ | .connectMon _ _ | .listenOuter | .epollCreate | .halted _ => False

/-- What holds in the loop of `init_inner_mon` and behind it holds at the head of the loop. -/
theorem ofIndex_of_both {Holds : Stage servers → Prop} (i : ℕ)
    (accepting : ∀ server, Holds (.accept server)) (finished : Holds .listenOuter) :
    Holds (ofIndex i) := by
  simp only [ofIndex]
  split_ifs
  · exact accepting _
  · exact finished

@[simp]
theorem stored_ofIndex (i : ℕ) (server : Fin servers) :
    (ofIndex i).Stored server ↔ server.val < i := by
  simp only [ofIndex]
  split_ifs with inside
  · exact Iff.rfl
  · exact iff_of_true trivial (server.isLt.trans_le (not_lt.mp inside))

@[simp]
theorem hasInner_ofIndex (i : ℕ) : (ofIndex i : Stage servers).HasInner :=
  ofIndex_of_both i (fun _ => trivial) trivial

@[simp]
theorem not_hasOuter_ofIndex (i : ℕ) : ¬(ofIndex i : Stage servers).HasOuter :=
  @ofIndex_of_both _ (fun stage => ¬stage.HasOuter) i (fun _ => id) id

@[simp]
theorem not_hasEpoll_ofIndex (i : ℕ) : ¬(ofIndex i : Stage servers).HasEpoll :=
  @ofIndex_of_both _ (fun stage => ¬stage.HasEpoll) i (fun _ => id) id

@[simp]
theorem ofIndex_ne_connectMon (i : ℕ) (server : Fin servers) (fd : Fd) :
    ofIndex i ≠ .connectMon server fd :=
  @ofIndex_of_both _ (· ≠ .connectMon server fd) i (by simp) (by simp)

@[simp]
theorem ofIndex_ne_serving (i : ℕ) : (ofIndex i : Stage servers) ≠ .serving :=
  @ofIndex_of_both _ (· ≠ .serving) i (by simp) (by simp)

@[simp]
theorem ofIndex_ne_halted (i : ℕ) (halt : Halt) :
    (ofIndex i : Stage servers) ≠ .halted halt :=
  @ofIndex_of_both _ (· ≠ .halted halt) i (by simp) (by simp)

theorem Initialised.hasInner {stage : Stage servers} (initialised : stage.Initialised) :
    stage.HasInner := by
  cases stage <;> trivial

theorem Initialised.stored {stage : Stage servers} (initialised : stage.Initialised)
    (server : Fin servers) : stage.Stored server := by
  cases stage <;> trivial

end Stage

/-- The roles in which the program opens nothing more in its loop. -/
def Role.Own : Role servers → Prop
  | .inherited | .listenInner | .work _ | .monitor _ | .listenOuter | .epoll => True
  | .file | .client _ => False

/-- The roles whose descriptors are registered with `epollFd`. -/
def Role.Registered : Role servers → Prop
  | .listenOuter | .client _ => True
  | .inherited | .file | .listenInner | .work _ | .monitor _ | .epoll => False

namespace Program

variable {program next : Program servers}

/-- The variable of the program for this role is set to the descriptor. -/
def Names (program : Program servers) (fd : Fd) : Role servers → Prop
  | .inherited => fd ∈ program.inherited
  | .listenInner => program.stage.HasInner ∧ program.listenFdInner = fd
  | .work server =>
      program.stage = .connectMon server fd ∨
        (program.stage.Stored server ∧ (program.thread.serversInner server).1 = fd)
  | .monitor server =>
      program.stage.Stored server ∧ (program.thread.serversInner server).2 = fd
  | .listenOuter => program.stage.HasOuter ∧ program.thread.listenFdOuter = fd
  | .epoll => program.stage.HasEpoll ∧ program.epollFd = fd
  | .file | .client _ => False

/-- What is open in a role of the program is what the program takes for it. -/
def Agrees (program : Program servers) : Prop :=
  ∀ fd (role : Role servers), role.Own → (program.table fd = some role ↔ program.Names fd role)

/-- What only the loop changes: the set of `epollFd`, what it waits for, and the two logs. -/
def loopState (program : Program servers) :
    Finset Fd × List (Fd × BitVec 32) × ℕ × List (Control servers) :=
  (program.thread.interest, program.ready, program.conns, program.log)

/-- Nothing is registered and no client accepted. -/
structure Quiet (program : Program servers) : Prop where
  loopState : program.loopState = (∅, [], 0, [])
  clients : ∀ fd conn, program.table fd ≠ some (.client conn)

theorem Quiet.fields (quiet : program.Quiet) :
    program.thread.interest = ∅ ∧ program.ready = [] ∧ program.conns = 0 ∧ program.log = [] := by
  simpa only [Program.loopState, Prod.mk.injEq] using quiet.loopState

/-- The set of `epollFd` agrees with what is open and with the calls which filled it. -/
structure Enrolled (program : Program servers) : Prop where
  interest : ∀ fd, fd ∈ program.thread.interest ↔
    ∃ role : Role servers, role.Registered ∧ program.table fd = some role
  once : ∀ fd (role : Role servers), role.Registered → program.table fd = some role →
    program.log.count ⟨.add, fd, some role⟩ = 1 ∧ ⟨.del, fd, some role⟩ ∉ program.log
  /-- No number of a connection is used which is not given out yet. -/
  numbered : ∀ fd conn, program.table fd = some (.client conn) → conn < program.conns
  logged : ∀ entry ∈ program.log, ∀ conn, entry.role = some (.client conn) → conn < program.conns
  single : ∀ fd other conn, program.table fd = some (.client conn) →
    program.table other = some (.client conn) → fd = other
  /-- A connection keeps its descriptor until it is removed from the set. -/
  accounted : ∀ conn < program.conns, (∃ fd, program.table fd = some (.client conn)) ∨
    ∃ fd, ⟨.del, fd, some (.client conn)⟩ ∈ program.log
  distinct : (program.ready.map Prod.fst).Nodup
  waiting : ∀ fd ∈ program.ready.map Prod.fst, fd ∈ program.thread.interest

structure Sound (program : Program servers) : Prop where
  running : ∀ halt, program.stage ≠ .halted halt
  agrees : program.Agrees
  serverFdSet : ∀ fd, fd ∈ program.thread.serverFdSet ↔
    ∃ server, program.stage.Stored server ∧ (program.thread.serversInner server).1 = fd
  quiet : program.stage ≠ .serving → program.Quiet
  enrolled : program.stage = .serving → program.Enrolled

/-- The invariant: an end of the process is none by a failing `epoll_ctl`, unless the system
has refused to register a new descriptor. -/
inductive Kept (program : Program servers) (refused : Prop) : Prop where
  | running (sound : program.Sound)
  | halted (halt : Halt) (ended : program.stage = .halted halt)
      (other : ¬ControlFailed halt ∨ halt = .exit "epoll_ctl add" ∧ refused)

theorem Kept.imp {refused other : Prop} (kept : program.Kept refused)
    (weaken : refused → other) : program.Kept other := by
  cases kept with
  | running sound => exact .running sound
  | halted halt ended reason => exact .halted halt ended (reason.imp_right (And.imp_right weaken))

/-- A call which opens a descriptor, as all calls in front of the loop do. -/
theorem kept_resume {refused : Prop} {result : Except Halt Fd} {fd : Fd}
    {goOn : Fd → Program servers}
    (opens : Opens result fd) (returns : 0 ≤ fd.toInt → program.table fd = none)
    (goesOn : program.table fd = none → (goOn fd).Sound) :
    (program.resume result goOn).Kept refused := by
  cases result with
  | error halt => exact .halted halt rfl (.inl opens)
  | ok returned =>
      rcases opens with ⟨rfl, positive⟩
      exact .running (goesOn (returns positive))

/-- A descriptor is opened in a role for which the variable is set now. -/
theorem Agrees.opens (agrees : program.Agrees) {fd : Fd} {opened : Role servers}
    (closed : program.table fd = none)
    (table : next.table = Function.update program.table fd (some opened))
    (names : ∀ other (role : Role servers), role.Own →
      (next.Names other role ↔ program.Names other role ∨ (other = fd ∧ role = opened))) :
    next.Agrees := by
  intro other role own
  rw [table, names other role own, ← agrees other role own]
  by_cases same : other = fd
  · subst same
    simp [closed, eq_comm]
  · simp [same]

theorem Agrees.of_others (agrees : program.Agrees)
    (table : ∀ fd (role : Role servers), role.Own →
      (next.table fd = some role ↔ program.table fd = some role))
    (names : ∀ fd role, next.Names fd role ↔ program.Names fd role) : next.Agrees := by
  intro fd role own
  rw [table fd role own, names, agrees fd role own]

theorem Quiet.setTable (quiet : program.Quiet) {fd : Fd} {role : Option (Role servers)}
    (noClient : ∀ conn, role ≠ some (.client conn))
    (table : next.table = Function.update program.table fd role)
    (loopState : next.loopState = program.loopState) : next.Quiet where
  loopState := loopState.trans quiet.loopState
  clients other conn := by
    rw [table]
    by_cases same : other = fd
    · subst same
      simpa using noClient conn
    · simpa [same] using quiet.clients other conn

/-- Before the loop a descriptor is opened in a role of the program. -/
theorem Sound.opens (sound : program.Sound) (early : program.stage ≠ .serving) {fd : Fd}
    {opened : Role servers} (own : opened.Own) (closed : program.table fd = none)
    (table : next.table = Function.update program.table fd (some opened))
    (loopState : next.loopState = program.loopState)
    (running : ∀ halt, next.stage ≠ .halted halt) (notServing : next.stage ≠ .serving)
    (names : ∀ other (role : Role servers), role.Own →
      (next.Names other role ↔ program.Names other role ∨ (other = fd ∧ role = opened)))
    (serverFdSet : ∀ fd, fd ∈ next.thread.serverFdSet ↔
      ∃ server, next.stage.Stored server ∧ (next.thread.serversInner server).1 = fd) :
    next.Sound where
  running := running
  agrees := sound.agrees.opens closed table names
  serverFdSet := serverFdSet
  quiet _ := by
    apply (sound.quiet early).setTable _ table loopState
    rintro conn opening
    cases opening
    exact own
  enrolled serving := absurd serving notServing

theorem Sound.serverFdSet_of_stored (sound : program.Sound)
    (set : next.thread.serverFdSet = program.thread.serverFdSet)
    (inner : next.thread.serversInner = program.thread.serversInner)
    (stored : ∀ server, next.stage.Stored server ↔ program.stage.Stored server) (fd : Fd) :
    fd ∈ next.thread.serverFdSet ↔
      ∃ server, next.stage.Stored server ∧ (next.thread.serversInner server).1 = fd := by
  simp only [set, inner, stored, sound.serverFdSet]

section Starting

variable {fd : Fd}

/-- The entries in front of the next one, behind an assignment to `servers_inner[i]`. -/
theorem lt_succ_and_update_iff (entries : Fin servers → Fd × Fd) (server : Fin servers)
    (fds : Fd × Fd) (read : Fd × Fd → Fd) (other : Fin servers) :
    other.val < server.val + 1 ∧ read (Function.update entries server fds other) = fd ↔
      (other = server ∧ read fds = fd) ∨ (other < server ∧ read (entries other) = fd) := by
  by_cases same : other = server
  · subst same
    simp
  · have bound : other.val < server.val + 1 ↔ other < server := by
      have different := Fin.val_ne_of_ne same
      rw [Fin.lt_def]
      omega
    simp [same, bound]

theorem Sound.opens_listenInner (sound : program.Sound) (stage : program.stage = .listenInner)
    (closed : program.table fd = none) :
    Sound { program.setTable fd (some .listenInner) with
      stage := .ofIndex 0, listenFdInner := fd } := by
  refine sound.opens (by simp [stage]) ?_ closed rfl rfl (by simp) (by simp) ?_ ?_
  · trivial
  · intro other role own
    cases role <;> simp [Names, stage]
    · simp [Stage.HasInner, eq_comm]
    · simp [Stage.Stored]
    · simp [Stage.Stored]
    · simp [Stage.HasOuter]
    · simp [Stage.HasEpoll]
  · refine sound.serverFdSet_of_stored rfl rfl ?_
    intro server
    simp only [stage, Stage.stored_ofIndex]
    simp [Stage.Stored]

theorem Sound.opens_work (sound : program.Sound) {server : Fin servers}
    (stage : program.stage = .accept server) (closed : program.table fd = none) :
    Sound { program.setTable fd (some (.work server)) with stage := .connectMon server fd } := by
  refine sound.opens (by simp [stage]) ?_ closed rfl rfl (by simp) (by simp) ?_ ?_
  · trivial
  · intro other role own
    cases role <;> simp [Names, stage, Stage.HasInner, Stage.Stored, Stage.HasOuter,
      Stage.HasEpoll]
    tauto
  · refine sound.serverFdSet_of_stored rfl rfl ?_
    simp [stage, Stage.Stored]

theorem Sound.opens_monitor (sound : program.Sound) {server : Fin servers} {work : Fd}
    (stage : program.stage = .connectMon server work) (closed : program.table fd = none) :
    Sound { program.setTable fd (some (.monitor server)) with
      stage := .ofIndex (server + 1)
      thread := storeServer program.thread server (work, fd) } := by
  have updated := fun read other set => @lt_succ_and_update_iff _ set
    program.thread.serversInner server (work, fd) read other
  have before : ∀ other, program.stage.Stored other ↔ other < server := by
    simp [stage, Stage.Stored]
  refine sound.opens (by simp [stage]) ?_ closed rfl rfl (by simp) (by simp) ?_ ?_
  · trivial
  · intro other role own
    cases role <;> simp only [Names, before, storeServer, Stage.stored_ofIndex, updated Prod.fst,
      updated Prod.snd, Stage.hasInner_ofIndex, Stage.not_hasOuter_ofIndex,
      Stage.not_hasEpoll_ofIndex, Stage.ofIndex_ne_connectMon]
    · simp
    · exact own.elim
    · simp [stage, Stage.HasInner]
    · simp [stage, eq_comm]
    · simp [eq_comm, or_comm, and_comm]
    · simp [stage, Stage.HasOuter]
    · simp [stage, Stage.HasEpoll]
    · exact own.elim
  · intro other
    simp only [storeServer, Stage.stored_ofIndex, updated Prod.fst, Finset.mem_insert,
      sound.serverFdSet, before]
    simp [exists_or, eq_comm]

theorem Sound.opens_listenOuter (sound : program.Sound) (stage : program.stage = .listenOuter)
    (closed : program.table fd = none) :
    Sound { program.setTable fd (some .listenOuter) with
      stage := .epollCreate, thread := { program.thread with listenFdOuter := fd } } := by
  refine sound.opens (by simp [stage]) ?_ closed rfl rfl (by simp) (by simp) ?_ ?_
  · trivial
  · intro other role own
    cases role <;> simp [Names, stage, Stage.HasInner, Stage.Stored, Stage.HasOuter,
      Stage.HasEpoll, eq_comm]
  · refine sound.serverFdSet_of_stored rfl rfl ?_
    simp [stage, Stage.Stored]

theorem Sound.opens_epoll (sound : program.Sound) (stage : program.stage = .epollCreate)
    (closed : program.table fd = none) :
    Sound { program.setTable fd (some .epoll) with stage := .epollAdd, epollFd := fd } := by
  refine sound.opens (by simp [stage]) ?_ closed rfl rfl (by simp) (by simp) ?_ ?_
  · trivial
  · intro other role own
    cases role <;> simp [Names, stage, Stage.HasInner, Stage.Stored, Stage.HasOuter,
      Stage.HasEpoll, eq_comm]
  · refine sound.serverFdSet_of_stored rfl rfl ?_
    simp [stage, Stage.Stored]

theorem Sound.epollCtlAdd_eq (sound : program.Sound) (stage : program.stage = .epollAdd)
    (result : ℤ) :
    epollCtlAdd program.thread.interest program.thread.listenFdOuter result =
      if result ≠ 0 then .error (.exit "epoll_ctl add")
      else .ok {program.thread.listenFdOuter} := by
  have quiet := sound.quiet (by simp [stage])
  simp [epollCtlAdd, quiet.fields.1]

theorem Sound.registers (sound : program.Sound) (stage : program.stage = .epollAdd) :
    Sound { program.control .add program.thread.listenFdOuter with
      stage := .serving
      thread := { program.thread with interest := {program.thread.listenFdOuter} } } := by
  have quiet := sound.quiet (by simp [stage])
  rcases quiet.fields with ⟨_, ready, conns, log⟩
  have outer : ∀ fd, program.table fd = some .listenOuter ↔ program.thread.listenFdOuter = fd := by
    intro fd
    rw [sound.agrees fd .listenOuter trivial]
    simp [Names, stage, Stage.HasOuter]
  have only : ∀ fd (role : Role servers), role.Registered → program.table fd = some role →
      role = .listenOuter ∧ program.thread.listenFdOuter = fd := by
    intro fd role registered found
    cases role with
    | listenOuter => exact ⟨rfl, (outer fd).mp found⟩
    | client conn => exact absurd found (quiet.clients fd conn)
    | inherited | file | listenInner | work | monitor | epoll => exact registered.elim
  refine ⟨by simp, ?_, ?_, fun early => absurd rfl early, fun _ => ?_⟩
  · refine sound.agrees.of_others (fun _ _ _ => Iff.rfl) ?_
    intro fd role
    cases role <;> simp [Names, stage, Stage.HasInner, Stage.Stored, Stage.HasOuter,
      Stage.HasEpoll]
  · refine sound.serverFdSet_of_stored rfl rfl ?_
    simp [stage, Stage.Stored]
  · refine ⟨?_, ?_, ?_, ?_, ?_, ?_, ?_, ?_⟩
    · intro fd
      simp only [control_table, Finset.mem_singleton]
      constructor
      · rintro rfl
        exact ⟨.listenOuter, trivial, (outer _).mpr rfl⟩
      · rintro ⟨role, registered, found⟩
        exact (only fd role registered found).2.symm
    · intro fd role registered found
      rcases only fd role registered found with ⟨rfl, rfl⟩
      simp [log, (outer _).mpr]
    · intro fd conn found
      exact absurd found (quiet.clients fd conn)
    · intro entry entryMem conn client
      simp only [control_log, log, List.nil_append, List.mem_singleton] at entryMem
      subst entryMem
      exact absurd client (quiet.clients _ conn)
    · intro fd other conn found
      exact absurd found (quiet.clients fd conn)
    · simp [conns]
    · simp [ready]
    · simp [ready]

end Starting

section Files

theorem setTable_iff_of_file {fd other : Fd} {before after : Option (Role servers)}
    (current : program.table fd = before) (wasFile : before = none ∨ before = some .file)
    (isFile : after = none ∨ after = some .file) {role : Role servers} (notFile : role ≠ .file) :
    (program.setTable fd after).table other = some role ↔ program.table other = some role := by
  by_cases same : other = fd
  · subst same
    rcases wasFile with rfl | rfl <;> rcases isFile with rfl | rfl <;>
      simp [current, notFile.symm]
  · simp [same]

theorem Enrolled.of_table (enrolled : program.Enrolled)
    (table : ∀ fd (role : Role servers), role.Registered →
      (next.table fd = some role ↔ program.table fd = some role))
    (loopState : next.loopState = program.loopState) : next.Enrolled := by
  simp only [Program.loopState, Prod.mk.injEq] at loopState
  rcases loopState with ⟨interest, ready, conns, log⟩
  have clients : ∀ fd conn, next.table fd = some (.client conn) ↔
      program.table fd = some (.client conn) := fun fd conn => table fd (.client conn) trivial
  refine ⟨?_, ?_, ?_, ?_, ?_, ?_, ?_, ?_⟩
  · intro fd
    rw [interest, enrolled.interest]
    apply exists_congr
    intro role
    apply and_congr_right
    intro registered
    exact (table fd role registered).symm
  · intro fd role registered found
    rw [log]
    exact enrolled.once fd role registered ((table fd role registered).mp found)
  · simp only [clients, conns]
    exact enrolled.numbered
  · rw [log, conns]
    exact enrolled.logged
  · simp only [clients]
    exact enrolled.single
  · simp only [clients, conns, log]
    exact enrolled.accounted
  · rw [ready]
    exact enrolled.distinct
  · rw [ready, interest]
    exact enrolled.waiting

theorem Sound.setFile (sound : program.Sound) {fd : Fd} {before after : Option (Role servers)}
    (current : program.table fd = before) (wasFile : before = none ∨ before = some .file)
    (isFile : after = none ∨ after = some .file) : (program.setTable fd after).Sound where
  running := sound.running
  agrees := by
    refine sound.agrees.of_others ?_ (fun _ _ => Iff.rfl)
    intro other role own
    apply setTable_iff_of_file current wasFile isFile
    rintro rfl
    exact own
  serverFdSet := sound.serverFdSet
  quiet early := by
    refine (sound.quiet early).setTable ?_ rfl rfl
    intro conn
    rcases isFile with rfl | rfl <;> simp
  enrolled serving := by
    refine (sound.enrolled serving).of_table ?_ rfl
    intro other role registered
    apply setTable_iff_of_file current wasFile isFile
    rintro rfl
    exact registered

end Files

end Program

end LoadBalance.Distributor
