import Mathlib.Data.List.FinRange
import Mathlib.Data.Fintype.Basic
import LoadBalance.Distributor.Bookkeeping
import LoadBalance.Relay.Start

/-!
# The roles of the descriptors

A pass of the loop accepts clients, answers one or closes one, and keeps what the variables
say about the descriptors. So it holds in every run, and with it that no descriptor is taken
for another and that no `epoll_ctl` fails.
-/

namespace LoadBalance.Distributor

variable {servers : ℕ}

namespace Program

variable {program next : Program servers}

section Passes

variable {fd : Fd}

/-- A whole turn of the accept loop. -/
def enroll (program : Program servers) (fd : Fd) : Program servers :=
  { program with
    thread := { program.thread with interest := insert fd program.thread.interest }
    table := Function.update program.table fd (some (.client program.conns))
    conns := program.conns + 1
    log := program.log ++ [⟨.add, fd, some (.client program.conns)⟩] }

theorem foldl_enroll (program : Program servers) (fds : List Fd) :
    fds.foldl enroll program = { fds.foldl acceptOne program with
      thread := { program.thread with
        interest := program.thread.interest ∪ fds.toFinset } } := by
  induction fds using List.reverseRecOn with
  | nil => simp
  | append_singleton fds fd ih =>
      simp only [List.foldl_append, List.foldl_cons, List.foldl_nil, ih]
      simp [enroll, acceptOne, setTable, control, Finset.union_insert]

theorem foldl_perform_of_no_close (program : Program servers) {calls : List (Call Byte)}
    (noClose : ∀ fd, .close fd ∉ calls) : calls.foldl perform program = program := by
  induction calls with
  | nil => rfl
  | cons call calls ih =>
      simp only [List.mem_cons, not_or] at noClose
      cases call with
      | write fd data => exact ih fun fd => (noClose fd).2
      | close fd => exact absurd rfl (noClose fd).1

theorem table_enroll_self : (program.enroll fd).table fd = some (.client program.conns) :=
  Function.update_self ..

theorem table_enroll_of_ne {other : Fd} (different : other ≠ fd) :
    (program.enroll fd).table other = program.table other :=
  Function.update_of_ne different ..

/-- A client behind an `accept` is the new one, with the next number, or an earlier one. -/
theorem Enrolled.client_enroll (enrolled : program.Enrolled) {other : Fd} {conn : ℕ}
    (found : (program.enroll fd).table other = some (.client conn)) :
    (other = fd ∧ conn = program.conns) ∨
      (program.table other = some (.client conn) ∧ conn < program.conns) := by
  by_cases same : other = fd
  · subst same
    rw [table_enroll_self] at found
    cases found
    exact Or.inl ⟨rfl, rfl⟩
  · rw [table_enroll_of_ne same] at found
    exact Or.inr ⟨found, enrolled.numbered other conn found⟩

theorem Enrolled.acceptOne (enrolled : program.Enrolled) (closed : program.table fd = none) :
    (program.enroll fd).Enrolled := by
  have log : (program.enroll fd).log =
      program.log ++ [⟨.add, fd, some (.client program.conns)⟩] := rfl
  have conns : (program.enroll fd).conns = program.conns + 1 := rfl
  have unused : ∀ op, ⟨op, fd, some (.client program.conns)⟩ ∉ program.log := by
    intro op entryMem
    exact absurd (enrolled.logged _ entryMem _ rfl) (lt_irrefl _)
  refine ⟨?_, ?_, ?_, ?_, ?_, ?_, enrolled.distinct, ?_⟩
  · intro other
    by_cases same : other = fd
    · subst same
      exact iff_of_true (Finset.mem_insert_self _ _) ⟨.client _, trivial, table_enroll_self⟩
    · simp only [table_enroll_of_ne same, ← enrolled.interest]
      exact Finset.mem_insert.trans (or_iff_right same)
  · intro other role registered found
    rw [log]
    by_cases same : other = fd
    · subst same
      rw [table_enroll_self] at found
      cases found
      simp [List.count_eq_zero_of_not_mem, unused]
    · rw [table_enroll_of_ne same] at found
      simpa [same, Ne.symm same] using enrolled.once other role registered found
  · intro other conn found
    rw [conns]
    rcases enrolled.client_enroll found with ⟨_, rfl⟩ | ⟨_, older⟩
    · exact Nat.lt_succ_self _
    · omega
  · intro entry entryMem conn client
    rw [conns]
    rcases List.mem_append.mp (log ▸ entryMem) with old | new
    · have older := enrolled.logged entry old conn client
      omega
    · rw [List.mem_singleton.mp new] at client
      cases client
      exact Nat.lt_succ_self _
  · intro first second conn foundFirst foundSecond
    rcases enrolled.client_enroll foundFirst with ⟨rfl, number⟩ | ⟨oldFirst, older⟩
    · rcases enrolled.client_enroll foundSecond with ⟨rfl, _⟩ | ⟨_, older⟩
      · rfl
      · omega
    · rcases enrolled.client_enroll foundSecond with ⟨rfl, number⟩ | ⟨oldSecond, _⟩
      · omega
      · exact enrolled.single first second conn oldFirst oldSecond
  · intro conn older
    rw [conns] at older
    rcases Nat.lt_succ_iff_lt_or_eq.mp older with older | rfl
    · rcases enrolled.accounted conn older with ⟨other, found⟩ | ⟨other, removed⟩
      · have different : other ≠ fd := by
          rintro rfl
          rw [closed] at found
          cases found
        exact Or.inl ⟨other, (table_enroll_of_ne different).trans found⟩
      · exact Or.inr ⟨other, List.mem_append_left _ removed⟩
    · exact Or.inl ⟨fd, table_enroll_self⟩
  · intro other waiting
    exact Finset.mem_insert_of_mem (enrolled.waiting other waiting)

theorem Sound.acceptOne (sound : program.Sound) (serving : program.stage = .serving)
    (closed : program.table fd = none) : (program.enroll fd).Sound where
  running := sound.running
  agrees := by
    refine sound.agrees.of_others ?_ (fun _ _ => Iff.rfl)
    intro other role own
    by_cases same : other = fd
    · subst same
      rw [table_enroll_self, closed]
      refine iff_of_false ?_ nofun
      intro found
      cases found
      exact own
    · rw [table_enroll_of_ne same]
  serverFdSet := sound.serverFdSet
  quiet early := absurd serving early
  enrolled _ := (sound.enrolled serving).acceptOne closed

/-- The state behind `CloseConnect`. -/
def leave (program : Program servers) (fd : Fd) : Program servers :=
  { program with
    thread := { program.thread with interest := program.thread.interest.erase fd }
    table := Function.update program.table fd none
    log := program.log ++ [⟨.del, fd, program.table fd⟩] }

theorem table_leave_iff {other : Fd} {role : Role servers} :
    (program.leave fd).table other = some role ↔ other ≠ fd ∧ program.table other = some role := by
  by_cases same : other = fd
  · subst same
    simp [Program.leave]
  · simp [Program.leave, same]

theorem Enrolled.leave (enrolled : program.Enrolled) {conn : ℕ}
    (client : program.table fd = some (.client conn))
    (last : fd ∉ program.ready.map Prod.fst) : (program.leave fd).Enrolled := by
  have log : (program.leave fd).log = program.log ++ [⟨.del, fd, some (.client conn)⟩] := by
    simp [Program.leave, client]
  refine ⟨?_, ?_, ?_, ?_, ?_, ?_, enrolled.distinct, ?_⟩
  · intro other
    refine Finset.mem_erase.trans ?_
    simp only [enrolled.interest, table_leave_iff]
    constructor
    · rintro ⟨different, role, registered, found⟩
      exact ⟨role, registered, different, found⟩
    · rintro ⟨role, registered, different, found⟩
      exact ⟨different, role, registered, found⟩
  · intro other role registered found
    rcases table_leave_iff.mp found with ⟨different, old⟩
    rw [log]
    simpa [different] using enrolled.once other role registered old
  · intro other conn found
    exact enrolled.numbered other conn (table_leave_iff.mp found).2
  · intro entry entryMem other isClient
    rcases List.mem_append.mp (log ▸ entryMem) with old | new
    · exact enrolled.logged entry old other isClient
    · rw [List.mem_singleton.mp new] at isClient
      exact enrolled.numbered fd other (client.trans isClient)
  · intro first second conn foundFirst foundSecond
    exact enrolled.single first second conn (table_leave_iff.mp foundFirst).2
      (table_leave_iff.mp foundSecond).2
  · intro number older
    rw [log]
    rcases enrolled.accounted number older with ⟨other, found⟩ | ⟨other, removed⟩
    · by_cases same : other = fd
      · subst same
        rw [client] at found
        cases found
        exact Or.inr ⟨other, by simp⟩
      · exact Or.inl ⟨other, table_leave_iff.mpr ⟨same, found⟩⟩
    · exact Or.inr ⟨other, List.mem_append_left _ removed⟩
  · intro other waiting
    refine Finset.mem_erase.mpr ⟨?_, enrolled.waiting other waiting⟩
    rintro rfl
    exact last waiting

theorem Sound.leave (sound : program.Sound) (serving : program.stage = .serving) {conn : ℕ}
    (client : program.table fd = some (.client conn))
    (last : fd ∉ program.ready.map Prod.fst) : (program.leave fd).Sound where
  running := sound.running
  agrees := by
    refine sound.agrees.of_others ?_ (fun _ _ => Iff.rfl)
    intro other role own
    rw [table_leave_iff]
    refine and_iff_right_of_imp ?_
    rintro found rfl
    rw [client] at found
    cases found
    exact own
  serverFdSet := sound.serverFdSet
  quiet early := absurd serving early
  enrolled _ := (sound.enrolled serving).leave client last

theorem Sound.setMess (sound : program.Sound) (mess : Message Byte) :
    Sound { program with thread := { program.thread with mess := mess } } where
  running := sound.running
  agrees := sound.agrees.of_others (fun _ _ _ => Iff.rfl) (fun _ role => by cases role <;> rfl)
  serverFdSet := sound.serverFdSet
  quiet early :=
    have quiet := sound.quiet early
    ⟨quiet.loopState, quiet.clients⟩
  enrolled serving :=
    (sound.enrolled serving).of_table (fun _ _ _ => Iff.rfl) rfl

theorem Sound.foldl_enroll (sound : program.Sound) (serving : program.stage = .serving)
    {fds : List Fd} (distinct : fds.Nodup) (closed : ∀ fd ∈ fds, program.table fd = none) :
    (fds.foldl enroll program).Sound := by
  induction fds generalizing program with
  | nil => exact sound
  | cons fd fds ih =>
      simp only [List.nodup_cons, List.forall_mem_cons] at distinct closed
      refine ih (sound.acceptOne serving closed.1) serving distinct.2 ?_
      intro other otherMem
      have different : other ≠ fd := fun same => distinct.1 (same ▸ otherMem)
      exact (Function.update_of_ne different _ _).trans (closed.2 other otherMem)

theorem Sound.setReady (sound : program.Sound) (serving : program.stage = .serving)
    {ready : List (Fd × BitVec 32)} (distinct : (ready.map Prod.fst).Nodup)
    (registered : ∀ fd ∈ ready.map Prod.fst, fd ∈ program.thread.interest) :
    Sound { program with ready := ready } where
  running := sound.running
  agrees := sound.agrees.of_others (fun _ _ _ => Iff.rfl) (fun _ role => by cases role <;> rfl)
  serverFdSet := sound.serverFdSet
  quiet early := absurd serving early
  enrolled _ :=
    have enrolled := sound.enrolled serving
    ⟨enrolled.interest, enrolled.once, enrolled.numbered, enrolled.logged, enrolled.single,
      enrolled.accounted,
      distinct, registered⟩

/-- A descriptor of an inner server is open as one, and nothing else is in `serverFd_set`. -/
theorem Sound.work_of_mem (sound : program.Sound) (isServer : fd ∈ program.thread.serverFdSet) :
    ∃ server, program.table fd = some (.work server) := by
  rcases (sound.serverFdSet fd).mp isServer with ⟨server, stored, entry⟩
  exact ⟨server, (sound.agrees fd (.work server) trivial).mpr (.inr ⟨stored, entry⟩)⟩

theorem Sound.client_of_interest (sound : program.Sound) (serving : program.stage = .serving)
    (registered : fd ∈ program.thread.interest) (notListening : fd ≠ program.thread.listenFdOuter) :
    ∃ conn, program.table fd = some (.client conn) := by
  rcases ((sound.enrolled serving).interest fd).mp registered with ⟨role, isRegistered, found⟩
  cases role with
  | client conn => exact ⟨conn, found⟩
  | listenOuter =>
      have named := (sound.agrees fd .listenOuter trivial).mp found
      exact absurd named.2.symm notListening
  | inherited | file | listenInner | work | monitor | epoll => exact isRegistered.elim

theorem Sound.kept_listen (sound : program.Sound) (serving : program.stage = .serving)
    (listening : fd = program.thread.listenFdOuter) (events : BitVec 32)
    {answers : Answers servers Byte} (distinct : (answers.accepted.map Prod.fst).Nodup)
    (closed : ∀ fd ∈ answers.accepted.map Prod.fst, program.table fd = none) :
    (program.pass fd events answers).Kept (program.Refuses (.pass answers)) := by
  have fresh : ∀ fd ∈ answers.accepted.map Prod.fst, fd ∉ program.thread.interest := by
    intro other otherMem registered
    rcases ((sound.enrolled serving).interest other).mp registered with ⟨role, _, found⟩
    rw [closed other otherMem] at found
    cases found
  simp only [Program.pass, loopBody, if_pos listening]
  cases accepting : acceptLoop program.thread.interest answers.accepted answers.acceptErrno with
  | error halt =>
      have reason := acceptLoop_error_of_fresh distinct fresh accepting
      exact .halted halt rfl (reason.imp_right (And.imp_right fun refused =>
        ⟨distinct, fresh, refused⟩))
  | ok interest =>
      have enrolled := sound.foldl_enroll serving distinct closed
      rw [Program.foldl_enroll, ← (acceptLoop_eq_ok accepting).2] at enrolled
      exact .running enrolled

theorem Sound.kept_client (sound : program.Sound) (serving : program.stage = .serving)
    (registered : fd ∈ program.thread.interest) (notListening : fd ≠ program.thread.listenFdOuter)
    (last : fd ∉ program.ready.map Prod.fst) (events : BitVec 32)
    (answers : Answers servers Byte) :
    (program.pass fd events answers).Kept (program.Refuses (.pass answers)) := by
  rcases sound.client_of_interest serving registered notListening with ⟨conn, client⟩
  have notServer : fd ∉ program.thread.serverFdSet := by
    intro isServer
    rcases sound.work_of_mem isServer with ⟨server, work⟩
    rw [client] at work
    cases work
  by_cases readable : events &&& EPOLLIN ≠ 0
  · have branch : loopBody program.thread fd events answers =
        requestBranch program.thread fd answers := loopBody_client notListening readable notServer
    simp only [Program.pass, branch, if_neg notListening]
    rcases @requestBranch_registered _ _ _ program.thread fd answers registered with
      ⟨mess, calls, served, noClose⟩ | served
    · simp only [served, resume, foldl_perform_of_no_close program noClose]
      exact .running (sound.setMess mess)
    · simp only [served, resume]
      exact .running (sound.leave serving client last)
  · have branch : loopBody program.thread fd events answers = .ok (program.thread, []) := by
      simp [loopBody, notListening, not_not.mp readable]
    simp only [Program.pass, branch, if_neg notListening, resume]
    exact .running sound

theorem Sound.kept_pass (sound : program.Sound) (serving : program.stage = .serving)
    {events : BitVec 32} {ready : List (Fd × BitVec 32)}
    (waiting : program.ready = (fd, events) :: ready) {answers : Answers servers Byte}
    (returns : program.ReturnsClosed (.pass answers)) :
    (({ program with ready := ready } : Program servers).pass fd events answers).Kept
      (program.Refuses (.pass answers)) := by
  have enrolled := sound.enrolled serving
  have distinct := enrolled.distinct
  have registered := enrolled.waiting
  simp only [waiting, List.map_cons, List.nodup_cons, List.forall_mem_cons] at distinct registered
  have popped := sound.setReady serving distinct.2 registered.2
  by_cases listening : fd = program.thread.listenFdOuter
  · have accepts := returns (by simp [waiting, listening])
    exact popped.kept_listen serving listening events accepts.1
      (List.forall_mem_map.mpr accepts.2)
  · exact popped.kept_client serving registered.1 listening distinct.1 events answers

end Passes

theorem Sound.step (sound : program.Sound) {event : Event servers}
    (returns : program.ReturnsClosed event) (stepped : program.step event = some next) :
    next.Kept (program.Refuses event) := by
  cases event with
  | getListenFd fd reuseAddr bound listened =>
      simp only [Program.step] at stepped
      split at stepped
      · rename_i stage
        cases stepped
        apply kept_resume (opens_getListenFd fd reuseAddr bound listened) returns
        exact sound.opens_listenInner stage
      · rename_i stage
        cases stepped
        apply kept_resume (opens_getListenFd fd reuseAddr bound listened) returns
        exact sound.opens_listenOuter stage
      · cases stepped
  | accept fd =>
      simp only [Program.step] at stepped
      split at stepped
      · rename_i server stage
        cases stepped
        apply kept_resume (opens_acceptInner fd) returns
        exact sound.opens_work stage
      · cases stepped
  | connectMon fd connected noDelayMon noDelay =>
      simp only [Program.step] at stepped
      split at stepped
      · rename_i server work stage
        cases stepped
        apply kept_resume (opens_connectMon fd connected noDelayMon noDelay) returns
        exact sound.opens_monitor stage
      · cases stepped
  | epollCreate fd =>
      simp only [Program.step] at stepped
      split at stepped
      · rename_i stage
        cases stepped
        apply kept_resume (opens_epollCreate fd) returns
        exact sound.opens_epoll stage
      · cases stepped
  | epollAdd result =>
      simp only [Program.step] at stepped
      split at stepped
      · rename_i stage
        simp only [sound.epollCtlAdd_eq stage, Option.some.injEq] at stepped
        subst stepped
        by_cases refused : result ≠ 0
        · rw [if_pos refused]
          refine .halted _ rfl (.inr ⟨rfl, ?_, refused⟩)
          rw [(sound.quiet (by simp [stage])).fields.1]
          exact Finset.notMem_empty _
        · rw [if_neg refused]
          exact .running (sound.registers stage)
      · cases stepped
  | epollWait ready =>
      simp only [Program.step] at stepped
      split_ifs at stepped with waits
      cases stepped
      rcases waits with ⟨serving, _, distinct, registered⟩
      refine .running (sound.setReady serving distinct ?_)
      intro fd isReady
      exact registered (List.mem_toFinset.mpr isReady)
  | pass answers =>
      simp only [Program.step] at stepped
      split at stepped
      · rename_i fd events ready serving waiting
        cases stepped
        exact sound.kept_pass serving waiting returns
      · cases stepped
  | openFile fd =>
      simp only [Program.step] at stepped
      split_ifs at stepped with _ negative
      · cases stepped
        exact .running sound
      · cases stepped
        have closed := returns (not_lt.mp negative)
        exact .running (sound.setFile closed (.inl rfl) (.inr rfl))
  | closeFile fd =>
      simp only [Program.step] at stepped
      split_ifs at stepped with closing
      cases stepped
      exact .running (sound.setFile closing.2 (.inr rfl) (.inl rfl))
  | exitMain finished =>
      simp only [Program.step] at stepped
      split_ifs at stepped
      all_goals
        cases stepped
        exact .halted _ rfl (.inl (by simp [ControlFailed]))

theorem Kept.step {refused : Prop} (kept : program.Kept refused) {event : Event servers}
    (returns : program.ReturnsClosed event) (stepped : program.step event = some next) :
    next.Kept (program.Refuses event) := by
  cases kept with
  | running sound => exact sound.step returns stepped
  | halted halt ended other =>
      cases event <;> simp [Program.step, ended, Stage.Initialised] at stepped

theorem sound_start (inherited : Finset Fd) :
    (start inherited : Program servers).Sound where
  running := by simp [start]
  agrees fd role own := by
    cases role <;> simp [start, Names, Stage.HasInner, Stage.Stored, Stage.HasOuter,
      Stage.HasEpoll]
  serverFdSet := by simp [start, Stage.Stored]
  quiet _ := ⟨rfl, by simp [start]⟩
  enrolled serving := by cases serving

/-- In the last step the system has refused to register new descriptors. -/
def EndsRefused (inherited : Finset Fd) (events : List (Event servers)) : Prop :=
  ∃ before event middle, events = before ++ [event] ∧
    Machine.RunsUnder Program.step ReturnsClosed (start inherited) before middle ∧
      middle.Refuses event

theorem kept_of_run {inherited : Finset Fd} {events : List (Event servers)}
    (guarded : Machine.RunsUnder Program.step ReturnsClosed (start inherited) events program) :
    program.Kept (EndsRefused inherited events) := by
  have both := guarded.history_invariant
    (fun past state => Machine.RunsUnder Program.step ReturnsClosed (start inherited) past state ∧
      state.Kept (EndsRefused inherited past))
    (fun {past state event next} before returns stepped =>
      ⟨Machine.RunsUnder.concat_iff.mpr ⟨state, before.1, returns, stepped⟩,
        (before.2.step returns stepped).imp fun refuses =>
          ⟨past, event, state, rfl, before.1, refuses⟩⟩)
    ⟨.nil _, .running (sound_start inherited)⟩
  exact both.2

/-- The listening descriptors behind `init_inner_mon`. -/
def listening (program : Program servers) : List Fd :=
  match program.stage with
  | .listenOuter => [program.listenFdInner]
  | _ => [program.listenFdInner, program.thread.listenFdOuter]

/-- The work and the monitor descriptors in `servers_inner`. -/
def inner (program : Program servers) : List Fd :=
  (List.finRange servers).flatMap fun server =>
    [(program.thread.serversInner server).1, (program.thread.serversInner server).2]

/-- What the descriptors stand for behind `init_inner_mon`. -/
structure RolesKept (program : Program servers) : Prop where
  distinct : (program.listening ++ program.inner).Nodup
  apart : ∀ fd conn, program.table fd = some (.client conn) →
    fd ∉ program.listening ++ program.inner
  /-- Every connection has one descriptor of its own, until it is removed and closed. -/
  single : ∀ fd other conn, program.table fd = some (.client conn) →
    program.table other = some (.client conn) → fd = other
  accounted : ∀ conn < program.conns, (∃ fd, program.table fd = some (.client conn)) ∨
    ∃ fd, ⟨.del, fd, some (.client conn)⟩ ∈ program.log
  serverFdSet : program.thread.serverFdSet =
    Finset.univ.image fun server => (program.thread.serversInner server).1
  opened : ∀ server, program.table (program.thread.serversInner server).1 = some (.work server)
  /-- What is registered is the listening socket or a client, added since it is open. -/
  registered : ∀ fd ∈ program.thread.interest, fd ≠ program.thread.listenFdOuter →
    ∃ conn, program.table fd = some (.client conn) ∧
      program.log.count ⟨.add, fd, some (.client conn)⟩ = 1 ∧
        ⟨.del, fd, some (.client conn)⟩ ∉ program.log
  clients : ∀ fd conn, program.table fd = some (.client conn) → fd ∈ program.thread.interest
  waiting : ∀ fd ∈ program.ready.map Prod.fst, fd ∈ program.thread.interest
  /-- The test of `serverFd_set` tells the inner servers from everything else. -/
  told : ∀ fd role, program.table fd = some role →
    (fd ∈ program.thread.serverFdSet ↔ ∃ server, role = .work server)

section Initialised

/-- The roles of the descriptors in `servers_inner`. -/
def innerRoles (servers : ℕ) : List (Role servers) :=
  (List.finRange servers).flatMap fun server => [.work server, .monitor server]

/-- The roles of all descriptors which the program opens before it serves. -/
def openedRoles (servers : ℕ) : List (Role servers) :=
  .listenInner :: .listenOuter :: .epoll :: innerRoles servers

theorem nodup_openedRoles (servers : ℕ) : (openedRoles servers).Nodup := by
  have inner : (innerRoles servers).Nodup := by
    rw [innerRoles, List.nodup_flatMap]
    refine ⟨fun server _ => by simp, (List.nodup_finRange servers).imp ?_⟩
    intro first second different
    simp [Function.onFun, different.symm]
  have notInner : .listenInner ∉ innerRoles servers := by simp [innerRoles]
  have notOuter : .listenOuter ∉ innerRoles servers := by simp [innerRoles]
  have notEpoll : .epoll ∉ innerRoles servers := by simp [innerRoles]
  simp [openedRoles, inner, notInner, notOuter, notEpoll]

theorem Sound.stored (sound : program.Sound) (initialised : program.stage.Initialised)
    (server : Fin servers) :
    program.table (program.thread.serversInner server).1 = some (.work server) ∧
      program.table (program.thread.serversInner server).2 = some (.monitor server) := by
  have stored := initialised.stored server
  constructor
  · exact (sound.agrees _ (.work server) trivial).mpr (.inr ⟨stored, rfl⟩)
  · exact (sound.agrees _ (.monitor server) trivial).mpr ⟨stored, rfl⟩

theorem Sound.table_listenFdOuter (sound : program.Sound) (isSet : program.stage.HasOuter) :
    program.table program.thread.listenFdOuter = some .listenOuter :=
  (sound.agrees _ .listenOuter trivial).mpr ⟨isSet, rfl⟩

theorem Sound.table_listenFdInner (sound : program.Sound) (isSet : program.stage.HasInner) :
    program.table program.listenFdInner = some .listenInner :=
  (sound.agrees _ .listenInner trivial).mpr ⟨isSet, rfl⟩

theorem Sound.map_table_inner (sound : program.Sound) (initialised : program.stage.Initialised) :
    program.inner.map program.table = (innerRoles servers).map some := by
  simp [Program.inner, innerRoles, List.map_flatMap, sound.stored initialised]

/-- The descriptors in the variables of the program stand for different things. -/
theorem Sound.map_table (sound : program.Sound) (initialised : program.stage.Initialised) :
    ∃ roles, List.Sublist roles (openedRoles servers) ∧
      (program.listening ++ program.inner).map program.table = roles.map some := by
  have inner := sound.map_table_inner initialised
  have first := sound.table_listenFdInner initialised.hasInner
  cases stage : program.stage with
  | listenOuter =>
      refine ⟨.listenInner :: innerRoles servers, by simp [openedRoles], ?_⟩
      simp [listening, stage, inner, first]
  | epollCreate | epollAdd | serving =>
      have second := sound.table_listenFdOuter (by rw [stage]; trivial)
      refine ⟨.listenInner :: .listenOuter :: innerRoles servers, by simp [openedRoles], ?_⟩
      simp [listening, stage, inner, first, second]
  | listenInner | accept | connectMon | halted =>
      rw [stage] at initialised
      exact initialised.elim

theorem Sound.mem_serverFdSet (sound : program.Sound) (initialised : program.stage.Initialised)
    {fd : Fd} {role : Role servers} (found : program.table fd = some role) :
    fd ∈ program.thread.serverFdSet ↔ ∃ server, role = .work server := by
  constructor
  · intro isServer
    rcases sound.work_of_mem isServer with ⟨server, work⟩
    exact ⟨server, Option.some.inj (found.symm.trans work)⟩
  · rintro ⟨server, rfl⟩
    rcases (sound.agrees fd (.work server) trivial).mp found with connecting | stored
    · rw [connecting] at initialised
      exact initialised.elim
    · exact (sound.serverFdSet fd).mpr ⟨server, stored⟩

theorem Sound.rolesKept (sound : program.Sound) (initialised : program.stage.Initialised) :
    program.RolesKept := by
  rcases sound.map_table initialised with ⟨roles, ownRoles, table⟩
  have distinct := (nodup_openedRoles servers).sublist ownRoles
  have clients : ∀ fd conn, program.table fd = some (.client conn) →
      program.stage = .serving := by
    intro fd conn found
    by_contra early
    exact (sound.quiet early).clients fd conn found
  refine ⟨?_, ?_, ?_, ?_, ?_, fun server => (sound.stored initialised server).1, ?_, ?_, ?_,
    fun fd role => sound.mem_serverFdSet initialised⟩
  · apply List.Nodup.of_map program.table
    rw [table]
    exact distinct.map (Option.some_injective _)
  · intro fd conn found fdMem
    have roleMem := List.mem_map_of_mem (f := program.table) fdMem
    rw [table, found] at roleMem
    have clientMem : .client conn ∈ roles := by simpa using roleMem
    simpa [openedRoles, innerRoles] using ownRoles.subset clientMem
  · intro fd other conn found
    exact (sound.enrolled (clients fd conn found)).single fd other conn found
  · by_cases serving : program.stage = .serving
    · exact (sound.enrolled serving).accounted
    · simp [(sound.quiet serving).fields.2.2.1]
  · ext fd
    simp only [sound.serverFdSet, initialised.stored, true_and, Finset.mem_image,
      Finset.mem_univ]
  · intro fd registered notListening
    by_cases serving : program.stage = .serving
    · rcases sound.client_of_interest serving registered notListening with ⟨conn, found⟩
      exact ⟨conn, found, (sound.enrolled serving).once fd _ trivial found⟩
    · rw [(sound.quiet serving).fields.1] at registered
      cases registered
  · intro fd conn found
    exact ((sound.enrolled (clients fd conn found)).interest fd).mpr ⟨.client conn, trivial, found⟩
  · by_cases serving : program.stage = .serving
    · exact (sound.enrolled serving).waiting
    · simp [(sound.quiet serving).fields.2.1]

/-- The descriptors of a process which serves are those of a start as the relay has it. -/
theorem Sound.exists_boot (sound : program.Sound) (serving : program.stage = .serving)
    (standard : {0, 1, 2} ⊆ program.inherited) :
    ∃ boot : Relay.Boot servers, boot.listenFdInner = program.listenFdInner ∧
      boot.epollFd = program.epollFd ∧ (boot.thread Byte).tables = program.thread.tables := by
  have initialised : program.stage.Initialised := by rw [serving]; trivial
  have hasOuter : program.stage.HasOuter := by rw [serving]; trivial
  have hasEpoll : program.stage.HasEpoll := by rw [serving]; trivial
  have epoll : program.table program.epollFd = some .epoll :=
    (sound.agrees _ .epoll trivial).mpr ⟨hasEpoll, rfl⟩
  have table : (program.listenFdInner :: program.thread.listenFdOuter :: program.epollFd ::
      program.inner).map program.table = (openedRoles servers).map some := by
    simp [openedRoles, sound.map_table_inner initialised, epoll,
      sound.table_listenFdInner initialised.hasInner, sound.table_listenFdOuter hasOuter]
  have opened := List.Nodup.of_map program.table
    (table ▸ (nodup_openedRoles servers).map (Option.some_injective _))
  have distinct : ([0, 1, 2] ++ program.listenFdInner :: program.thread.listenFdOuter ::
      program.epollFd :: program.inner).Nodup := by
    refine List.nodup_append.mpr ⟨by decide, opened, ?_⟩
    rintro fd isStandard other otherMem rfl
    have before : program.table fd = some .inherited := by
      refine (sound.agrees fd .inherited trivial).mpr (standard ?_)
      simpa using isStandard
    have roleMem := List.mem_map_of_mem (f := program.table) otherMem
    rw [table, before] at roleMem
    simp [openedRoles, innerRoles] at roleMem
  refine ⟨⟨program.listenFdInner, program.thread.serversInner, program.thread.listenFdOuter,
    program.epollFd, distinct⟩, rfl, rfl, ?_⟩
  have set : Relay.Boot.initInnerMon ⟨program.listenFdInner, program.thread.serversInner,
      program.thread.listenFdOuter, program.epollFd, distinct⟩ = program.thread.serverFdSet := by
    ext fd
    simp [sound.serverFdSet, initialised.stored]
  simp [Thread.tables, Relay.Boot.thread, set]

theorem exists_boot_of_run {inherited : Finset Fd} {events : List (Event servers)}
    (guarded : Machine.RunsUnder step ReturnsClosed (start inherited) events program)
    (serving : program.stage = .serving) (standard : {0, 1, 2} ⊆ inherited) :
    ∃ boot : Relay.Boot servers, boot.listenFdInner = program.listenFdInner ∧
      boot.epollFd = program.epollFd ∧ (boot.thread Byte).tables = program.thread.tables := by
  have constant : program.inherited = inherited :=
    guarded.invariant (fun program => program.inherited = inherited)
      (fun same _ stepped => (inherited_of_step stepped).trans same) rfl
  rcases kept_of_run guarded with sound | ⟨halt, ended, _⟩
  · exact sound.exists_boot serving (constant ▸ standard)
  · rw [serving] at ended
    cases ended

/--
Whatever number of servers, in every state behind `init_inner_mon` of every run in which the
calls return descriptors that are not open: what is listening, in `servers_inner` or a client
are different descriptors, `serverFd_set` has those of the inner servers, which are open,
and every registered client is open and was added once. A run which ends with a failing
`epoll_ctl` ends in `EpollCtl_Add`, in a step in which all descriptors to be registered are new
and the system refuses one of them.
-/
theorem rolesKept_of_run {inherited : Finset Fd} {events : List (Event servers)}
    (guarded : Machine.RunsUnder step ReturnsClosed (start inherited) events program) :
    (program.stage.Initialised → program.RolesKept) ∧
      ∀ halt, program.stage = .halted halt → ControlFailed halt →
        halt = .exit "epoll_ctl add" ∧ EndsRefused inherited events := by
  rcases kept_of_run guarded with sound | ⟨halt, ended, other⟩
  · exact ⟨sound.rolesKept, fun halt ended => absurd ended (sound.running halt)⟩
  · constructor
    · intro initialised
      rw [ended] at initialised
      exact initialised.elim
    · intro reason atEnd failed
      rw [ended] at atEnd
      cases atEnd
      exact other.resolve_left (not_not.mpr failed)

/-- Two clients leave, and their descriptors are used for a file and for the next client. -/
def reused : List (Event 2) :=
  let pass (accepted : List (Fd × ℤ × ℤ)) (readn : ReadResult Byte) : Event 2 :=
    .pass ⟨accepted, .eagain, readn, Fin.last 1, 0⟩
  [.getListenFd 3 0 0 0, .accept 4, .connectMon 5 0 0 0, .accept 6, .connectMon 7 0 0 0,
    .getListenFd 8 0 0 0, .epollCreate 9, .epollAdd 0, .epollWait [(8, 1)],
    pass [(10, 0, 0), (11, 0, 0)] (.data []), .epollWait [(11, 1), (10, 1)],
    pass [] (.data []), pass [] (.error .econnreset), .epollWait [(8, 1)], .openFile 11,
    pass [(10, 0, 0)] (.data [])]

theorem rolesKept_of_run_reused : ∃ program,
    Machine.RunsUnder step ReturnsClosed (start {0, 1, 2}) reused program ∧
      program.stage = .serving ∧ program.table 10 = some (.client 2) ∧
        program.table 11 = some .file ∧ program.RolesKept := by
  rcases @Machine.RunsUnder.exists_of_any _ _ step ReturnsClosed _ (start {0, 1, 2}) reused
      (fun program : Program 2 => program.stage = .serving ∧
        program.table 10 = some (.client 2) ∧ program.table 11 = some .file)
      (by decide +kernel) with ⟨program, guarded, shown⟩
  rcases of_decide_eq_true shown with ⟨serving, client, file⟩
  have kept := (rolesKept_of_run guarded).1 (by rw [serving]; trivial)
  exact ⟨program, guarded, serving, client, file, kept⟩

end Initialised

end Program

end LoadBalance.Distributor
