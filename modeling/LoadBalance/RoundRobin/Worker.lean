import LoadBalance.Lib.Machine
import LoadBalance.RoundRobin.LoopBody

/-!
# The service thread call by call

The loop of `threadFunc` in `round_robin_distributor.cc`, with a program counter which
stops between any two calls. The passes of the loop are the ones of `loopBody`; what is
added is the state in between, and what the thread has in hand there.
-/

universe u

namespace LoadBalance.RoundRobin

/-- Where the service thread is in its loop. -/
inductive Pc (servers : ℕ) (α : Type u) where
  | setup
  /-- Before the next entry of `events_`. -/
  | waiting
  | accepting
  /-- Behind `accept`, before `EpollCtl_Add`. -/
  | accepted (fd : Fd)
  | reading (fd : Fd)
  | selecting (fd : Fd) (buf : List α)
  | forwarding (fd : Fd) (buf : List α) (server : Fin servers)
  | replying (fd : Fd) (readn : ℕ) (writen : ℤ)
  | closing (fd : Fd)
  /-- In `CloseConnect`, before `close`. -/
  | removed (fd : Fd)
deriving DecidableEq

/-- The calls of the service thread, with their results. -/
inductive ThreadEvent (α : Type u) where
  /-- `EpollCtl_Add` for the listening socket, with the result of its `epoll_ctl`. -/
  | setup (added : ℤ)
  | ready (fd : Fd) (events : BitVec 32)
  | accept (fd : Fd)
  | acceptFails (errno : Errno)
  | register (noDelay added : ℤ)
  | read (readn : ReadResult α)
  | select
  | forward (writen : ℤ)
  | reply
  | unregister
  | close

/-- The service thread, and what it has done so far. -/
structure Worker (servers : ℕ) (α : Type u) where
  pc : Pc servers α
  thread : Thread servers
  /-- The client connections which `accept` has returned and which are not closed. -/
  opened : Finset Fd
  /-- The chunks read, with the descriptors they came from. -/
  received : List (Fd × List α)
  calls : List (Call servers α)

variable {servers : ℕ} {α : Type u}

def Worker.start (listenFdOuter : Fd) (serversInner : Fin servers → Fd × Fd) :
    Worker servers α where
  pc := .setup
  thread := { Thread.start listenFdOuter serversInner with interest := ∅ }
  opened := ∅
  received := []
  calls := []

/-- One call of the thread; the error is the end of the process by `exit`. -/
def Worker.step [Cell α] (worker : Worker servers α) (event : ThreadEvent α) :
    Option (Except Halt (Worker servers α)) :=
  match worker.pc, event with
  | .setup, .setup added =>
      match Distributor.epollCtlAdd worker.thread.interest worker.thread.listenFdOuter added with
      | .error halt => some (.error halt)
      | .ok interest =>
          some (.ok { worker with
            pc := .waiting
            thread := { worker.thread with interest := interest } })
  | .waiting, .ready fd events =>
      if fd ∈ worker.thread.interest then
        if fd = worker.thread.listenFdOuter then some (.ok { worker with pc := .accepting })
        else if events &&& EPOLLIN ≠ 0 then some (.ok { worker with pc := .reading fd })
        else some (.ok worker)
      else none
  | .accepting, .accept fd =>
      if fd ∈ worker.opened ∨ fd = worker.thread.listenFdOuter then none
      else some (.ok { worker with pc := .accepted fd, opened := insert fd worker.opened })
  | .accepting, .acceptFails errno =>
      if errno = .eagain then some (.ok { worker with pc := .waiting })
      else some (.error (.exit "accept outer"))
  | .accepted fd, .register noDelay added =>
      match Distributor.setTcpNoDelay noDelay,
        Distributor.epollCtlAdd worker.thread.interest fd added with
      | .error halt, _ => some (.error halt)
      | .ok _, .error halt => some (.error halt)
      | .ok _, .ok interest =>
          some (.ok { worker with
            pc := .accepting
            thread := { worker.thread with interest := interest } })
  | .reading fd, .read readn =>
      match readn with
      | .error errno =>
          if errno ≠ .eagain then some (.ok { worker with pc := .closing fd })
          else some (.ok { worker with pc := .waiting })
      | .data buf =>
          if buf = [] then some (.ok { worker with pc := .closing fd })
          else some (.ok { worker with
            pc := .selecting fd buf
            received := worker.received ++ [(fd, buf)] })
  | .selecting fd buf, .select =>
      match selectServer worker.thread with
      | .error _ => none
      | .ok (server, thread) =>
          some (.ok { worker with pc := .forwarding fd buf server, thread := thread })
  | .forwarding fd buf server, .forward writen =>
      some (.ok { worker with
        pc := .replying fd buf.length writen
        calls := worker.calls ++ [.forward server (worker.thread.serversInner server).1 buf] })
  | .replying fd readn writen, .reply =>
      some (.ok { worker with
        pc := .waiting
        calls := worker.calls ++ [.reply fd (response writen readn)] })
  | .closing fd, .unregister =>
      if fd ∈ worker.thread.interest then
        some (.ok { worker with
          pc := .removed fd
          thread := { worker.thread with interest := worker.thread.interest.erase fd } })
      else some (.error (.exit "epoll_ctl del"))
  | .removed fd, .close =>
      some (.ok { worker with
        pc := .waiting
        opened := worker.opened.erase fd
        calls := worker.calls ++ [.close fd] })
  | _, _ => none

/-- The chunk in hand, if it has not been forwarded yet. -/
def Pc.unforwarded : Pc servers α → List (List α)
  | .selecting _ buf | .forwarding _ buf _ => [buf]
  | _ => []

/-- The client whose chunk is in hand. -/
def Pc.unanswered : Pc servers α → List Fd
  | .selecting fd _ | .forwarding fd _ _ | .replying fd _ _ => [fd]
  | _ => []

/-- A descriptor which is open and not registered. -/
def Pc.loose : Pc servers α → Option Fd
  | .accepted fd | .removed fd => some fd
  | _ => none

/-- The client descriptor of this pass. -/
def Pc.serving : Pc servers α → Option Fd
  | .reading fd | .selecting fd _ | .forwarding fd _ _ | .replying fd _ _ | .closing fd => some fd
  | _ => none

namespace Worker

/-- Every chunk read has been forwarded and answered, and no client is connected. -/
structure Completed (worker : Worker servers α) : Prop where
  forwarded : forwardedData worker.calls = worker.received.map Prod.snd
  answered : repliedTo worker.calls = worker.received.map Prod.fst
  closed : worker.opened = ∅

/-- Nothing but the listening socket is registered, and no descriptor is on the way in or
out of the interest set. -/
def Idle (worker : Worker servers α) : Prop :=
  worker.thread.interest ⊆ {worker.thread.listenFdOuter} ∧ worker.pc.loose = none

instance (worker : Worker servers α) : Decidable worker.Idle :=
  inferInstanceAs (Decidable (_ ∧ _))

/-- What is in hand accounts for what has been read and not been answered, and the interest
set for what is open. -/
structure Sound (worker : Worker servers α) : Prop where
  forwarded : worker.received.map Prod.snd =
    forwardedData worker.calls ++ worker.pc.unforwarded
  answered : worker.received.map Prod.fst = repliedTo worker.calls ++ worker.pc.unanswered
  opened : ∀ fd, fd ∈ worker.opened ↔
    (fd ∈ worker.thread.interest ∧ fd ≠ worker.thread.listenFdOuter) ∨ worker.pc.loose = some fd
  loose : ∀ fd, worker.pc.loose = some fd →
    fd ∉ worker.thread.interest ∧ fd ≠ worker.thread.listenFdOuter
  serving : ∀ fd, worker.pc.serving = some fd →
    fd ∈ worker.thread.interest ∧ fd ≠ worker.thread.listenFdOuter

theorem sound_start (listenFdOuter : Fd) (serversInner : Fin servers → Fd × Fd) :
    (Worker.start listenFdOuter serversInner : Worker servers α).Sound where
  forwarded := rfl
  answered := rfl
  opened := by simp [Worker.start, Pc.loose]
  loose := by simp [Worker.start, Pc.loose]
  serving := by simp [Worker.start, Pc.serving]

/-- A step which only moves on in the loop. -/
theorem Sound.moves {worker : Worker servers α} (sound : worker.Sound) {pc : Pc servers α}
    (same : pc.unforwarded = worker.pc.unforwarded ∧ pc.unanswered = worker.pc.unanswered ∧
      pc.loose = worker.pc.loose)
    (serving : ∀ fd, pc.serving = some fd →
      fd ∈ worker.thread.interest ∧ fd ≠ worker.thread.listenFdOuter) :
    Sound { worker with pc := pc } := by
  rcases same with ⟨unforwarded, unanswered, loose⟩
  refine ⟨?_, ?_, ?_, ?_, serving⟩
  · rw [unforwarded]
    exact sound.forwarded
  · rw [unanswered]
    exact sound.answered
  · rw [loose]
    exact sound.opened
  · rw [loose]
    exact sound.loose

theorem Sound.registers {worker : Worker servers α} (sound : worker.Sound) {fd : Fd}
    {pc : Pc servers α} {added : ℤ} {interest : Finset Fd}
    (registering : Distributor.epollCtlAdd worker.thread.interest fd added = .ok interest)
    (known : fd = worker.thread.listenFdOuter ∧ worker.pc.loose = none ∨
      worker.pc.loose = some fd)
    (unforwarded : pc.unforwarded = worker.pc.unforwarded)
    (unanswered : pc.unanswered = worker.pc.unanswered) (notLoose : pc.loose = none)
    (notServing : pc.serving = none) :
    Sound { worker with pc := pc, thread := { worker.thread with interest := interest } } := by
  rcases Distributor.epollCtlAdd_eq_ok registering with ⟨_, rfl⟩
  refine ⟨?_, ?_, ?_, ?_, ?_⟩
  · rw [unforwarded]
    exact sound.forwarded
  · rw [unanswered]
    exact sound.answered
  · intro other
    simp only [sound.opened other, notLoose, Finset.mem_insert]
    rcases known with ⟨rfl, none⟩ | isLoose
    · simp only [none]
      grind
    · have fresh := sound.loose fd isLoose
      simp only [isLoose]
      grind
  · simp [notLoose]
  · simp [notServing]

theorem Sound.accepts {worker : Worker servers α} (sound : worker.Sound)
    (atAccepting : worker.pc = .accepting) {fd : Fd} (fresh : fd ∉ worker.opened)
    (notListening : fd ≠ worker.thread.listenFdOuter) :
    Sound { worker with pc := .accepted fd, opened := insert fd worker.opened } where
  forwarded := by
    rw [sound.forwarded, atAccepting]
    rfl
  answered := by
    rw [sound.answered, atAccepting]
    rfl
  opened := by
    intro other
    simp only [Finset.mem_insert, sound.opened other, atAccepting, Pc.loose]
    grind
  loose := by
    intro other isLoose
    cases isLoose
    refine ⟨fun registered => fresh ?_, notListening⟩
    exact (sound.opened fd).mpr (Or.inl ⟨registered, notListening⟩)
  serving := by simp [Pc.serving]

theorem Sound.receives {worker : Worker servers α} (sound : worker.Sound) {fd : Fd}
    (atReading : worker.pc = .reading fd) (buf : List α) :
    Sound { worker with
      pc := .selecting fd buf
      received := worker.received ++ [(fd, buf)] } where
  forwarded := by
    have before := sound.forwarded
    simp only [atReading, Pc.unforwarded, List.append_nil] at before
    rw [List.map_append, before]
    rfl
  answered := by
    have before := sound.answered
    simp only [atReading, Pc.unanswered, List.append_nil] at before
    rw [List.map_append, before]
    rfl
  opened := by
    intro other
    rw [sound.opened other, atReading]
    rfl
  loose := by simp [Pc.loose]
  serving := by
    intro other serves
    apply sound.serving other
    rw [atReading]
    exact serves

theorem Sound.selects {worker : Worker servers α} (sound : worker.Sound) {fd : Fd} {buf : List α}
    (atSelecting : worker.pc = .selecting fd buf) {server : Fin servers} {thread : Thread servers}
    (selecting : selectServer worker.thread = .ok (server, thread)) :
    Sound { worker with pc := .forwarding fd buf server, thread := thread } := by
  have same : thread.interest = worker.thread.interest ∧
      thread.listenFdOuter = worker.thread.listenFdOuter := by
    simp only [selectServer] at selecting
    split at selecting
    · cases selecting
    · split at selecting
      · cases selecting
        exact ⟨rfl, rfl⟩
      · cases selecting
  refine ⟨?_, ?_, ?_, ?_, ?_⟩
  · rw [sound.forwarded, atSelecting]
    rfl
  · rw [sound.answered, atSelecting]
    rfl
  · intro other
    rw [sound.opened other, atSelecting, same.1, same.2]
    rfl
  · simp [Pc.loose]
  · intro other serves
    rw [same.1, same.2]
    apply sound.serving other
    rw [atSelecting]
    exact serves

theorem Sound.forwards {worker : Worker servers α} (sound : worker.Sound) {fd : Fd}
    {buf : List α} {server : Fin servers} (atForwarding : worker.pc = .forwarding fd buf server)
    (target : Fd) (writen : ℤ) :
    Sound { worker with
      pc := .replying fd buf.length writen
      calls := worker.calls ++ [.forward server target buf] } where
  forwarded := by
    rw [sound.forwarded, atForwarding, forwardedData_append]
    exact (List.append_nil _).symm
  answered := by
    rw [sound.answered, atForwarding, repliedTo_append]
    simp [repliedTo, Pc.unanswered]
  opened := by
    intro other
    rw [sound.opened other, atForwarding]
    rfl
  loose := by simp [Pc.loose]
  serving := by
    intro other serves
    apply sound.serving other
    rw [atForwarding]
    exact serves

theorem Sound.replies {worker : Worker servers α} (sound : worker.Sound) {fd : Fd} {readn : ℕ}
    {writen : ℤ} (atReplying : worker.pc = .replying fd readn writen) (data : List α) :
    Sound { worker with pc := .waiting, calls := worker.calls ++ [.reply fd data] } where
  forwarded := by
    rw [sound.forwarded, atReplying, forwardedData_append]
    simp [forwardedData, Pc.unforwarded]
  answered := by
    rw [sound.answered, atReplying, repliedTo_append]
    exact (List.append_nil _).symm
  opened := by
    intro other
    rw [sound.opened other, atReplying]
    rfl
  loose := by simp [Pc.loose]
  serving := by simp [Pc.serving]

theorem Sound.unregisters {worker : Worker servers α} (sound : worker.Sound) {fd : Fd}
    (atClosing : worker.pc = .closing fd) :
    Sound { worker with
      pc := .removed fd
      thread := { worker.thread with interest := worker.thread.interest.erase fd } } := by
  have registered := sound.serving fd (by rw [atClosing]; rfl)
  refine ⟨?_, ?_, ?_, ?_, ?_⟩
  · rw [sound.forwarded, atClosing]
    rfl
  · rw [sound.answered, atClosing]
    rfl
  · intro other
    simp only [sound.opened other, atClosing, Pc.loose, Finset.mem_erase]
    grind
  · intro other isLoose
    cases isLoose
    exact ⟨Finset.notMem_erase fd _, registered.2⟩
  · simp [Pc.serving]

theorem Sound.closes {worker : Worker servers α} (sound : worker.Sound) {fd : Fd}
    (atRemoved : worker.pc = .removed fd) :
    Sound { worker with
      pc := .waiting
      opened := worker.opened.erase fd
      calls := worker.calls ++ [.close fd] } := by
  have loose := sound.loose fd (by rw [atRemoved]; rfl)
  refine ⟨?_, ?_, ?_, ?_, ?_⟩
  · rw [sound.forwarded, atRemoved, forwardedData_append]
    simp [forwardedData, Pc.unforwarded]
  · rw [sound.answered, atRemoved, repliedTo_append]
    simp [repliedTo, Pc.unanswered]
  · intro other
    simp only [Finset.mem_erase, sound.opened other, atRemoved, Pc.loose]
    grind
  · simp [Pc.loose]
  · simp [Pc.serving]

theorem Sound.step [Cell α] {worker next : Worker servers α} {event : ThreadEvent α}
    (sound : worker.Sound) (stepped : worker.step event = some (.ok next)) : next.Sound := by
  have none : ∀ {fd : Fd}, (Option.none : Option Fd) = some fd →
      fd ∈ worker.thread.interest ∧ fd ≠ worker.thread.listenFdOuter := by
    intro fd impossible
    cases impossible
  simp only [Worker.step] at stepped
  split at stepped
  · rename_i atSetup
    split at stepped
    · cases stepped
    · rename_i registering
      cases stepped
      exact sound.registers registering (Or.inl ⟨rfl, by rw [atSetup]; rfl⟩)
        (by rw [atSetup]; rfl) (by rw [atSetup]; rfl) rfl rfl
  · rename_i fd events atWaiting
    split at stepped
    · rename_i registered
      split at stepped
      · cases stepped
        exact sound.moves (by rw [atWaiting]; exact ⟨rfl, rfl, rfl⟩) (fun _ => none)
      · rename_i notListening
        split at stepped
        · cases stepped
          apply sound.moves (by rw [atWaiting]; exact ⟨rfl, rfl, rfl⟩)
          rintro other ⟨⟩
          exact ⟨registered, notListening⟩
        · cases stepped
          exact sound
    · cases stepped
  · rename_i fd atAccepting
    split at stepped
    · cases stepped
    · rename_i fresh
      cases stepped
      push Not at fresh
      exact sound.accepts atAccepting fresh.1 fresh.2
  · rename_i errno atAccepting
    split at stepped
    · cases stepped
      exact sound.moves (by rw [atAccepting]; exact ⟨rfl, rfl, rfl⟩) (fun _ => none)
    · cases stepped
  · rename_i fd noDelay atAccepted
    split at stepped
    · cases stepped
    · cases stepped
    · rename_i registering
      cases stepped
      exact sound.registers registering (Or.inr (by rw [atAccepted]; rfl))
        (by rw [atAccepted]; rfl) (by rw [atAccepted]; rfl) rfl rfl
  · rename_i fd readn atReading
    have closing : Sound { worker with pc := .closing fd } := by
      apply sound.moves (by rw [atReading]; exact ⟨rfl, rfl, rfl⟩)
      intro other serves
      apply sound.serving other
      rw [atReading]
      exact serves
    split at stepped
    · split at stepped
      · cases stepped
        exact closing
      · cases stepped
        exact sound.moves (by rw [atReading]; exact ⟨rfl, rfl, rfl⟩) (fun _ => none)
    · split at stepped
      · cases stepped
        exact closing
      · cases stepped
        exact sound.receives atReading _
  · rename_i fd buf atSelecting
    split at stepped
    · cases stepped
    · rename_i selecting
      cases stepped
      exact sound.selects atSelecting selecting
  · rename_i fd buf server writen atForwarding
    cases stepped
    exact sound.forwards atForwarding _ writen
  · rename_i fd readn writen atReplying
    cases stepped
    exact sound.replies atReplying _
  · rename_i fd atClosing
    split at stepped
    · cases stepped
      exact sound.unregisters atClosing
    · cases stepped
  · rename_i fd atRemoved
    cases stepped
    exact sound.closes atRemoved
  · cases stepped

/-- The thread has no client exactly if it has finished with all chunks. -/
theorem Sound.completed_iff_idle {worker : Worker servers α} (sound : worker.Sound) :
    worker.Completed ↔ worker.Idle := by
  constructor
  · intro completed
    have none : ∀ fd, fd ∉ worker.opened := by
      intro fd
      rw [completed.closed]
      exact Finset.notMem_empty fd
    constructor
    · intro fd registered
      rw [Finset.mem_singleton]
      by_contra notListening
      exact none fd ((sound.opened fd).mpr (Or.inl ⟨registered, notListening⟩))
    · rw [Option.eq_none_iff_forall_ne_some]
      intro fd isLoose
      exact none fd ((sound.opened fd).mpr (Or.inr isLoose))
  · rintro ⟨listening, notLoose⟩
    have notServing : worker.pc.serving = none := by
      rw [Option.eq_none_iff_forall_ne_some]
      intro fd serves
      have registered := sound.serving fd serves
      exact registered.2 (Finset.mem_singleton.mp (listening registered.1))
    have nothing : worker.pc.unforwarded = [] ∧ worker.pc.unanswered = [] := by
      cases atPc : worker.pc with
      | selecting fd buf | forwarding fd buf server | replying fd readn writen =>
          rw [atPc] at notServing
          cases notServing
      | _ => exact ⟨rfl, rfl⟩
    refine ⟨?_, ?_, ?_⟩
    · rw [sound.forwarded, nothing.1, List.append_nil]
    · rw [sound.answered, nothing.2, List.append_nil]
    · rw [Finset.eq_empty_iff_forall_notMem]
      intro fd isOpen
      rcases (sound.opened fd).mp isOpen with ⟨registered, notListening⟩ | isLoose
      · exact notListening (Finset.mem_singleton.mp (listening registered))
      · rw [notLoose] at isLoose
        cases isLoose

section Passes

variable [Cell α] {worker : Worker servers α}

/-- The thread after a call which does not end the process. -/
def goesOn (worker : Worker servers α) (event : ThreadEvent α) : Option (Worker servers α) :=
  match worker.step event with
  | some (.ok next) => some next
  | some (.error _) | none => none

theorem goesOn_eq_some {event : ThreadEvent α} {next : Worker servers α}
    (stepped : worker.step event = some (.ok next)) : worker.goesOn event = some next := by
  rw [goesOn, stepped]

theorem exists_run_of_acceptLoop {accepted : List (Fd × ℤ × ℤ)} {errno : Errno}
    {registered : Finset Fd} (sound : worker.Sound) (atAccepting : worker.pc = .accepting)
    (listening : worker.thread.listenFdOuter ∈ worker.thread.interest)
    (accepting : Distributor.acceptLoop worker.thread.interest accepted errno = .ok registered) :
    ∃ path final, Machine.run goesOn worker path = some final ∧ final.pc = .waiting ∧
      final.thread = { worker.thread with interest := registered } ∧
      final.calls = worker.calls := by
  induction accepted generalizing worker with
  | nil =>
      simp only [Distributor.acceptLoop] at accepting
      split at accepting
      · rename_i again
        cases accepting
        have left : worker.step (.acceptFails errno) =
            some (.ok { worker with pc := .waiting }) := by
          simp [step, atAccepting, again]
        exact Machine.exists_run_cons (goesOn_eq_some left) ⟨[], _, rfl, rfl, rfl, rfl⟩
      · cases accepting
  | cons first accepted ih =>
      rcases first with ⟨fd, noDelay, result⟩
      simp only [Distributor.acceptLoop] at accepting
      split at accepting
      · cases accepting
      · cases accepting
      · rename_i added noDelaySet adding
        rcases Distributor.epollCtlAdd_eq_ok adding with ⟨isFresh, grown⟩
        have notListening : fd ≠ worker.thread.listenFdOuter := by
          rintro rfl
          exact isFresh listening
        have notOpen : fd ∉ worker.opened := by
          intro isOpen
          rcases (sound.opened fd).mp isOpen with ⟨already, _⟩ | isLoose
          · exact isFresh already
          · rw [atAccepting] at isLoose
            cases isLoose
        have returned : worker.step (.accept fd) = some (.ok { worker with
            pc := .accepted fd, opened := insert fd worker.opened }) := by
          simp [step, atAccepting, notListening, notOpen]
        have soundReturned := sound.step returned
        have added' : Worker.step { worker with
              pc := .accepted fd, opened := insert fd worker.opened }
              (.register noDelay result) =
            some (.ok { worker with
              pc := .accepting
              thread := { worker.thread with interest := added }
              opened := insert fd worker.opened }) := by
          simp only [step, noDelaySet, adding]
        have stillListening : worker.thread.listenFdOuter ∈ added :=
          grown ▸ Finset.mem_insert_of_mem listening
        apply Machine.exists_run_cons (goesOn_eq_some returned)
        apply Machine.exists_run_cons (goesOn_eq_some added')
        exact ih (soundReturned.step added') rfl stillListening accepting

theorem exists_run_of_closeConnect {fd : Fd} {next : Thread servers}
    {calls : List (Call servers α)} (atClosing : worker.pc = .closing fd)
    (closing : closeConnect worker.thread fd = .ok (next, calls)) :
    ∃ path final, Machine.run goesOn worker path = some final ∧ final.pc = .waiting ∧
      final.thread = next ∧ final.calls = worker.calls ++ calls := by
  simp only [closeConnect] at closing
  split at closing
  · rename_i registered
    cases closing
    have unregistered : worker.step .unregister = some (.ok { worker with
        pc := .removed fd
        thread := { worker.thread with interest := worker.thread.interest.erase fd } }) := by
      simp [step, atClosing, registered]
    exact Machine.exists_run_cons (goesOn_eq_some unregistered) ⟨[.close], _, rfl, rfl, rfl, rfl⟩
  · cases closing

theorem exists_run_of_requestBranch {fd : Fd} {answers : Answers α} {next : Thread servers}
    {calls : List (Call servers α)} (atReading : worker.pc = .reading fd)
    (served : requestBranch worker.thread fd answers = .ok (next, calls)) :
    ∃ path final, Machine.run goesOn worker path = some final ∧ final.pc = .waiting ∧
      final.thread = next ∧ final.calls = worker.calls ++ calls := by
  have closes : worker.step (.read answers.readn) = some (.ok { worker with pc := .closing fd }) →
      closeConnect worker.thread fd = .ok (next, calls) →
      ∃ path final, Machine.run goesOn worker path = some final ∧ final.pc = .waiting ∧
        final.thread = next ∧ final.calls = worker.calls ++ calls := by
    intro read closing
    apply Machine.exists_run_cons (goesOn_eq_some read)
    exact @exists_run_of_closeConnect _ _ _ { worker with pc := .closing fd } fd next calls rfl
      closing
  simp only [requestBranch] at served
  split at served
  · rename_i errno failed
    split at served
    · rename_i serious
      apply closes _ served
      simp [step, atReading, failed, serious]
    · rename_i again
      cases served
      have read : worker.step (.read answers.readn) =
          some (.ok { worker with pc := .waiting }) := by
        simp only [step, atReading, failed, again, if_false]
      apply Machine.exists_run_cons (goesOn_eq_some read)
      exact ⟨[], _, rfl, rfl, rfl, (List.append_nil _).symm⟩
  · rename_i buf received
    split at served
    · rename_i ended
      apply closes _ served
      simp [step, atReading, received, ended]
    · rename_i nonempty
      split at served
      · cases served
      · rename_i server selected selecting
        cases served
        have read : worker.step (.read answers.readn) = some (.ok { worker with
            pc := .selecting fd buf
            received := worker.received ++ [(fd, buf)] }) := by
          simp [step, atReading, received, nonempty]
        have chosen : Worker.step { worker with
              pc := .selecting fd buf
              received := worker.received ++ [(fd, buf)] } .select =
            some (.ok { worker with
              pc := .forwarding fd buf server
              thread := next
              received := worker.received ++ [(fd, buf)] }) := by
          simp only [step, selecting]
        apply Machine.exists_run_cons (goesOn_eq_some read)
        apply Machine.exists_run_cons (goesOn_eq_some chosen)
        exact ⟨[.forward answers.writen, .reply], _, rfl, rfl, rfl, List.append_assoc _ _ _⟩

/-- Every pass which `loopBody` completes is a run of the thread from one entry of `events_`
to the next. -/
theorem exists_run_of_loopBody {fd : Fd} {events : BitVec 32} {answers : Answers α}
    {next : Thread servers} {calls : List (Call servers α)} (sound : worker.Sound)
    (atWaiting : worker.pc = .waiting)
    (listening : worker.thread.listenFdOuter ∈ worker.thread.interest)
    (registered : fd ∈ worker.thread.interest)
    (served : loopBody worker.thread fd events answers = .ok (next, calls)) :
    ∃ path final, Machine.run goesOn worker path = some final ∧ final.pc = .waiting ∧
      final.thread = next ∧ final.calls = worker.calls ++ calls := by
  simp only [loopBody] at served
  split at served
  · rename_i isListener
    split at served
    · cases served
    · rename_i interest accepting
      cases served
      have ready : worker.step (.ready fd events) =
          some (.ok { worker with pc := .accepting }) := by
        simp [step, atWaiting, isListener, listening]
      rw [List.append_nil]
      apply Machine.exists_run_cons (goesOn_eq_some ready)
      exact exists_run_of_acceptLoop (sound.step ready) rfl listening accepting
  · rename_i notListening
    split at served
    · rename_i readable
      have ready : worker.step (.ready fd events) =
          some (.ok { worker with pc := .reading fd }) := by
        simp only [step, atWaiting, registered, notListening, if_true, if_false, readable,
          ne_eq, not_false_eq_true]
      apply Machine.exists_run_cons (goesOn_eq_some ready)
      exact @exists_run_of_requestBranch _ _ _ { worker with pc := .reading fd } fd answers next
        calls rfl served
    · cases served
      exact ⟨[], worker, rfl, atWaiting, rfl, (List.append_nil _).symm⟩

end Passes

end Worker

end LoadBalance.RoundRobin
