import Mathlib.Data.Finset.Lattice.Lemmas
import LoadBalance.Message

/-!
# The event loop of the distributor

The body of the loop over `events_` in `threadFunc` of `algorithm_distributor.cc`,
which serves one ready descriptor. It is a function of the variables of the thread
and of the answers which the kernel and the random generator give to the calls made
during this pass; it returns the new variables and the writes and closes in the
order in which they are made, or the way in which the process ends.

The array `buf` is not kept between two passes: its bytes are only used after a
`read` which has filled it.
-/

universe u

namespace LoadBalance.Distributor

/-- The variables of `threadFunc`, with the tables it shares with `init_inner_mon`. -/
structure Thread (servers : ℕ) (α : Type u) where
  listenFdOuter : Fd
  /-- The descriptors registered with `epollFd`. -/
  interest : Finset Fd
  serverFdSet : Finset Fd
  /-- The work and the monitor descriptor of every inner server. -/
  serversInner : Fin servers → Fd × Fd
  mess : Message α

/-- What is answered to the calls of one pass. A pass makes only some of them. -/
structure Answers (servers : ℕ) (α : Type u) where
  /-- The descriptors which `accept` returns, each with the results of the `setsockopt`
  of `setTcpNoDelay` and of the `epoll_ctl` of `EpollCtl_Add` on it. -/
  accepted : List (Fd × ℤ × ℤ)
  /-- The error of the `accept` which ends the accept loop. -/
  acceptErrno : Errno
  readn : ReadResult α
  /-- The index drawn by `d(e)`. -/
  index : Fin servers
  /-- The result of the `write` to the selected inner server. -/
  writen : ℤ

/-- A call which changes what another process or the descriptor table sees. -/
inductive Call (α : Type u) where
  | write (fd : Fd) (data : List α)
  | close (fd : Fd)
deriving DecidableEq

variable {servers : ℕ} {α : Type u}

/-- `EpollCtl_Add`: registering a descriptor twice fails. For another one `result` is what
`epoll_ctl` returns, which is not 0 when the system lacks memory or watches. -/
def epollCtlAdd (interest : Finset Fd) (fd : Fd) (result : ℤ) : Except Halt (Finset Fd) :=
  if fd ∈ interest ∨ result ≠ 0 then .error (.exit "epoll_ctl add")
  else .ok (insert fd interest)

/-- `CloseConnect`: removing a descriptor which is not registered fails. -/
def closeConnect (thread : Thread servers α) (fd : Fd) :
    Except Halt (Thread servers α × List (Call α)) :=
  if fd ∈ thread.interest then
    .ok ({ thread with interest := thread.interest.erase fd }, [.close fd])
  else .error (.exit "epoll_ctl del")

/-- `setTcpNoDelay`, from the result of its `setsockopt`. -/
def setTcpNoDelay (result : ℤ) : Except Halt Unit :=
  if result < 0 then .error (.exit "setsockopt  reuseport:") else .ok ()

/-- The loop around `accept`, which only `EAGAIN` leaves. -/
def acceptLoop (interest : Finset Fd) : List (Fd × ℤ × ℤ) → Errno → Except Halt (Finset Fd)
  | [], errno => if errno = .eagain then .ok interest else .error (.exit "accept outer")
  | (fd, noDelay, added) :: accepted, errno =>
      match setTcpNoDelay noDelay, epollCtlAdd interest fd added with
      | .error halt, _ => .error halt
      | .ok _, .error halt => .error halt
      | .ok _, .ok registered => acceptLoop registered accepted errno

/-- `get_curSelectedServer_fd`, for the index drawn. -/
def getCurSelectedServerFd (thread : Thread servers α) (index : Fin servers) : Fd :=
  (thread.serversInner index).1

theorem closeConnect_registered {thread : Thread servers α} {fd : Fd}
    (registered : fd ∈ thread.interest) :
    closeConnect thread fd =
      .ok ({ thread with interest := thread.interest.erase fd }, [.close fd]) := by
  simp [closeConnect, registered]

theorem epollCtlAdd_eq_ok {interest registered : Finset Fd} {fd : Fd} {result : ℤ}
    (adding : epollCtlAdd interest fd result = .ok registered) :
    fd ∉ interest ∧ registered = insert fd interest := by
  simp only [epollCtlAdd] at adding
  split at adding
  · cases adding
  · rename_i possible
    cases adding
    exact ⟨fun already => possible (Or.inl already), rfl⟩

/-- The accept loop registers every descriptor, if none is registered yet. -/
theorem acceptLoop_eq_ok {interest : Finset Fd} {accepted : List (Fd × ℤ × ℤ)} {errno : Errno}
    {registered : Finset Fd} (accepting : acceptLoop interest accepted errno = .ok registered) :
    errno = .eagain ∧ registered = interest ∪ (accepted.map Prod.fst).toFinset := by
  induction accepted generalizing interest with
  | nil =>
      simp only [acceptLoop] at accepting
      split at accepting
      · rename_i again
        simp only [Except.ok.injEq] at accepting
        simp [again, accepting]
      · cases accepting
  | cons first accepted ih =>
      rcases first with ⟨fd, noDelay, result⟩
      simp only [acceptLoop] at accepting
      split at accepting
      · cases accepting
      · cases accepting
      · rename_i added adding
        rcases epollCtlAdd_eq_ok adding with ⟨_, rfl⟩
        rcases ih accepting with ⟨again, grown⟩
        refine ⟨again, ?_⟩
        rw [grown, List.map_cons, List.toFinset_cons, Finset.insert_union, Finset.union_insert]

/-- With new descriptors the accept loop goes on exactly if the last `accept` fails with
`EAGAIN` and every other call succeeds. -/
theorem acceptLoop_fresh {interest : Finset Fd} {accepted : List (Fd × ℤ × ℤ)} {errno : Errno}
    (distinct : (accepted.map Prod.fst).Nodup) (fresh : ∀ entry ∈ accepted, entry.1 ∉ interest) :
    acceptLoop interest accepted errno = .ok (interest ∪ (accepted.map Prod.fst).toFinset) ↔
      errno = .eagain ∧ ∀ entry ∈ accepted, 0 ≤ entry.2.1 ∧ entry.2.2 = 0 := by
  induction accepted generalizing interest with
  | nil => simp [acceptLoop]
  | cons first accepted ih =>
      rcases first with ⟨fd, noDelay, result⟩
      simp only [List.forall_mem_cons, List.map_cons, List.nodup_cons] at distinct fresh ⊢
      have rest : ∀ entry ∈ accepted, entry.1 ∉ insert fd interest := by
        intro entry entryMem inserted
        rcases Finset.mem_insert.mp inserted with same | old
        · exact distinct.1 (same ▸ List.mem_map_of_mem entryMem)
        · exact fresh.2 entry entryMem old
      have later := ih distinct.2 rest
      rw [Finset.insert_union, ← Finset.union_insert, ← List.toFinset_cons] at later
      by_cases delay : noDelay < 0
      · simp [acceptLoop, setTcpNoDelay, delay]
      · have set : setTcpNoDelay noDelay = .ok () := if_neg delay
        by_cases added : result = 0
        · have adding : epollCtlAdd interest fd result = .ok (insert fd interest) :=
            if_neg (not_or.mpr ⟨fresh.1, not_not.mpr added⟩)
          have succeeded : 0 ≤ noDelay ∧ result = 0 := ⟨not_lt.mp delay, added⟩
          simp only [acceptLoop, set, adding]
          rw [later, and_iff_right succeeded]
        · simp [acceptLoop, set, epollCtlAdd, added]

variable [Cell α]

/-- The branch of a client descriptor. -/
def requestBranch (thread : Thread servers α) (fd : Fd) (answers : Answers servers α) :
    Except Halt (Thread servers α × List (Call α)) :=
  match answers.readn with
  | .error errno =>
      if errno ≠ .eagain then closeConnect thread fd
      else .ok (thread, [.write fd errRes])
  | .data buf =>
      if buf = [] then closeConnect thread fd
      else if buf.length = normalLen then
        let mess := (thread.mess.setFd fd).store fdLen buf
        let forward := .write (getCurSelectedServerFd thread answers.index) mess.bytes
        .ok ({ thread with mess := mess },
          if answers.writen ≠ messLen then [forward, .write fd errRes] else [forward])
      else .ok (thread, [.write fd errRes])

/-- The branch of a descriptor in `serverFd_set`. -/
def replyBranch (thread : Thread servers α) (answers : Answers servers α) :
    Except Halt (Thread servers α × List (Call α)) :=
  match answers.readn with
  | .error _ => .error (.exit "inner server closed!")
  | .data bytes =>
      if bytes = [] then .error (.exit "inner server closed!")
      else
        -- a short read leaves the rest of the previous message in `mess`
        let mess := thread.mess.store 0 bytes
        if 0 < mess.fd.toInt then
          .ok ({ thread with mess := mess },
            [.write mess.fd (if bytes.length ≠ messLen then errRes else correctRes)])
        else .error (.assertion "clientFd > 0")

/-- One pass of the loop, for the descriptor `events_[i].data.fd` with the given events. -/
def loopBody (thread : Thread servers α) (fd : Fd) (events : BitVec 32)
    (answers : Answers servers α) : Except Halt (Thread servers α × List (Call α)) :=
  if fd = thread.listenFdOuter then
    match acceptLoop thread.interest answers.accepted answers.acceptErrno with
    | .error halt => .error halt
    | .ok interest => .ok ({ thread with interest := interest }, [])
  else if events &&& EPOLLIN ≠ 0 then
    if fd ∉ thread.serverFdSet then requestBranch thread fd answers
    else replyBranch thread answers
  else .ok (thread, [])

section Tables

variable {thread next : Thread servers α} {fd : Fd} {events : BitVec 32}
  {answers : Answers servers α} {calls : List (Call α)}

/-- The variables which `init_inner_mon` and the start of `threadFunc` have set. -/
def Thread.tables (thread : Thread servers α) : Fd × Finset Fd × (Fin servers → Fd × Fd) :=
  (thread.listenFdOuter, thread.serverFdSet, thread.serversInner)

omit [Cell α] in
theorem closeConnect_tables (closed : closeConnect thread fd = .ok (next, calls)) :
    next.tables = thread.tables := by
  simp only [closeConnect] at closed
  split at closed
  · cases closed
    rfl
  · cases closed

theorem requestBranch_tables (served : requestBranch thread fd answers = .ok (next, calls)) :
    next.tables = thread.tables := by
  simp only [requestBranch] at served
  split at served
  · split at served
    · exact closeConnect_tables served
    · cases served
      rfl
  · split at served
    · exact closeConnect_tables served
    · split at served
      · cases served
        rfl
      · cases served
        rfl

theorem replyBranch_tables (served : replyBranch thread answers = .ok (next, calls)) :
    next.tables = thread.tables := by
  simp only [replyBranch] at served
  split at served
  · cases served
  · split at served
    · cases served
    · split at served
      · cases served
        rfl
      · cases served

theorem loopBody_tables (served : loopBody thread fd events answers = .ok (next, calls)) :
    next.tables = thread.tables := by
  simp only [loopBody] at served
  split at served
  · split at served
    · cases served
    · cases served
      rfl
  · split at served
    · split at served
      · exact requestBranch_tables served
      · exact replyBranch_tables served
    · cases served
      rfl

end Tables

section Sizes

variable {thread next : Thread servers α} {fd : Fd} {events : BitVec 32}
  {answers : Answers servers α} {calls : List (Call α)}

omit [Cell α] in
theorem closeConnect_writes (closed : closeConnect thread fd = .ok (next, calls)) {other : Fd}
    {data : List α} : .write other data ∉ calls := by
  simp only [closeConnect] at closed
  split at closed
  · cases closed
    simp
  · cases closed

theorem requestBranch_writes (served : requestBranch thread fd answers = .ok (next, calls))
    {other : Fd} {data : List α} (callMem : .write other data ∈ calls) : data.length ≤ messLen := by
  have short : normalLen ≤ messLen := by decide
  simp only [requestBranch] at served
  split at served
  · split at served
    · exact absurd callMem (closeConnect_writes served)
    · cases served
      simp only [List.mem_singleton, Call.write.injEq] at callMem
      simpa [callMem.2] using short
  · split at served
    · exact absurd callMem (closeConnect_writes served)
    · split at served
      · rename_i _ buf _ _ _
        cases served
        have image := Message.length_bytes ((thread.mess.setFd fd).store fdLen buf)
        split at callMem
        · simp only [List.mem_cons, Call.write.injEq, List.not_mem_nil, or_false] at callMem
          rcases callMem with ⟨_, rfl⟩ | ⟨_, rfl⟩
          · exact image.le
          · simpa using short
        · simp only [List.mem_singleton, Call.write.injEq] at callMem
          rw [callMem.2]
          exact image.le
      · cases served
        simp only [List.mem_singleton, Call.write.injEq] at callMem
        simpa [callMem.2] using short

theorem replyBranch_writes (served : replyBranch thread answers = .ok (next, calls)) {other : Fd}
    {data : List α} (callMem : .write other data ∈ calls) : data.length ≤ messLen := by
  have short : normalLen ≤ messLen := by decide
  simp only [replyBranch] at served
  split at served
  · cases served
  · split at served
    · cases served
    · split at served
      · cases served
        simp only [List.mem_singleton, Call.write.injEq] at callMem
        rw [callMem.2]
        split <;> simpa using short
      · cases served

theorem loopBody_writes (served : loopBody thread fd events answers = .ok (next, calls))
    {other : Fd} {data : List α} (callMem : .write other data ∈ calls) : data.length ≤ messLen := by
  simp only [loopBody] at served
  split at served
  · split at served
    · cases served
    · cases served
      cases callMem
  · split at served
    · split at served
      · exact requestBranch_writes served callMem
      · exact replyBranch_writes served callMem
    · cases served
      cases callMem

end Sizes

section Halts

variable {thread : Thread servers α} {fd : Fd} {events : BitVec 32} {answers : Answers servers α}
  {halt : Halt}

omit [Cell α] in
theorem acceptLoop_error {interest : Finset Fd} {accepted : List (Fd × ℤ × ℤ)} {errno : Errno}
    (failed : acceptLoop interest accepted errno = .error halt) :
    ∃ message, halt = .exit message := by
  induction accepted generalizing interest with
  | nil =>
      simp only [acceptLoop] at failed
      split at failed
      · cases failed
      · cases failed
        exact ⟨_, rfl⟩
  | cons first accepted ih =>
      simp only [acceptLoop, setTcpNoDelay, epollCtlAdd] at failed
      split at failed
      · rename_i noDelay
        split at noDelay
        · cases noDelay
          cases failed
          exact ⟨_, rfl⟩
        · cases noDelay
      · rename_i adding
        split at adding
        · cases adding
          cases failed
          exact ⟨_, rfl⟩
        · cases adding
      · exact ih failed

theorem requestBranch_error_exit (failed : requestBranch thread fd answers = .error halt) :
    ∃ message, halt = .exit message := by
  have closing : ∀ {thread : Thread servers α}, closeConnect thread fd = .error halt →
      ∃ message, halt = .exit message := by
    intro thread closed
    simp only [closeConnect] at closed
    split at closed
    · cases closed
    · cases closed
      exact ⟨_, rfl⟩
  simp only [requestBranch] at failed
  split at failed
  · split at failed
    · exact closing failed
    · cases failed
  · split at failed
    · exact closing failed
    · split at failed
      · cases failed
      · cases failed

/-- Only a reply can make the assertion fail. -/
theorem loopBody_error_exit (notReply : fd = thread.listenFdOuter ∨ fd ∉ thread.serverFdSet)
    (failed : loopBody thread fd events answers = .error halt) :
    ∃ message, halt = .exit message := by
  simp only [loopBody] at failed
  split at failed
  · split at failed
    · rename_i accepting
      cases failed
      exact acceptLoop_error accepting
    · cases failed
  · rename_i notListening
    split at failed
    · split at failed
      · exact requestBranch_error_exit failed
      · rename_i isServer
        exact absurd (notReply.resolve_left notListening) isServer
    · cases failed

end Halts

section Branches

variable {thread : Thread servers α} {fd : Fd} {events : BitVec 32} {answers : Answers servers α}

theorem readable_EPOLLIN : EPOLLIN &&& EPOLLIN ≠ 0 := by decide

theorem loopBody_listen (listening : fd = thread.listenFdOuter) {interest : Finset Fd}
    (accepting : acceptLoop thread.interest answers.accepted answers.acceptErrno = .ok interest) :
    loopBody thread fd events answers = .ok ({ thread with interest := interest }, []) := by
  simp [loopBody, listening, accepting]

theorem loopBody_client (notListening : fd ≠ thread.listenFdOuter)
    (readable : events &&& EPOLLIN ≠ 0) (notServer : fd ∉ thread.serverFdSet) :
    loopBody thread fd events answers = requestBranch thread fd answers := by
  rw [loopBody, if_neg notListening, if_pos readable, if_pos notServer]

theorem loopBody_server (notListening : fd ≠ thread.listenFdOuter)
    (readable : events &&& EPOLLIN ≠ 0) (isServer : fd ∈ thread.serverFdSet) :
    loopBody thread fd events answers = replyBranch thread answers := by
  rw [loopBody, if_neg notListening, if_pos readable, if_neg (not_not.mpr isServer)]

theorem requestBranch_whole {buf : List α} (received : answers.readn = .data buf)
    (whole : buf.length = normalLen) :
    ∃ mess : Message α, mess.bytes = fdBytes fd ++ buf ∧
      requestBranch thread fd answers = .ok ({ thread with mess := mess },
        .write (thread.serversInner answers.index).1 (fdBytes fd ++ buf) ::
          if answers.writen ≠ messLen then [.write fd errRes] else []) := by
  have nonempty : buf ≠ [] := by
    rintro rfl
    simp [normalLen] at whole
  have image := thread.mess.bytes_setFd_store fd whole
  refine ⟨_, image, ?_⟩
  simp only [requestBranch, received, nonempty, if_false, whole, if_true,
    getCurSelectedServerFd, image]
  split <;> rfl

theorem requestBranch_again (again : answers.readn = .error .eagain) :
    requestBranch thread fd answers = .ok (thread, [.write fd errRes]) := by
  simp [requestBranch, again]

theorem requestBranch_short {buf : List α} (received : answers.readn = .data buf)
    (nonempty : buf ≠ []) (short : buf.length ≠ normalLen) :
    requestBranch thread fd answers = .ok (thread, [.write fd errRes]) := by
  simp [requestBranch, received, nonempty, short]

theorem requestBranch_eof (ended : answers.readn = .data []) :
    requestBranch thread fd answers = closeConnect thread fd := by
  simp [requestBranch, ended]

theorem requestBranch_error {errno : Errno} (failed : answers.readn = .error errno)
    (serious : errno ≠ .eagain) :
    requestBranch thread fd answers = closeConnect thread fd := by
  simp [requestBranch, failed, serious]

theorem requestBranch_no_request (registered : fd ∈ thread.interest)
    (nothing : ∀ buf, answers.readn = .data buf → buf.length ≠ normalLen) :
    requestBranch thread fd answers = .ok (thread, [.write fd errRes]) ∨
      requestBranch thread fd answers =
        .ok ({ thread with interest := thread.interest.erase fd }, [.close fd]) := by
  have closes := closeConnect_registered registered
  cases received : answers.readn with
  | error errno =>
      by_cases again : errno = .eagain
      · subst again
        exact Or.inl (requestBranch_again received)
      · exact Or.inr ((requestBranch_error received again).trans closes)
  | data buf =>
      by_cases ended : buf = []
      · subst ended
        exact Or.inr ((requestBranch_eof received).trans closes)
      · exact Or.inl (requestBranch_short received ended (nothing buf received))

/-- A registered client is answered or closed, whatever its `read` returns. -/
theorem requestBranch_registered (registered : fd ∈ thread.interest) :
    (∃ (mess : Message α) (calls : List (Call α)),
        requestBranch thread fd answers = .ok ({ thread with mess := mess }, calls) ∧
          ∀ other, .close other ∉ calls) ∨
      requestBranch thread fd answers =
        .ok ({ thread with interest := thread.interest.erase fd }, [.close fd]) := by
  by_cases request : ∃ buf, answers.readn = .data buf ∧ buf.length = normalLen
  · rcases request with ⟨buf, received, whole⟩
    rcases requestBranch_whole received whole with ⟨mess, _, served⟩
    refine Or.inl ⟨mess, _, served, ?_⟩
    intro other
    split <;> simp
  · have nothing : ∀ buf, answers.readn = .data buf → buf.length ≠ normalLen :=
      fun buf received whole => request ⟨buf, received, whole⟩
    rcases requestBranch_no_request registered nothing with served | served
    · exact Or.inl ⟨thread.mess, _, served, by simp⟩
    · exact Or.inr served

theorem replyBranch_whole {client : Fd} {rest : List α}
    (received : answers.readn = .data (fdBytes client ++ rest))
    (whole : (fdBytes client ++ rest).length = messLen) (positive : 0 < client.toInt) :
    ∃ mess : Message α, mess.bytes = fdBytes client ++ rest ∧
      replyBranch thread answers =
        .ok ({ thread with mess := mess }, [.write client correctRes]) := by
  have image := thread.mess.bytes_store_whole whole
  have tag : (thread.mess.store 0 (fdBytes client ++ rest)).fd = client :=
    Message.fd_eq_of_bytes image
  have nonempty : fdBytes client ++ rest ≠ [] := by
    intro empty
    simp [empty, messLen] at whole
  refine ⟨_, image, ?_⟩
  simp [replyBranch, received, nonempty, tag, positive, whole]

end Branches

end LoadBalance.Distributor
