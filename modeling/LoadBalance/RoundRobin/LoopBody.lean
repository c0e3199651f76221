import LoadBalance.Distributor.LoopBody

/-!
# The event loop of the round-robin distributor

The body of the loop over `events_` in `threadFunc` of `round_robin_distributor.cc`. As
in the other distributor it is a function of the variables of the thread and of the
answers to the calls of one pass. The functions around `accept` are the same in both
programs. A request is forwarded as it was read, in one piece of up to `BUFSIZ` bytes,
and it is answered in the pass which has read it.
-/

universe u

namespace LoadBalance.RoundRobin

/-- The variables of `threadFunc`, and the globals which `main` has set. The array `buf` is
only used after a `read` which has filled it. -/
structure Thread (servers : ℕ) where
  listenFdOuter : Fd
  /-- The descriptors registered with `epollFd`. -/
  interest : Finset Fd
  /-- The work and the monitor descriptor of every inner server. -/
  serversInner : Fin servers → Fd × Fd
  curSelectedServerIndex : ℤ

/-- What is answered to the calls of one pass. A pass makes only some of them. -/
structure Answers (α : Type u) where
  /-- With the results of `setsockopt` and of `epoll_ctl` for each descriptor. -/
  accepted : List (Fd × ℤ × ℤ)
  acceptErrno : Errno
  readn : ReadResult α
  /-- The result of the `write` to the selected inner server. -/
  writen : ℤ

/-- A call which changes what another process or the descriptor table sees. -/
inductive Call (servers : ℕ) (α : Type u) where
  | forward (server : Fin servers) (fd : Fd) (data : List α)
  | reply (fd : Fd) (data : List α)
  | close (fd : Fd)
deriving DecidableEq

/-- The ways in which a pass does not come to its end. -/
inductive Stop where
  | halt (halt : Halt)
  /-- The wait on `cond`, which nobody notifies. -/
  | waits
  /-- An access to `servers_inner` outside of its bounds. -/
  | outOfBounds
deriving DecidableEq, Repr

/-- The variables with which `main` starts the thread; `listenFd_outer` is registered. -/
def Thread.start {servers : ℕ} (listenFdOuter : Fd) (serversInner : Fin servers → Fd × Fd) :
    Thread servers where
  listenFdOuter := listenFdOuter
  interest := {listenFdOuter}
  serversInner := serversInner
  curSelectedServerIndex := 0

variable {servers : ℕ} {α : Type u}

/-- The block under `mtx`: the server for this request, and the index moved on. -/
def selectServer (thread : Thread servers) : Except Stop (Fin servers × Thread servers) :=
  if thread.curSelectedServerIndex < 0 then .error .waits
  else if inside : thread.curSelectedServerIndex.toNat < servers then
    let next := thread.curSelectedServerIndex + 1
    .ok (⟨thread.curSelectedServerIndex.toNat, inside⟩,
      { thread with curSelectedServerIndex := if (servers : ℤ) ≤ next then 0 else next })
  else .error .outOfBounds

/-- The reply to a request of which `writen` bytes out of `readn` were forwarded. -/
def response [Cell α] (writen : ℤ) (readn : ℕ) : List α :=
  if writen = readn then correctRes else errRes

def closeConnect (thread : Thread servers) (fd : Fd) :
    Except Stop (Thread servers × List (Call servers α)) :=
  if fd ∈ thread.interest then
    .ok ({ thread with interest := thread.interest.erase fd }, [.close fd])
  else .error (.halt (.exit "epoll_ctl del"))

variable [Cell α]

/-- The branch of a client descriptor. -/
def requestBranch (thread : Thread servers) (fd : Fd) (answers : Answers α) :
    Except Stop (Thread servers × List (Call servers α)) :=
  match answers.readn with
  | .error errno => if errno ≠ .eagain then closeConnect thread fd else .ok (thread, [])
  | .data buf =>
      if buf = [] then closeConnect thread fd
      else
        match selectServer thread with
        | .error stop => .error stop
        | .ok (server, next) =>
            .ok (next, [.forward server (next.serversInner server).1 buf,
              .reply fd (response answers.writen buf.length)])

/-- One pass of the loop, for the descriptor `events_[i].data.fd` with the given events. -/
def loopBody (thread : Thread servers) (fd : Fd) (events : BitVec 32) (answers : Answers α) :
    Except Stop (Thread servers × List (Call servers α)) :=
  if fd = thread.listenFdOuter then
    match Distributor.acceptLoop thread.interest answers.accepted answers.acceptErrno with
    | .error halt => .error (.halt halt)
    | .ok interest => .ok ({ thread with interest := interest }, [])
  else if events &&& EPOLLIN ≠ 0 then requestBranch thread fd answers
  else .ok (thread, [])

/-- The servers to which requests were forwarded, with the descriptors written to. -/
def forwards (calls : List (Call servers α)) : List (Fin servers × Fd) :=
  calls.filterMap fun call => match call with
    | .forward server fd _ => some (server, fd)
    | .reply _ _ => none
    | .close _ => none

def forwardedData (calls : List (Call servers α)) : List (List α) :=
  calls.filterMap fun call => match call with
    | .forward _ _ data => some data
    | .reply _ _ => none
    | .close _ => none

def repliedTo (calls : List (Call servers α)) : List Fd :=
  calls.filterMap fun call => match call with
    | .forward _ _ _ => none
    | .reply fd _ => some fd
    | .close _ => none

omit [Cell α] in
theorem forwardedData_append (first second : List (Call servers α)) :
    forwardedData (first ++ second) = forwardedData first ++ forwardedData second :=
  List.filterMap_append

omit [Cell α] in
theorem repliedTo_append (first second : List (Call servers α)) :
    repliedTo (first ++ second) = repliedTo first ++ repliedTo second :=
  List.filterMap_append

omit [Cell α] in
theorem forwards_append (first second : List (Call servers α)) :
    forwards (first ++ second) = forwards first ++ forwards second :=
  List.filterMap_append

section Selection

variable {thread : Thread servers}

theorem selectServer_eq {index : ℕ} (selected : thread.curSelectedServerIndex = index)
    (inside : index < servers) :
    selectServer thread = .ok (⟨index, inside⟩,
      { thread with curSelectedServerIndex := ((index + 1) % servers : ℕ) }) := by
  have next : (if (servers : ℤ) ≤ (index : ℤ) + 1 then (0 : ℤ) else (index : ℤ) + 1) =
      ((index + 1) % servers : ℕ) := by
    by_cases last : index + 1 = servers
    · rw [if_pos (by omega), last, Nat.mod_self]
      rfl
    · rw [if_neg (by omega), Nat.mod_eq_of_lt (by omega)]
      rfl
  have notNegative : ¬(index : ℤ) < 0 := by omega
  simp only [selectServer, selected, notNegative, if_false, Int.toNat_natCast, inside, dif_pos,
    next]

end Selection

/-- What a pass can do: it forwards one request to the selected server and answers it, or
it leaves the index alone. -/
theorem loopBody_cases {thread next : Thread servers} {fd : Fd} {events : BitVec 32}
    {answers : Answers α} {calls : List (Call servers α)}
    (served : loopBody thread fd events answers = .ok (next, calls)) :
    (∃ server buf, answers.readn = .data buf ∧ buf ≠ [] ∧
        selectServer thread = .ok (server, next) ∧
        calls = [.forward server (next.serversInner server).1 buf,
          .reply fd (response answers.writen buf.length)]) ∨
      (next.curSelectedServerIndex = thread.curSelectedServerIndex ∧
        next.serversInner = thread.serversInner ∧ (calls = [] ∨ calls = [.close fd])) := by
  have closing : ∀ {thread next : Thread servers} {calls : List (Call servers α)},
      closeConnect thread fd = .ok (next, calls) →
        next.curSelectedServerIndex = thread.curSelectedServerIndex ∧
          next.serversInner = thread.serversInner ∧ (calls = [] ∨ calls = [.close fd]) := by
    intro thread next calls closed
    simp only [closeConnect] at closed
    split at closed
    · cases closed
      exact ⟨rfl, rfl, Or.inr rfl⟩
    · cases closed
  simp only [loopBody] at served
  split at served
  · split at served
    · cases served
    · cases served
      exact Or.inr ⟨rfl, rfl, Or.inl rfl⟩
  · split at served
    · simp only [requestBranch] at served
      split at served
      · split at served
        · exact Or.inr (closing served)
        · cases served
          exact Or.inr ⟨rfl, rfl, Or.inl rfl⟩
      · rename_i buf received
        split at served
        · exact Or.inr (closing served)
        · rename_i nonempty
          split at served
          · cases served
          · rename_i server selected selecting
            cases served
            exact Or.inl ⟨server, buf, received, nonempty, selecting, rfl⟩
    · cases served
      exact Or.inr ⟨rfl, rfl, Or.inl rfl⟩

theorem loopBody_data {thread next : Thread servers} {fd : Fd} {events : BitVec 32}
    {answers : Answers α} {calls : List (Call servers α)} {buf : List α}
    (notListening : fd ≠ thread.listenFdOuter) (readable : events &&& EPOLLIN ≠ 0)
    (received : answers.readn = .data buf) (nonempty : buf ≠ [])
    (served : loopBody thread fd events answers = .ok (next, calls)) :
    ∃ server, calls = [.forward server (next.serversInner server).1 buf,
      .reply fd (response answers.writen buf.length)] := by
  rw [loopBody, if_neg notListening, if_pos readable] at served
  simp only [requestBranch, received, nonempty, if_false] at served
  split at served
  · cases served
  · rename_i server selected _
    cases served
    exact ⟨server, rfl⟩

/-- Where the selection succeeds, the pass comes to its end or the process does. -/
theorem loopBody_error_halt {thread : Thread servers} {fd : Fd} {events : BitVec 32}
    {answers : Answers α} {stop : Stop}
    (selects : ∃ selected, selectServer thread = .ok selected)
    (failed : loopBody thread fd events answers = .error stop) : ∃ halt, stop = .halt halt := by
  rcases selects with ⟨⟨server, selected⟩, selecting⟩
  have closing : @closeConnect servers α thread fd = .error stop → ∃ halt, stop = .halt halt := by
    intro closed
    simp only [closeConnect] at closed
    split at closed
    · cases closed
    · cases closed
      exact ⟨_, rfl⟩
  simp only [loopBody] at failed
  split at failed
  · split at failed
    · cases failed
      exact ⟨_, rfl⟩
    · cases failed
  · split at failed
    · simp only [requestBranch, selecting] at failed
      split at failed
      · split at failed
        · exact closing failed
        · cases failed
      · split at failed
        · exact closing failed
        · cases failed
    · cases failed

end LoadBalance.RoundRobin
