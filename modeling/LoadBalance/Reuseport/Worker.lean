import Mathlib.Data.Nat.Digits.Defs
import LoadBalance.Lib.Machine
import LoadBalance.Posix

/-!
# A worker of the reuseport server

`do_work` of `server_reuseport.cc`, from its loop on. Every registered descriptor has a
`Conn` on the heap, which the kernel hands back as a pointer with each event: the pass
reads the descriptor through this pointer, and deletes the `Conn` when the client has
gone. The allocator may give out an address again as soon as it is free, and so may the
kernel with the number of a descriptor. Nothing keeps the entries of `events_` which are
still to be served from pointing to what an earlier pass has deleted, except that
`epoll_wait` reports no descriptor twice.
-/

namespace LoadBalance.Reuseport

/-- An address on the heap. -/
abbrev Ptr := ℕ

/-- The member of `struct Conn` which is read again. -/
structure Conn where
  connFd : Fd
deriving DecidableEq, Repr

/-- The variables of `do_work`, with what belongs to its process. -/
structure Worker where
  listenFd : Fd
  /-- The descriptors registered with `epollFd`, each with its `data.ptr`. -/
  interest : Fd → Option Ptr
  heap : Ptr → Option Conn
  /-- The entries of `events_` which are still to be served. -/
  events : List (Ptr × BitVec 32)
  counter : BitVec 64
  /-- What has been written to the file of the worker. -/
  out : List Byte

/-- What is answered to the calls of one pass. A pass makes only some of them. -/
structure Answers where
  accepted : Fd
  /-- What `new` returns. -/
  address : Ptr
  noDelay : ℤ
  /-- The result of `EPOLL_CTL_ADD` for a descriptor which is not registered. -/
  added : ℤ
  readn : ReadResult Byte

/-- A call which changes what is seen outside of the process. -/
inductive Call where
  | close (fd : Fd)
  /-- The line for the bytes read from a descriptor. -/
  | line (fd : Fd) (buf : List Byte)
deriving DecidableEq

/-- The ways in which a pass does not come to its end. -/
inductive Stop where
  | halt (halt : Halt)
  /-- An access through a pointer to what is not allocated. -/
  | dangling
deriving DecidableEq, Repr

/-- `out << counter` -/
def decimal (counter : BitVec 64) : List Byte :=
  (Nat.toDigits 10 counter.toNat).map fun char => BitVec.ofNat 8 char.toNat

def tab : Byte := 9

def newline : Byte := 10

/-- What is written between the number and the end of the line. -/
def field (counter : BitVec 64) (buf : List Byte) : List Byte := decimal counter ++ tab :: buf

/-- `MAX_EVENT` -/
def maxEvent : ℕ := 65535

namespace Worker

/-- The worker at the head of its loop; `newConn_L` is on the heap. -/
def start (listenFd : Fd) (address : Ptr) : Worker where
  listenFd := listenFd
  interest := Function.update (fun _ => none) listenFd (some address)
  heap := Function.update (fun _ => none) address (some ⟨listenFd⟩)
  events := []
  counter := 0
  out := []

def register (worker : Worker) (fd : Fd) (address : Ptr) : Worker :=
  { worker with
    interest := Function.update worker.interest fd (some address)
    heap := Function.update worker.heap address (some ⟨fd⟩) }

/-- `EPOLL_CTL_DEL` and `delete` -/
def release (worker : Worker) (fd : Fd) (ptr : Ptr) : Worker :=
  { worker with
    interest := Function.update worker.interest fd none
    heap := Function.update worker.heap ptr none }

/-- `++counter`, and the line for the bytes which were read. -/
def log (worker : Worker) (buf : List Byte) : Worker :=
  { worker with
    counter := worker.counter + 1
    out := worker.out ++ (field (worker.counter + 1) buf ++ [newline]) }

/-- The branch of the listening socket. -/
def acceptBranch (worker : Worker) (answers : Answers) : Except Stop (Worker × List Call) :=
  if answers.accepted.toInt < 0 then .ok (worker, [])
  else if answers.noDelay < 0 then .error (.halt (.exit "setsockopt  reuseport:"))
  else if worker.interest answers.accepted ≠ none ∨ answers.added ≠ 0 then
    .error (.halt (.exit "epoll_ctl"))
  else .ok (worker.register answers.accepted answers.address, [])

def closeBranch (worker : Worker) (fd : Fd) (ptr : Ptr) : Except Stop (Worker × List Call) :=
  if worker.interest fd = none then .error (.halt (.exit "epoll_ctl"))
  else .ok (worker.release fd ptr, [.close fd])

def readBranch (worker : Worker) (fd : Fd) (ptr : Ptr) (readn : ReadResult Byte) :
    Except Stop (Worker × List Call) :=
  match readn with
  | .error errno => if errno ≠ .eagain then worker.closeBranch fd ptr else .ok (worker, [])
  | .data buf =>
      if buf = [] then worker.closeBranch fd ptr else .ok (worker.log buf, [.line fd buf])

/-- One pass of the loop over `events_`. -/
def loopBody (worker : Worker) (ptr : Ptr) (eve : BitVec 32) (answers : Answers) :
    Except Stop (Worker × List Call) :=
  match worker.heap ptr with
  | none => .error .dangling
  | some conn =>
      if conn.connFd = worker.listenFd then worker.acceptBranch answers
      else if eve &&& EPOLLIN ≠ 0 then worker.readBranch conn.connFd ptr answers.readn
      else .ok (worker, [])

inductive Event where
  /-- `epoll_wait` returns these descriptors, with their events. -/
  | wait (ready : List (Fd × BitVec 32))
  /-- The next entry of `events_` is served. -/
  | pass (answers : Answers)

/-- `epoll_wait` reports registered descriptors, each of them once. -/
def Reports (worker : Worker) (ready : List (Fd × BitVec 32)) : Prop :=
  ready.length ≤ maxEvent ∧ (ready.map Prod.fst).Nodup ∧
    (ready.all fun entry => (worker.interest entry.1).isSome) = true

instance (worker : Worker) (ready : List (Fd × BitVec 32)) : Decidable (worker.Reports ready) :=
  inferInstanceAs (Decidable (_ ∧ _ ∧ _))

/-- What the kernel writes to `events_`. -/
def entries (worker : Worker) (ready : List (Fd × BitVec 32)) : List (Ptr × BitVec 32) :=
  ready.filterMap fun entry => (worker.interest entry.1).map fun ptr => (ptr, entry.2)

/-- A step of the worker. `new` returns an address which is not in use. -/
def step (worker : Worker) : Event → Option Worker
  | .wait ready =>
      if worker.events = [] ∧ worker.Reports ready then
        some { worker with events := worker.entries ready }
      else none
  | .pass answers =>
      match worker.events with
      | [] => none
      | (ptr, eve) :: rest =>
          if worker.heap answers.address = none then
            match loopBody { worker with events := rest } ptr eve answers with
            | .error _ => none
            | .ok (next, _) => some next
          else none

/-- What a pass can do. -/
inductive Served (worker : Worker) (ptr : Ptr) (fd : Fd) (eve : BitVec 32) (answers : Answers) :
    Worker → List Call → Prop where
  | refused (isListening : fd = worker.listenFd) (failed : answers.accepted.toInt < 0) :
      Served worker ptr fd eve answers worker []
  | idle (isClient : fd ≠ worker.listenFd)
      (nothing : eve &&& EPOLLIN = 0 ∨ answers.readn = .error .eagain) :
      Served worker ptr fd eve answers worker []
  | accepted (isListening : fd = worker.listenFd) (valid : ¬answers.accepted.toInt < 0)
      (unused : worker.interest answers.accepted = none) :
      Served worker ptr fd eve answers (worker.register answers.accepted answers.address) []
  | closed (isClient : fd ≠ worker.listenFd) (gone : answers.readn ≠ .error .eagain)
      (nothing : ∀ buf, answers.readn = .data buf → buf = []) :
      Served worker ptr fd eve answers (worker.release fd ptr) [.close fd]
  | logged (isClient : fd ≠ worker.listenFd) (buf : List Byte)
      (received : answers.readn = .data buf) (nonempty : buf ≠ []) :
      Served worker ptr fd eve answers (worker.log buf) [.line fd buf]

theorem served_of_loopBody {worker next : Worker} {ptr : Ptr} {eve : BitVec 32}
    {answers : Answers} {calls : List Call}
    (served : worker.loopBody ptr eve answers = .ok (next, calls)) :
    ∃ conn, worker.heap ptr = some conn ∧
      Served worker ptr conn.connFd eve answers next calls := by
  simp only [loopBody] at served
  split at served
  · cases served
  · rename_i conn found
    refine ⟨conn, found, ?_⟩
    have closing : ∀ {next calls}, conn.connFd ≠ worker.listenFd →
        answers.readn ≠ .error .eagain → (∀ buf, answers.readn = .data buf → buf = []) →
        worker.closeBranch conn.connFd ptr = .ok (next, calls) →
        Served worker ptr conn.connFd eve answers next calls := by
      intro next calls isClient gone nothing closing
      rw [closeBranch] at closing
      split at closing
      · cases closing
      · cases closing
        exact .closed isClient gone nothing
    split at served
    · rename_i isListening
      simp only [acceptBranch] at served
      split at served
      · rename_i failed
        cases served
        exact .refused isListening failed
      · rename_i valid
        split at served
        · cases served
        · split at served
          · cases served
          · rename_i unused
            cases served
            exact .accepted isListening valid (not_not.mp (not_or.mp unused).1)
    · rename_i isClient
      split at served
      · simp only [readBranch] at served
        split at served
        · rename_i errno failed
          split at served
          · rename_i other
            apply closing isClient
            · rw [failed]
              intro same
              cases same
              exact other rfl
            · intro buf impossible
              rw [failed] at impossible
              cases impossible
            · exact served
          · rename_i again
            cases served
            exact .idle isClient (.inr (by rw [failed, not_not.mp again]))
        · rename_i buf received
          split at served
          · rename_i empty
            apply closing isClient
            · rw [received]
              simp
            · intro other same
              rw [received] at same
              cases same
              exact empty
            · exact served
          · rename_i nonempty
            cases served
            exact .logged isClient buf received nonempty
      · rename_i notReadable
        cases served
        exact .idle isClient (.inl (not_not.mp notReadable))

/-- The registered descriptors and the heap belong together, and so do the heap and the
events which are still to be served. -/
structure Sound (worker : Worker) : Prop where
  listens : worker.interest worker.listenFd ≠ none
  held : ∀ fd ptr, worker.interest fd = some ptr ↔ worker.heap ptr = some ⟨fd⟩
  distinct : (worker.events.map Prod.fst).Nodup
  live : ∀ entry ∈ worker.events, worker.heap entry.1 ≠ none

theorem sound_start (listenFd : Fd) (address : Ptr) : (start listenFd address).Sound where
  listens := by simp [start]
  held := by
    intro fd ptr
    simp only [start, Function.update_apply]
    split
    · rename_i same
      subst same
      simp [eq_comm]
    · rename_i other
      split
      · simp only [reduceCtorEq, Option.some.injEq, Conn.mk.injEq, false_iff]
        exact fun same => other same.symm
      · simp
  distinct := List.nodup_nil
  live := List.forall_mem_nil _

variable {worker next : Worker} {ptr : Ptr} {fd : Fd} {answers : Answers} {calls : List Call}

theorem Sound.register (sound : worker.Sound) {address : Ptr}
    (unused : worker.interest fd = none) (fresh : worker.heap address = none) :
    (worker.register fd address).Sound where
  listens := by
    simp only [Worker.register, Function.update_apply]
    split
    · simp
    · exact sound.listens
  held := by
    intro other ptr
    simp only [Worker.register, Function.update_apply]
    by_cases sameFd : other = fd
    · by_cases samePtr : ptr = address
      · simp [sameFd, samePtr]
      · have apart : worker.heap ptr ≠ some ⟨fd⟩ := by
          rw [ne_eq, ← sound.held, unused]
          simp
        simp [sameFd, samePtr, apart, Ne.symm samePtr]
    · by_cases samePtr : ptr = address
      · have apart : worker.interest other ≠ some address := by
          rw [ne_eq, sound.held, fresh]
          simp
        simp [sameFd, samePtr, apart, Ne.symm sameFd]
      · simp only [sameFd, samePtr, if_false]
        exact sound.held other ptr
  distinct := sound.distinct
  live := by
    intro entry entryMem
    simp only [Worker.register, Function.update_apply]
    split
    · simp
    · exact sound.live entry entryMem

theorem Sound.release (sound : worker.Sound) (isClient : fd ≠ worker.listenFd)
    (found : worker.heap ptr = some ⟨fd⟩) (served : ∀ entry ∈ worker.events, entry.1 ≠ ptr) :
    (worker.release fd ptr).Sound where
  listens := by
    simp only [Worker.release, Function.update_of_ne (Ne.symm isClient)]
    exact sound.listens
  held := by
    intro other address
    simp only [Worker.release, Function.update_apply]
    by_cases sameFd : other = fd
    · have apart : address ≠ ptr → worker.heap address ≠ some ⟨fd⟩ := by
        intro different again
        rw [← sound.held, (sound.held fd ptr).mpr found] at again
        exact different (Option.some.inj again).symm
      by_cases samePtr : address = ptr
      · simp [sameFd, samePtr]
      · simp [sameFd, samePtr, apart samePtr]
    · by_cases samePtr : address = ptr
      · have apart : worker.interest other ≠ some ptr := by
          rw [ne_eq, sound.held, found]
          simp [Ne.symm sameFd]
        simp [sameFd, samePtr, apart]
      · simp only [sameFd, samePtr, if_false]
        exact sound.held other address
  distinct := sound.distinct
  live := by
    intro entry entryMem
    simp only [Worker.release, Function.update_of_ne (served entry entryMem)]
    exact sound.live entry entryMem

theorem Sound.served (sound : worker.Sound) (found : worker.heap ptr = some ⟨fd⟩)
    (others : ∀ entry ∈ worker.events, entry.1 ≠ ptr)
    (fresh : fd = worker.listenFd → worker.heap answers.address = none)
    {eve : BitVec 32} (served : Served worker ptr fd eve answers next calls) : next.Sound := by
  cases served with
  | refused | idle => exact sound
  | accepted isListening _ unused => exact sound.register unused (fresh isListening)
  | closed isClient _ _ => exact sound.release isClient found others
  | logged => exact ⟨sound.listens, sound.held, sound.distinct, sound.live⟩

/-- The entries point to the heap, and no two of them to the same place. -/
theorem Sound.wait (sound : worker.Sound) {ready : List (Fd × BitVec 32)}
    (reports : worker.Reports ready) : { worker with events := worker.entries ready }.Sound where
  listens := sound.listens
  held := sound.held
  distinct := by
    have distinct := reports.2.1
    simp only [entries, List.Nodup, List.map_filterMap, List.pairwise_filterMap,
      List.pairwise_map] at distinct ⊢
    refine distinct.imp ?_
    intro first second different ptr isFirst other isSecond
    simp only [Option.map_map, Option.map_eq_some_iff, Function.comp_apply] at isFirst isSecond
    rcases isFirst with ⟨_, firstHeld, rfl⟩
    rcases isSecond with ⟨_, secondHeld, rfl⟩
    rintro rfl
    rw [sound.held] at firstHeld secondHeld
    rw [firstHeld, Option.some.injEq, Conn.mk.injEq] at secondHeld
    exact different secondHeld
  live := by
    intro entry entryMem
    rcases List.mem_filterMap.mp entryMem with ⟨reported, _, isEntry⟩
    rcases Option.map_eq_some_iff.mp isEntry with ⟨ptr, isHeld, rfl⟩
    rw [sound.held] at isHeld
    simp [isHeld]

theorem Sound.pass {eve : BitVec 32} {rest : List (Ptr × BitVec 32)} (sound : worker.Sound)
    (first : worker.events = (ptr, eve) :: rest) :
    { worker with events := rest }.Sound ∧ (∀ entry ∈ rest, entry.1 ≠ ptr) ∧
      ∃ fd, worker.heap ptr = some ⟨fd⟩ := by
  have distinct := sound.distinct
  have live := sound.live
  rw [first, List.map_cons, List.nodup_cons] at distinct
  simp only [first, List.forall_mem_cons] at live
  refine ⟨⟨sound.listens, sound.held, distinct.2, live.2⟩, ?_, ?_⟩
  · rintro entry entryMem rfl
    exact distinct.1 (List.mem_map.mpr ⟨entry, entryMem, rfl⟩)
  · rcases Option.ne_none_iff_exists'.mp live.1 with ⟨conn, found⟩
    exact ⟨conn.connFd, found⟩

theorem Sound.step {event : Event} (sound : worker.Sound)
    (stepped : worker.step event = some next) : next.Sound := by
  cases event with
  | wait ready =>
      simp only [Worker.step] at stepped
      split at stepped
      · rename_i possible
        cases stepped
        exact sound.wait possible.2
      · cases stepped
  | pass answers =>
      simp only [Worker.step] at stepped
      split at stepped
      · cases stepped
      · rename_i ptr eve rest first
        rcases sound.pass first with ⟨remaining, others, fd, found⟩
        split at stepped
        · rename_i fresh
          split at stepped
          · cases stepped
          · rename_i after calls passed
            cases stepped
            rcases served_of_loopBody passed with ⟨conn, foundConn, served⟩
            rw [found, Option.some.injEq] at foundConn
            subst foundConn
            exact remaining.served found others (fun _ => fresh) served
        · cases stepped

/-- A pass for a registered client comes to its end. -/
theorem exists_loopBody_of_client {eve : BitVec 32} (found : worker.heap ptr = some ⟨fd⟩)
    (registered : worker.interest fd ≠ none) (isClient : fd ≠ worker.listenFd)
    (answers : Answers) : ∃ after, worker.loopBody ptr eve answers = .ok after := by
  simp only [loopBody, found, isClient, if_false]
  split
  · simp only [readBranch, closeBranch, registered, if_false]
    split
    · split
      · exact ⟨_, rfl⟩
      · exact ⟨_, rfl⟩
    · split
      · exact ⟨_, rfl⟩
      · exact ⟨_, rfl⟩
  · exact ⟨_, rfl⟩

theorem acceptBranch_ne_dangling (answers : Answers) :
    worker.acceptBranch answers ≠ .error .dangling := by
  simp only [acceptBranch]
  split
  · simp
  · split
    · simp
    · split
      · simp
      · simp

/--
Whatever `accept`, `read` and the allocator answer, in every state which a worker reaches
there is exactly one `Conn` for each registered descriptor, no event which is still to be served
points to a deleted one, and a pass for a client comes to its end.
-/
theorem memory_safe (listenFd : Fd) (address : Ptr)
    (reachable : Machine.Reachable step (start listenFd address) worker) :
    (∀ fd ptr, worker.interest fd = some ptr ↔ worker.heap ptr = some ⟨fd⟩) ∧
      (∀ entry ∈ worker.events, worker.heap entry.1 ≠ none) ∧
      ∀ ptr eve rest, worker.events = (ptr, eve) :: rest → ∀ answers : Answers,
        { worker with events := rest }.loopBody ptr eve answers ≠ .error .dangling ∧
          (worker.heap ptr ≠ some ⟨worker.listenFd⟩ →
            ∃ after, { worker with events := rest }.loopBody ptr eve answers = .ok after) := by
  have sound := reachable.invariant Sound (fun sound stepped => sound.step stepped)
    (sound_start listenFd address)
  refine ⟨sound.held, sound.live, ?_⟩
  intro ptr eve rest first answers
  rcases sound.pass first with ⟨remaining, _, fd, found⟩
  have registered : worker.interest fd ≠ none := by
    rw [(sound.held fd ptr).mpr found]
    simp
  have passes : fd ≠ worker.listenFd →
      ∃ after, { worker with events := rest }.loopBody ptr eve answers = .ok after :=
    fun isClient => @exists_loopBody_of_client { worker with events := rest } ptr fd eve found
      registered isClient answers
  constructor
  · by_cases isClient : fd = worker.listenFd
    · simp only [loopBody, found, isClient, if_true]
      exact acceptBranch_ne_dangling answers
    · rcases passes isClient with ⟨after, passed⟩
      rw [passed]
      simp
  · intro notListening
    apply passes
    rintro rfl
    exact notListening found

/-- A client is accepted, is read in one batch with the listening socket, and is gone. Its
address and its descriptor are given out again before the batch ends. -/
def sampleRun : List Event :=
  let answers (accepted : Fd) (readn : ReadResult Byte) : Answers :=
    { accepted := accepted, address := 1, noDelay := 0, added := 0, readn := readn }
  [.wait [(3, EPOLLIN)], .pass (answers 7 (.error .eagain)),
    .wait [(7, EPOLLIN), (3, EPOLLIN)],
    .pass { answers 7 (.data []) with address := 2 }, .pass (answers 7 (.error .eagain)),
    .wait [(7, EPOLLIN)]]

theorem memory_safe_sampleRun :
    ∃ worker : Worker, Machine.Reachable step (start 3 0) worker ∧
      worker.events = [(1, EPOLLIN)] ∧ worker.heap 1 ≠ none ∧
      ∀ answers, { worker with events := [] }.loopBody 1 EPOLLIN answers ≠ .error .dangling := by
  have ran : ((Machine.run step (start 3 0) sampleRun).any fun worker =>
      worker.events = [(1, EPOLLIN)]) = true := by
    decide +kernel
  rcases Machine.exists_reachable_of_any sampleRun ran with ⟨worker, reachable, shown⟩
  have pending := of_decide_eq_true shown
  have safe := memory_safe 3 0 reachable
  exact ⟨worker, reachable, pending, safe.2.1 (1, EPOLLIN) (by rw [pending]; simp),
    fun answers => (safe.2.2 1 EPOLLIN [] pending answers).1⟩

end Worker

end LoadBalance.Reuseport
