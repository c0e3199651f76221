import LoadBalance.Lib.Machine
import LoadBalance.Lib.Rotation
import LoadBalance.RoundRobin.LoopBody

/-!
# Fairness of the round-robin distributor

The service loop over any sequence of ready descriptors. The index is moved on with
every request that is forwarded, whether the `write` succeeds or not, and by nothing
else; so the number of forwards made so far determines it, and the forwards follow the
rotation of the servers.
-/

universe u

namespace LoadBalance.RoundRobin

/-- One entry of `events_`, with the answers to the calls of its pass. -/
structure Ready (α : Type u) where
  fd : Fd
  events : BitVec 32
  answers : Answers α

/-- The service thread, with all calls it has made. -/
structure Service (servers : ℕ) (α : Type u) where
  thread : Thread servers
  calls : List (Call servers α)

namespace Service

variable {servers : ℕ} {α : Type u}

def start (listenFdOuter : Fd) (serversInner : Fin servers → Fd × Fd) : Service servers α where
  thread := .start listenFdOuter serversInner
  calls := []

def step [Cell α] (service : Service servers α) (ready : Ready α) : Option (Service servers α) :=
  match loopBody service.thread ready.fd ready.events ready.answers with
  | .error _ => none
  | .ok (next, calls) => some ⟨next, service.calls ++ calls⟩

def chosen (service : Service servers α) : List ℕ :=
  (forwards service.calls).map fun entry => entry.1.val

/-- The forwards are spread evenly over the servers of the given table. -/
structure Fair [Cell α] (serversInner : Fin servers → Fd × Fd) (service : Service servers α) :
    Prop where
  index : 0 ≤ service.thread.curSelectedServerIndex ∧
    service.thread.curSelectedServerIndex < servers
  neverWaits : ∀ ready : Ready α,
    loopBody service.thread ready.fd ready.events ready.answers ≠ .error .waits
  inTurn : ∀ m server fd, (forwards service.calls)[m]? = some (server, fd) →
    server.val = m % servers ∧ fd = (serversInner server).1
  windows : ∀ before window after, forwards service.calls = before ++ window ++ after →
    ∀ first second : Fin servers,
      (window.map Prod.fst).count first ≤ (window.map Prod.fst).count second + 1

/-- What the index and the forwards so far have to do with each other. -/
structure Rotating (serversInner : Fin servers → Fd × Fd) (service : Service servers α) :
    Prop where
  table : service.thread.serversInner = serversInner
  index : service.thread.curSelectedServerIndex = (service.chosen.length % servers : ℕ)
  rotation : service.chosen = Rotation.visits servers 0 service.chosen.length
  fds : ∀ entry ∈ forwards service.calls, entry.2 = (serversInner entry.1).1

variable {serversInner : Fin servers → Fd × Fd}

theorem rotating_start (listenFdOuter : Fd) :
    Rotating serversInner (start listenFdOuter serversInner : Service servers α) where
  table := rfl
  index := by
    change (0 : ℤ) = (0 % servers : ℕ)
    rw [Nat.zero_mod]
    rfl
  rotation := rfl
  fds := by simp [start, forwards]

theorem Rotating.selectServer {service : Service servers α}
    (rotating : Rotating serversInner service) (positive : 0 < servers) :
    selectServer service.thread =
      .ok (⟨service.chosen.length % servers, Nat.mod_lt _ positive⟩,
        { service.thread with
          curSelectedServerIndex := ((service.chosen.length + 1) % servers : ℕ) }) := by
  rw [selectServer_eq rotating.index (Nat.mod_lt _ positive), Nat.mod_add_mod]

theorem Rotating.unchanged {service next : Service servers α}
    (rotating : Rotating serversInner service)
    (table : next.thread.serversInner = service.thread.serversInner)
    (index : next.thread.curSelectedServerIndex = service.thread.curSelectedServerIndex)
    (same : forwards next.calls = forwards service.calls) : Rotating serversInner next := by
  have chosenNext : next.chosen = service.chosen := by rw [chosen, same, chosen]
  refine ⟨table.trans rotating.table, ?_, ?_, ?_⟩
  · rw [chosenNext]
    exact index.trans rotating.index
  · rw [chosenNext]
    exact rotating.rotation
  · rw [same]
    exact rotating.fds

theorem Rotating.forwarded {service next : Service servers α}
    (rotating : Rotating serversInner service) (server : Fin servers)
    (table : next.thread.serversInner = service.thread.serversInner)
    (index : next.thread.curSelectedServerIndex = ((service.chosen.length + 1) % servers : ℕ))
    (turn : server.val = service.chosen.length % servers)
    (grown : forwards next.calls =
      forwards service.calls ++ [(server, (next.thread.serversInner server).1)]) :
    Rotating serversInner next := by
  have chosenNext : next.chosen = service.chosen ++ [service.chosen.length % servers] := by
    rw [chosen, grown, List.map_append, ← turn]
    rfl
  refine ⟨table.trans rotating.table, ?_, ?_, ?_⟩
  · rw [chosenNext, List.length_append, index]
    rfl
  · rw [chosenNext, List.length_append, List.length_singleton, Rotation.visits_succ,
      Nat.zero_add, ← rotating.rotation]
  · intro entry entryMem
    rw [grown, List.mem_append, List.mem_singleton] at entryMem
    rcases entryMem with old | rfl
    · exact rotating.fds entry old
    · rw [table, rotating.table]

variable [Cell α]

theorem Rotating.step {service next : Service servers α} {ready : Ready α}
    (rotating : Rotating serversInner service) (positive : 0 < servers)
    (stepped : service.step ready = some next) : Rotating serversInner next := by
  simp only [Service.step] at stepped
  split at stepped
  · cases stepped
  · rename_i thread calls served
    cases stepped
    rcases loopBody_cases served with ⟨server, buf, _, _, selecting, made⟩ | ⟨index, table, made⟩
    · rw [rotating.selectServer positive] at selecting
      cases selecting
      refine rotating.forwarded ⟨_, Nat.mod_lt _ positive⟩ rfl rfl rfl ?_
      rw [forwards_append, made]
      rfl
    · apply rotating.unchanged table index
      have none : forwards calls = [] := by
        rcases made with rfl | rfl
        · rfl
        · rfl
      rw [forwards_append, none, List.append_nil]

omit [Cell α] in
/-- A window of the forwards counts as the same window of the servers. -/
theorem count_window (window : List (Fin servers × Fd)) (server : Fin servers) :
    (window.map Prod.fst).count server =
      (window.map fun entry => entry.1.val).count server.val := by
  have values : (window.map fun entry => entry.1.val) = (window.map Prod.fst).map Fin.val := by
    rw [List.map_map]
    rfl
  rw [values]
  exact (List.count_map_of_injective _ Fin.val Fin.val_injective server).symm

theorem Rotating.fair {service : Service servers α} (rotating : Rotating serversInner service)
    (positive : 0 < servers) : Fair serversInner service where
  index := by
    rw [rotating.index]
    constructor
    · exact Int.natCast_nonneg _
    · exact Int.ofNat_lt.mpr (Nat.mod_lt _ positive)
  neverWaits := by
    intro ready waits
    rcases loopBody_error_halt ⟨_, rotating.selectServer positive⟩ waits with ⟨halt, halted⟩
    cases halted
  inTurn := by
    intro m server fd found
    have entryMem := List.mem_of_getElem? found
    refine ⟨?_, rotating.fds _ entryMem⟩
    rcases List.getElem?_eq_some_iff.mp found with ⟨inside, _⟩
    have visited : service.chosen[m]? = some server.val := by
      rw [chosen, List.getElem?_map, found]
      rfl
    have shorter : m < service.chosen.length := by
      rw [chosen, List.length_map]
      exact inside
    rw [rotating.rotation, Rotation.getElem?_visits shorter, Nat.zero_add] at visited
    exact (Option.some.inj visited).symm
  windows := by
    intro before window after cut first second
    have cutChosen := congrArg (List.map fun entry => entry.1.val) cut
    rw [List.map_append, List.map_append] at cutChosen
    have follows := Rotation.eq_visits_of_append (rotating.rotation.symm.trans cutChosen)
    rw [count_window, count_window, follows]
    exact Rotation.count_visits_le_count_add_one first.isLt second.isLt _ _

/--
Round-robin fairness over whole runs: in every state which the service loop reaches the
index is inside the table, the wait on `cond` cannot be entered, the forwards have gone
to the servers in turn, and in every window of them any two servers have got equally
many up to one.
-/
theorem fair_of_reachable (positive : 0 < servers) (listenFdOuter : Fd)
    (serversInner : Fin servers → Fd × Fd) {service : Service servers α}
    (reachable : Machine.Reachable step (start listenFdOuter serversInner) service) :
    Fair serversInner service := by
  have rotating : Rotating serversInner service :=
    Machine.Reachable.invariant (Rotating serversInner)
      (fun kept stepped => kept.step positive stepped) (rotating_start listenFdOuter) reachable
  exact rotating.fair positive

/-- Three requests and an empty read; the second request is forwarded in part. -/
def sampleReadies : List (Ready Byte) :=
  let answers (readn : ReadResult Byte) (writen : ℤ) : Answers Byte :=
    { accepted := [(8, 0, 0)], acceptErrno := .eagain, readn := readn, writen := writen }
  [⟨6, EPOLLIN, answers (.data []) 0⟩, ⟨8, EPOLLIN, answers (.data [1, 2]) 2⟩,
    ⟨8, EPOLLIN, answers (.error .eagain) 0⟩, ⟨8, EPOLLIN, answers (.data [3]) (-1)⟩,
    ⟨8, EPOLLIN, answers (.data [4]) 1⟩, ⟨8, EPOLLIN, answers (.data []) 0⟩]

def sampleServers (server : Fin 2) : Fd × Fd := (BitVec.ofNat 32 (10 + server.val), 20)

theorem fair_of_reachable_sample :
    ∃ service : Service 2 Byte,
      Machine.Reachable step (start 6 sampleServers) service ∧ service.chosen = [0, 1, 0] ∧
        Fair sampleServers service := by
  have ran : ((Machine.run step (start 6 sampleServers) sampleReadies).any fun service =>
      service.chosen = [0, 1, 0]) = true := by
    decide +kernel
  rcases Machine.exists_reachable_of_any sampleReadies ran with ⟨service, reachable, shown⟩
  exact ⟨service, reachable, of_decide_eq_true shown,
    fair_of_reachable (by decide) 6 sampleServers reachable⟩

end Service

end LoadBalance.RoundRobin
