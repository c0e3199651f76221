import LoadBalance.Relay.Invariant

/-!
# The interest set

`threadFunc` registers its listening socket and every connection it accepts, and
`CloseConnect` removes a connection again. Nothing registers a descriptor of
`serverFd_set`, so `epoll_wait` never reports one and the branch which reads the replies
of the inner servers is not entered.
-/

namespace LoadBalance.Relay

variable {servers : ℕ} {boot : Boot servers} {world : World servers}

namespace World

/-- The interest set which the loop is written for. -/
def ListensToAll (world : World servers) : Prop :=
  ∀ fd, fd ∈ world.thread.interest ↔
    fd = world.thread.listenFdOuter ∨ (∃ conn, world.table fd = some (.client conn)) ∨
      fd ∈ world.thread.serverFdSet

/-- Every reply which is waiting in its socket is reported by `epoll_wait`. -/
def ReportsReplies (world : World servers) : Prop :=
  ∀ server, (world.link server).fromServer ≠ [] →
    (world.thread.serversInner server).1 ∈ world.thread.interest

theorem Wellformed.work_mem_serverFdSet (wellformed : world.Wellformed boot)
    (server : Fin servers) :
    (world.thread.serversInner server).1 ∈ world.thread.serverFdSet := by
  rw [wellformed.serverFdSet, wellformed.serversInner, Boot.mem_initInnerMon]
  exact ⟨server, rfl⟩

theorem Wellformed.work_notMem_interest (wellformed : world.Wellformed boot)
    (server : Fin servers) :
    (world.thread.serversInner server).1 ∉ world.thread.interest := by
  have isWork := wellformed.table_work server
  rw [wellformed.interest]
  rintro (listening | ⟨conn, isClient⟩)
  · rw [listening, wellformed.fixed boot.table_listenFdOuter] at isWork
    cases isWork
  · rw [isClient] at isWork
    cases isWork

/--
With at least one inner server, no reachable state has the interest set which the loop is
written for: none of the descriptors in `serverFd_set` is in it, and no reply which is
waiting is reported.
-/
theorem not_listensToAll (positive : 0 < servers) {garbage : Fin servers → Message Byte}
    (reachable : Machine.Reachable World.step (boot.world garbage) world) :
    ¬world.ListensToAll ∧
      (∀ fd ∈ world.thread.serverFdSet, fd ∉ world.thread.interest) ∧
      (world.ReportsReplies ↔ ∀ server, (world.link server).fromServer = []) := by
  have wellformed := Wellformed.of_reachable reachable
  refine ⟨?_, ?_, ?_⟩
  · intro listens
    apply wellformed.work_notMem_interest ⟨0, positive⟩
    exact (listens _).mpr (Or.inr (Or.inr (wellformed.work_mem_serverFdSet ⟨0, positive⟩)))
  · intro fd fdMem
    rw [wellformed.serverFdSet, Boot.mem_initInnerMon] at fdMem
    rcases fdMem with ⟨server, rfl⟩
    rw [← wellformed.serversInner]
    exact wellformed.work_notMem_interest server
  · constructor
    · intro reports server
      by_contra waiting
      exact wellformed.work_notMem_interest server (reports server waiting)
    · intro nothing server waiting
      exact absurd (nothing server) waiting

/-- A client is accepted as descriptor 8, and the answer to its request is ready. -/
def replyWaiting : List (Event 1) :=
  [.connect 0, .listen ⟨[(8, 0, 0)], .eagain, .error .eagain, Boot.server, 0⟩,
    .send 0 (List.replicate normalLen 0), .ready 8 Boot.server true, .serverRead Boot.server,
    .serverWrite Boot.server]

theorem not_listensToAll_replyWaiting :
    ∃ world, Machine.Reachable World.step (Boot.single.world fun _ => .zero) world ∧
      world.thread.serverFdSet = {4} ∧ world.thread.interest = {6, 8} ∧
      ¬world.ListensToAll ∧ (∀ fd ∈ world.thread.serverFdSet, fd ∉ world.thread.interest) ∧
        (world.ReportsReplies ↔ ∀ server, (world.link server).fromServer = []) := by
  rcases Machine.exists_reachable_of_any replyWaiting
    (show (Machine.run World.step (Boot.single.world fun _ => .zero) replyWaiting).any
      (fun world => world.thread.serverFdSet = {4} ∧ world.thread.interest = {6, 8}) = true by
        decide) with ⟨world, reachable, shown⟩
  rcases of_decide_eq_true shown with ⟨set, interest⟩
  exact ⟨world, reachable, set, interest, not_listensToAll (by decide) reachable⟩

/-- The reply waits at descriptor 4, which is in `serverFd_set` and not registered. -/
theorem not_listensToAll_of_waiting_reply :
    ∃ world, Machine.Reachable World.step (Boot.single.world fun _ => .zero) world ∧
      ¬world.ListensToAll ∧ ¬world.ReportsReplies := by
  rcases Machine.exists_reachable_of_any replyWaiting
    (show (Machine.run World.step (Boot.single.world fun _ => .zero) replyWaiting).any
      (fun world => world.thread.serverFdSet = {4} ∧ world.thread.interest = {6, 8} ∧
        world.thread.listenFdOuter = 6 ∧ (world.thread.serversInner 0).1 = 4 ∧
        (world.link 0).fromServer ≠ []) = true by decide) with ⟨world, reachable, shown⟩
  rcases of_decide_eq_true shown with ⟨set, interest, listening, work, waiting⟩
  refine ⟨world, reachable, ?_, ?_⟩
  · intro listens
    have registered := (listens 4).mpr (Or.inr (Or.inr (by simp [set])))
    rw [interest] at registered
    exact absurd registered (by decide)
  · intro reports
    have registered := reports 0 waiting
    rw [interest, work] at registered
    exact absurd registered (by decide)

end World

end LoadBalance.Relay
