import LoadBalance.Relay.Invariant

/-!
# Where the replies go

A message names its client by the descriptor alone. While the message is on its way the
client may be closed, and `accept` may give the number to somebody else, who is then sent
the reply. If `accept` only gives out numbers which no message on its way names, every
reply reaches the connection from which its request was read, or nobody.
-/

namespace LoadBalance.Relay

variable {servers : ℕ} {boot : Boot servers} {world next : World servers}

namespace World

/-- Every reply has gone to the connection of its request, unless that was closed. -/
def DeliversRight (world : World servers) : Prop :=
  ∀ server, ∀ reply ∈ (world.link server).replies, ∀ conn, reply.target = some conn →
    world.requests[reply.serial]? = some conn

def acceptedFds : Event servers → List Fd
  | .listen answers => answers.accepted.map Prod.fst
  | _ => []

/-- `accept` gives out no number which a message on its way names. -/
def NamesUnused (world : World servers) (event : Event servers) : Prop :=
  ∀ fd ∈ acceptedFds event, ∀ server, ∀ packet ∈ (world.link server).packets, packet.fd ≠ fd

instance (world : World servers) (event : Event servers) : Decidable (world.NamesUnused event) :=
  List.decidableBAll _ _

/-- Every message on its way names the connection of its request, or nobody. -/
structure Addressed (world : World servers) : Prop where
  pending : ∀ server, ∀ packet ∈ (world.link server).packets, ∀ conn,
    world.table packet.fd = some (.client conn) → world.requests[packet.serial]? = some conn
  delivered : world.DeliversRight

theorem addressed_boot (boot : Boot servers) (garbage : Fin servers → Message Byte) :
    (boot.world garbage).Addressed where
  pending := by simp [Boot.world, Link.packets]
  delivered := by simp [Boot.world, DeliversRight]

namespace Addressed

/-- Messages may leave, and descriptors may be closed, and nothing else matters. -/
theorem congr (addressed : world.Addressed) (requests : next.requests = world.requests)
    (packets : ∀ server, ∀ packet ∈ (next.link server).packets,
      packet ∈ (world.link server).packets)
    (table : ∀ server, ∀ packet ∈ (next.link server).packets, ∀ conn,
      next.table packet.fd = some (.client conn) → world.table packet.fd = some (.client conn))
    (replies : ∀ server, (next.link server).replies = (world.link server).replies) :
    next.Addressed where
  pending := by
    intro server packet packetMem conn isClient
    rw [requests]
    exact addressed.pending server packet (packets server packet packetMem) conn
      (table server packet packetMem conn isClient)
  delivered := by
    intro server reply replyMem
    rw [requests]
    exact addressed.delivered server reply (replies server ▸ replyMem)

theorem took (addressed : world.Addressed) (conn : ConnId) (rest : List (List Byte))
    (mess : Message Byte) : (world.took conn rest mess).Addressed where
  pending := by
    intro server packet packetMem other isClient
    exact Machine.getElem?_of_grown (List.prefix_append _ _)
      (addressed.pending server packet packetMem other isClient)
  delivered := by
    intro server reply replyMem other target
    exact Machine.getElem?_of_grown (List.prefix_append _ _)
      (addressed.delivered server reply replyMem other target)

theorem enroll (addressed : world.Addressed) {fd : Fd} (enrolled : world.enroll fd = some next)
    (unused : ∀ server, ∀ packet ∈ (world.link server).packets, packet.fd ≠ fd) :
    next.Addressed := by
  rcases enroll_eq_some enrolled with ⟨conn, rest, _, _, _, rfl⟩
  refine addressed.congr rfl (fun _ _ packetMem => packetMem) ?_ (fun _ => rfl)
  intro server packet packetMem other isClient
  rcases table_setTable_client.mp isClient with ⟨same, _⟩ | ⟨_, before⟩
  · exact absurd same (unused server packet packetMem)
  · exact before

theorem forward (addressed : world.Addressed) {fd : Fd} {conn : ConnId}
    (isClient : world.table fd = some (.client conn)) (rest : List (List Byte))
    (mess : Message Byte) (index : Fin servers) {packet : Packet} (packetFd : packet.fd = fd)
    (serial : packet.serial = world.requests.length) :
    ((world.took conn rest mess).enqueue index packet).Addressed where
  pending := by
    refine Family.forall_update (fun _ (value : Link) => ∀ other ∈ value.packets, ∀ otherConn,
      world.table other.fd = some (.client otherConn) →
        (world.requests ++ [conn])[other.serial]? = some otherConn)
      (addressed.took conn rest mess).pending ?_
    intro other otherMem otherConn otherClient
    rw [Link.packets_enqueue] at otherMem
    rcases List.mem_append.mp otherMem with old | fresh
    · exact (addressed.took conn rest mess).pending index other old otherConn otherClient
    · rw [List.mem_singleton.mp fresh, packetFd, isClient, Option.some.injEq,
        Obj.client.injEq] at otherClient
      rw [List.mem_singleton.mp fresh, serial, ← otherClient]
      simp
  delivered := by
    refine Family.forall_update (fun _ (value : Link) => ∀ reply ∈ value.replies, ∀ otherConn,
      reply.target = some otherConn → (world.requests ++ [conn])[reply.serial]? = some otherConn)
      (addressed.took conn rest mess).delivered ?_
    exact (addressed.took conn rest mess).delivered index

theorem reply (addressed : world.Addressed) {server : Fin servers} {packet : Packet}
    {rest : List Packet} (waiting : (world.link server).fromServer = packet :: rest)
    (mess : Message Byte) :
    ((world.settle server packet rest mess).deliver (world.clientAt packet.fd)
      correctRes).Addressed := by
  have pending := addressed.pending server
  rw [Link.packets_eq_cons waiting ((world.link server).replies ++
    [⟨packet.serial, correctRes, world.clientAt packet.fd⟩]), List.forall_mem_cons] at pending
  have settled : (world.settle server packet rest mess).Addressed := by
    constructor
    · exact Family.forall_update (fun _ (value : Link) => ∀ other ∈ value.packets, ∀ conn,
        world.table other.fd = some (.client conn) → world.requests[other.serial]? = some conn)
        addressed.pending pending.2
    · refine Family.forall_update (fun _ (value : Link) => ∀ reply ∈ value.replies, ∀ conn,
        reply.target = some conn → world.requests[reply.serial]? = some conn)
        addressed.delivered ?_
      intro reply replyMem conn target
      rcases List.mem_append.mp replyMem with old | fresh
      · exact addressed.delivered server reply old conn target
      · rw [List.mem_singleton.mp fresh] at target ⊢
        exact pending.1 conn (clientAt_eq_some.mp target)
  refine settled.congr (by simp) ?_ ?_ ?_
  · simp
  · simp
  · simp

theorem move {event : Event servers} (wellformed : world.Wellformed boot)
    (addressed : world.Addressed) (permitted : world.NamesUnused event)
    (move : Move world event next) : next.Addressed := by
  have stay : ∀ server, ∀ packet ∈ (world.link server).packets,
      packet ∈ (world.link server).packets := fun _ _ packetMem => packetMem
  cases move with
  | connect conn unborn =>
      exact addressed.congr rfl stay (fun _ _ _ _ isClient => isClient) (fun _ => rfl)
  | client conn value acts =>
      exact addressed.congr rfl stay (fun _ _ _ _ isClient => isClient) (fun _ => rfl)
  | listen answers _ enrolled _ =>
      -- accepting does not touch the links, so the numbers stay unused during the loop
      have both : next.link = world.link ∧ next.Addressed := by
        refine wellformed.run_enroll (fun state => state.link = world.link ∧ state.Addressed) ?_
          ⟨rfl, addressed⟩ enrolled
        rintro state fd after fdMem _ ⟨sameLink, before⟩ step
        refine ⟨(enroll_link step).trans sameLink, before.enroll step ?_⟩
        rw [sameLink]
        exact permitted fd fdMem
      exact both.2
  | listenHalt answers halt =>
      exact addressed.congr rfl stay (fun _ _ _ _ isClient => isClient) (fun _ => rfl)
  | forward fd conn index request rest mess isClient waiting =>
      exact addressed.forward isClient rest mess index (loadFd_fdBytes_append fd request) rfl
  | refuse fd conn index request rest mess isClient waiting =>
      exact (addressed.took conn rest mess).congr rfl stay (fun _ _ _ _ isClient => isClient)
        (fun _ => rfl)
  | again fd conn index moved isClient nothing going =>
      exact addressed.congr rfl stay (fun _ _ _ _ isClient => isClient) (fun _ => rfl)
  | close fd conn index moved isClient nothing ended =>
      refine addressed.congr rfl stay ?_ (fun _ => rfl)
      intro server packet packetMem other otherClient
      by_cases same : packet.fd = fd
      · simp [same] at otherClient
      · simpa [same] using otherClient
  | reply fd server index moved packet rest mess isWork waiting =>
      exact addressed.reply waiting mess
  | serverRead server packet rest mess free waiting =>
      refine addressed.congr rfl ?_ (fun _ _ _ _ isClient => isClient) ?_
      · intro other otherPacket
        rw [packets_serverRead free waiting]
        exact id
      · exact Family.forall_update (fun other (value : Link) =>
          value.replies = (world.link other).replies) (fun _ => rfl) rfl
  | serverWrite server packet holding =>
      refine addressed.congr rfl ?_ (fun _ _ _ _ isClient => isClient) ?_
      · intro other otherPacket
        rw [packets_serverWrite holding]
        exact id
      · exact Family.forall_update (fun other (value : Link) =>
          value.replies = (world.link other).replies) (fun _ => rfl) rfl

end Addressed

/-- Where `accept` gives out no number which a message on its way names, every reply goes to
the connection from which its request was read, or nobody. -/
theorem deliversRight_of_namesUnused {garbage : Fin servers → Message Byte}
    {events : List (Event servers)}
    (guarded : Machine.RunsUnder World.step NamesUnused (boot.world garbage) events world) :
    world.DeliversRight :=
  (invariant_of_moves Addressed (addressed_boot boot garbage)
    (fun wellformed before permitted move => before.move wellformed permitted move)
    guarded).2.delivered

/-- A client is answered, closed, and its descriptor given to a second client. -/
def answeredThenReused : List (Event 1) :=
  [.connect 0, .listen ⟨[(8, 0, 0)], .eagain, .error .eagain, Boot.server, 0⟩,
    .send 0 (List.replicate normalLen 0), .ready 8 Boot.server true, .serverRead Boot.server,
    .serverWrite Boot.server, .ready 4 Boot.server true, .shutdown 0,
    .ready 8 Boot.server true, .connect 1,
    .listen ⟨[(8, 0, 0)], .eagain, .error .eagain, Boot.server, 0⟩]

theorem deliversRight_of_namesUnused_sample :
    ∃ world, Machine.RunsUnder World.step NamesUnused (Boot.single.world fun _ => .zero)
        answeredThenReused world ∧
      world.table 8 = some (.client 1) ∧ world.DeliversRight := by
  rcases Machine.RunsUnder.exists_of_any answeredThenReused
    (show (Machine.run (Machine.RunsUnder.guarded World.step NamesUnused)
      (Boot.single.world fun _ => .zero) answeredThenReused).any (fun world =>
        world.table 8 = some (.client 1)) = true by decide +kernel) with ⟨world, guarded, shown⟩
  exact ⟨world, guarded, of_decide_eq_true shown, deliversRight_of_namesUnused guarded⟩

/-- The same with the close and the second client before the answer. -/
def reusedThenAnswered : List (Event 1) :=
  [.connect 0, .listen ⟨[(8, 0, 0)], .eagain, .error .eagain, Boot.server, 0⟩,
    .send 0 (List.replicate normalLen 0), .ready 8 Boot.server true, .shutdown 0,
    .ready 8 Boot.server true, .connect 1,
    .listen ⟨[(8, 0, 0)], .eagain, .error .eagain, Boot.server, 0⟩, .serverRead Boot.server,
    .serverWrite Boot.server, .ready 4 Boot.server true]

/-- The second client is sent the answer to the request of the first. -/
theorem not_deliversRight_of_reuse :
    ∃ world, Machine.Reachable World.step (Boot.single.world fun _ => .zero) world ∧
      (world.conn 1).sent = 0 ∧ (world.conn 1).outbound = [correctRes] ∧
      ¬world.DeliversRight := by
  rcases Machine.exists_reachable_of_any reusedThenAnswered
    (show (Machine.run World.step (Boot.single.world fun _ => .zero) reusedThenAnswered).any
      (fun world => world.requests = [0] ∧ (world.conn 1).sent = 0 ∧
        (world.conn 1).outbound = [correctRes] ∧
        (world.link 0).replies = [⟨0, correctRes, some 1⟩]) = true by decide +kernel)
    with ⟨world, reachable, shown⟩
  rcases of_decide_eq_true shown with ⟨requests, sent, outbound, replies⟩
  refine ⟨world, reachable, sent, outbound, ?_⟩
  intro right
  have origin := right 0 ⟨0, correctRes, some 1⟩ (by simp [replies]) 1 rfl
  simp [requests] at origin

end World

end LoadBalance.Relay
