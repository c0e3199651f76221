import Mathlib.Data.Fintype.Basic
import LoadBalance.Relay.Order

/-!
# Requests and replies

As long as every read of a client moves a whole request, so that no connection is closed
and no read comes too early, each request which has been read is either answered or on
its way: it is in one of the two streams of an inner server, or held by its thread. The
replies of one inner server are written in the order of the forwards to it.
-/

namespace LoadBalance.Relay

variable {servers : ℕ} {boot : Boot servers} {world next : World servers}

/-- How many of the packets of a link name a descriptor. -/
def Link.carrying (fd : Fd) (link : Link) : ℕ :=
  link.packets.countP fun packet => packet.fd = fd

namespace World

/-- Every read of a client finds a whole request. -/
def ReadsWhole (world : World servers) (event : Event servers) : Prop :=
  ∀ conn ∈ event.readyFd.bind world.clientAt, (world.conn conn).inbound ≠ []

instance (world : World servers) (event : Event servers) : Decidable (world.ReadsWhole event) :=
  Option.decidableForallMem _

def requestsRead (world : World servers) (conn : ConnId) : ℕ := world.requests.count conn

/-- How many replies, of both kinds, have been written to a connection. -/
def repliesWritten (world : World servers) (conn : ConnId) : ℕ :=
  (world.conn conn).outbound.count correctRes + (world.conn conn).outbound.count errRes

/-- How many messages with a descriptor are between the two writes of the distributor. -/
def inFlight (world : World servers) (fd : Fd) : ℕ := ∑ server, (world.link server).carrying fd

structure Accounted (world : World servers) : Prop where
  balance : ∀ {fd conn}, world.table fd = some (.client conn) →
    world.requestsRead conn = world.repliesWritten conn + world.inFlight fd
  untouched : ∀ {conn}, (∀ fd, world.table fd ≠ some (.client conn)) →
    world.requestsRead conn = 0 ∧ world.repliesWritten conn = 0
  alive : ∀ server, ∀ packet ∈ (world.link server).packets,
    ∃ conn, world.table packet.fd = some (.client conn)

theorem accounted_boot (boot : Boot servers) (garbage : Fin servers → Message Byte) :
    (boot.world garbage).Accounted where
  balance := fun isClient => absurd isClient (boot.table_ne_client _ _)
  untouched := fun _ => ⟨rfl, rfl⟩
  alive := by simp [Boot.world, Link.packets]

theorem inFlight_congr (packets : ∀ server, (next.link server).packets =
    (world.link server).packets) (fd : Fd) : next.inFlight fd = world.inFlight fd :=
  Finset.sum_congr rfl fun server _ => by rw [Link.carrying, packets, ← Link.carrying]

theorem inFlight_eq_zero {fd : Fd}
    (absent : ∀ server, ∀ packet ∈ (world.link server).packets, packet.fd ≠ fd) :
    world.inFlight fd = 0 := by
  refine Finset.sum_eq_zero fun server _ => List.countP_eq_zero.mpr ?_
  intro packet packetMem
  simpa using absent server packet packetMem

theorem repliesWritten_congr {conn : ConnId}
    (outbound : (next.conn conn).outbound = (world.conn conn).outbound) :
    next.repliesWritten conn = world.repliesWritten conn := by
  rw [repliesWritten, outbound, ← repliesWritten]

theorem repliesWritten_append {conn : ConnId} {data : List Byte}
    (isReply : data = correctRes ∨ data = errRes)
    (outbound : (next.conn conn).outbound = (world.conn conn).outbound ++ [data]) :
    next.repliesWritten conn = world.repliesWritten conn + 1 := by
  have different := @correctRes_ne_errRes Byte _
  rcases isReply with rfl | rfl
  · simp [repliesWritten, outbound, different]
    omega
  · simp [repliesWritten, outbound, different.symm]
    omega

theorem requestsRead_append {conn : ConnId} (requests : next.requests = world.requests ++ [conn])
    (other : ConnId) :
    next.requestsRead other = world.requestsRead other + if other = conn then 1 else 0 := by
  by_cases same : other = conn
  · simp [requestsRead, requests, same]
  · simp [requestsRead, requests, same, Ne.symm same]

theorem inFlight_enqueue (world : World servers) (server : Fin servers) (packet : Packet)
    (fd : Fd) : (world.enqueue server packet).inFlight fd =
      world.inFlight fd + if fd = packet.fd then 1 else 0 := by
  have balance := Family.sum_update_add (Link.carrying fd) world.link server
    { world.link server with
      toServer := (world.link server).toServer ++ [packet]
      forwarded := (world.link server).forwarded ++ [packet.serial] }
  have grown : Link.carrying fd { world.link server with
        toServer := (world.link server).toServer ++ [packet]
        forwarded := (world.link server).forwarded ++ [packet.serial] } =
      (world.link server).carrying fd + if fd = packet.fd then 1 else 0 := by
    simp [Link.carrying, Link.packets_enqueue, List.countP_append, List.countP_singleton, eq_comm]
  rw [grown] at balance
  have unfolded : (world.enqueue server packet).inFlight fd =
    ∑ other, (Function.update world.link server { world.link server with
      toServer := (world.link server).toServer ++ [packet]
      forwarded := (world.link server).forwarded ++ [packet.serial] } other).carrying fd := rfl
  rw [unfolded, inFlight]
  omega

theorem inFlight_settle (world : World servers) {server : Fin servers} {packet : Packet}
    {rest : List Packet} (waiting : (world.link server).fromServer = packet :: rest)
    (mess : Message Byte) (fd : Fd) :
    (world.settle server packet rest mess).inFlight fd + (if fd = packet.fd then 1 else 0) =
      world.inFlight fd := by
  let value : Link := { world.link server with
    fromServer := rest
    replies := (world.link server).replies ++
      [Reply.mk packet.serial correctRes (world.clientAt packet.fd)] }
  have balance := Family.sum_update_add (Link.carrying fd) world.link server value
  have shrunk : (world.link server).carrying fd =
      value.carrying fd + if fd = packet.fd then 1 else 0 := by
    rw [Link.carrying, Link.packets_eq_cons waiting value.replies, List.countP_cons]
    simp [Link.carrying, value, eq_comm]
  have unfolded : (world.settle server packet rest mess).inFlight fd =
    ∑ other, (Function.update world.link server value other).carrying fd := rfl
  rw [unfolded, inFlight]
  omega

namespace Accounted

/-- The account does not depend on what the clients and the inner servers do. -/
theorem congr (accounted : world.Accounted) (table : next.table = world.table)
    (requests : next.requests = world.requests)
    (outbound : ∀ conn, (next.conn conn).outbound = (world.conn conn).outbound)
    (packets : ∀ server, (next.link server).packets = (world.link server).packets) :
    next.Accounted where
  balance := by
    intro fd conn isClient
    rw [requestsRead, requests, repliesWritten_congr (outbound conn), inFlight_congr packets]
    exact accounted.balance (table ▸ isClient)
  untouched := by
    intro conn nobody
    rw [requestsRead, requests, repliesWritten_congr (outbound conn)]
    exact accounted.untouched (table ▸ nobody)
  alive := by
    intro server packet packetMem
    rw [table]
    exact accounted.alive server packet (packets server ▸ packetMem)

theorem enroll (wellformed : world.Wellformed boot) (accounted : world.Accounted) {fd : Fd}
    (enrolled : world.enroll fd = some next) : next.Accounted := by
  rcases enroll_eq_some enrolled with ⟨conn, rest, waiting, unused, _, accepted⟩
  have nobody : ∀ other, world.table other ≠ some (.client conn) :=
    wellformed.table_ne_of_mem_backlog (by simp [waiting])
  have absent : ∀ server, ∀ packet ∈ (world.link server).packets, packet.fd ≠ fd := by
    rintro server packet packetMem rfl
    rcases accounted.alive server packet packetMem with ⟨other, isClient⟩
    rw [isClient] at unused
    cases unused
  have clients : ∀ other otherConn, next.table other = some (.client otherConn) ↔
      other = fd ∧ conn = otherConn ∨
        other ≠ fd ∧ world.table other = some (.client otherConn) := by
    rw [accepted]
    exact fun _ _ => table_setTable_client
  have outbound : ∀ other, (next.conn other).outbound = (world.conn other).outbound := by
    rw [accepted]
    exact Family.forall_update (fun other (value : Conn) =>
      value.outbound = (world.conn other).outbound) (fun _ => rfl) rfl
  have link : next.link = world.link := by rw [accepted]; rfl
  have requests : next.requests = world.requests := by rw [accepted]; rfl
  have inFlight : ∀ other, next.inFlight other = world.inFlight other :=
    inFlight_congr fun server => by rw [link]
  constructor
  case balance =>
    intro other otherConn otherClient
    rw [requestsRead, requests, repliesWritten_congr (outbound otherConn), inFlight]
    rcases (clients other otherConn).mp otherClient with ⟨rfl, rfl⟩ | ⟨_, still⟩
    · rcases accounted.untouched nobody with ⟨noRequest, noReply⟩
      rw [noReply, inFlight_eq_zero absent]
      exact noRequest
    · exact accounted.balance still
  case untouched =>
    intro other otherNobody
    rw [requestsRead, requests, repliesWritten_congr (outbound other)]
    refine accounted.untouched fun otherFd otherClient => otherNobody otherFd ?_
    refine (clients otherFd other).mpr (Or.inr ⟨?_, otherClient⟩)
    rintro rfl
    rw [otherClient] at unused
    cases unused
  case alive =>
    rw [link]
    intro server packet packetMem
    rcases accounted.alive server packet packetMem with ⟨other, isClient⟩
    exact ⟨other, (clients packet.fd other).mpr
      (Or.inr ⟨absent server packet packetMem, isClient⟩)⟩

section Serve

variable {fd : Fd} {conn : ConnId} {request : List Byte} {rest : List (List Byte)}

theorem requestsRead_of_nobody (isClient : world.table fd = some (.client conn)) {other : ConnId}
    (nobody : ∀ fd, world.table fd ≠ some (.client other))
    (requests : next.requests = world.requests ++ [conn]) :
    next.requestsRead other = world.requestsRead other := by
  rw [requestsRead_append requests other, if_neg, Nat.add_zero]
  rintro rfl
  exact nobody fd isClient

theorem forward (wellformed : world.Wellformed boot) (accounted : world.Accounted)
    (isClient : world.table fd = some (.client conn)) (index : Fin servers) (mess : Message Byte)
    (packet : Packet) (packetFd : packet.fd = fd) :
    ((world.took conn rest mess).enqueue index packet).Accounted := by
  have outbound : ∀ other,
      (((world.took conn rest mess).enqueue index packet).conn other).outbound =
        (world.conn other).outbound :=
    Family.forall_update (fun other (value : Conn) =>
      value.outbound = (world.conn other).outbound) (fun _ => rfl) rfl
  constructor
  case balance =>
    intro other otherConn otherClient
    have before := accounted.balance otherClient
    have both : other = fd ↔ otherConn = conn := wellformed.fd_eq_iff isClient otherClient
    have carried : (world.took conn rest mess).inFlight other = world.inFlight other := rfl
    rw [requestsRead_append rfl otherConn, repliesWritten_congr (outbound otherConn),
      inFlight_enqueue, packetFd, carried, before]
    simp only [both]
    omega
  case untouched =>
    intro other nobody
    rw [requestsRead_of_nobody isClient nobody rfl, repliesWritten_congr (outbound other)]
    exact accounted.untouched nobody
  case alive =>
    refine Family.forall_update (fun _ (value : Link) => ∀ packet ∈ value.packets,
      ∃ conn, world.table packet.fd = some (.client conn)) accounted.alive ?_
    intro other otherMem
    rw [Link.packets_enqueue] at otherMem
    rcases List.mem_append.mp otherMem with old | fresh
    · exact accounted.alive index other old
    · rw [List.mem_singleton.mp fresh, packetFd]
      exact ⟨conn, isClient⟩

theorem refuse (accounted : world.Accounted) (isClient : world.table fd = some (.client conn))
    (mess : Message Byte) : ((world.took conn rest mess).answer conn errRes).Accounted := by
  have outbound : ∀ other, other ≠ conn →
      (((world.took conn rest mess).answer conn errRes).conn other).outbound =
        (world.conn other).outbound := by
    intro other different
    simp [different]
  have answered : (((world.took conn rest mess).answer conn errRes).conn conn).outbound =
      (world.conn conn).outbound ++ [errRes] := by simp
  constructor
  case balance =>
    intro other otherConn otherClient
    have before := accounted.balance otherClient
    have carried : ((world.took conn rest mess).answer conn errRes).inFlight other =
        world.inFlight other := rfl
    rw [requestsRead_append rfl otherConn, carried, before]
    by_cases same : otherConn = conn
    · subst same
      rw [repliesWritten_append (Or.inr rfl) answered, if_pos rfl]
      omega
    · rw [repliesWritten_congr (outbound otherConn same), if_neg same]
      rfl
  case untouched =>
    intro other nobody
    have different : other ≠ conn := by
      rintro rfl
      exact nobody fd isClient
    rw [requestsRead_of_nobody isClient nobody rfl, repliesWritten_congr (outbound other different)]
    exact accounted.untouched nobody
  case alive => exact accounted.alive

theorem reply (wellformed : world.Wellformed boot) (accounted : world.Accounted)
    {server : Fin servers} {packet : Packet} {rest : List Packet}
    (waiting : (world.link server).fromServer = packet :: rest) (mess : Message Byte) :
    ((world.settle server packet rest mess).deliver (world.clientAt packet.fd)
      correctRes).Accounted := by
  rcases accounted.alive server packet (by simp [Link.packets, waiting]) with ⟨conn, isClient⟩
  rw [clientAt_eq_some.mpr isClient]
  have outbound : ∀ other, other ≠ conn →
      (((world.settle server packet rest mess).answer conn correctRes).conn other).outbound =
        (world.conn other).outbound := by
    intro other different
    simp [different]
  have answered : (((world.settle server packet rest mess).answer conn correctRes).conn
      conn).outbound = (world.conn conn).outbound ++ [correctRes] := by simp
  constructor
  case balance =>
    intro other otherConn otherClient
    have before := accounted.balance otherClient
    have both : other = packet.fd ↔ otherConn = conn := wellformed.fd_eq_iff isClient otherClient
    have settled := world.inFlight_settle waiting mess other
    have carried : ((world.settle server packet rest mess).answer conn correctRes).inFlight other =
        (world.settle server packet rest mess).inFlight other := rfl
    have read : ((world.settle server packet rest mess).answer conn correctRes).requestsRead
        otherConn = world.requestsRead otherConn := rfl
    simp only [both] at settled
    by_cases same : otherConn = conn
    · subst same
      have written := repliesWritten_append (Or.inl rfl) answered
      simp only [if_true] at settled
      simp only [World.deliver, Option.elim_some]
      omega
    · have written := repliesWritten_congr (outbound otherConn same)
      simp only [same, if_false] at settled
      simp only [World.deliver, Option.elim_some]
      omega
  case untouched =>
    intro other nobody
    have different : other ≠ conn := by
      rintro rfl
      exact nobody packet.fd isClient
    simp only [World.deliver, Option.elim_some]
    rw [repliesWritten_congr (outbound other different)]
    exact accounted.untouched nobody
  case alive =>
    refine Family.forall_update (fun _ (value : Link) => ∀ packet ∈ value.packets,
      ∃ conn, world.table packet.fd = some (.client conn)) accounted.alive ?_
    intro other otherMem
    apply accounted.alive server
    rw [Link.packets_eq_cons waiting]
    exact .tail _ otherMem

end Serve

/-- What `ReadsWhole` permits keeps the account: it excludes an early read and a close. -/
theorem move {event : Event servers} (wellformed : world.Wellformed boot)
    (accounted : world.Accounted) (permitted : world.ReadsWhole event)
    (move : Move world event next) : next.Accounted := by
  cases move with
  | connect conn unborn =>
      exact accounted.congr rfl rfl (Family.forall_update (fun other (value : Conn) =>
        value.outbound = (world.conn other).outbound) (fun _ => rfl) rfl) (fun _ => rfl)
  | client conn value acts =>
      exact accounted.congr rfl rfl (Family.forall_update (fun other (value : Conn) =>
        value.outbound = (world.conn other).outbound) (fun _ => rfl) acts.outbound_eq)
        (fun _ => rfl)
  | listen answers _ enrolled _ =>
      exact wellformed.run_enroll Accounted (fun _ before held step => held.enroll before step)
        accounted enrolled
  | listenHalt answers halt => exact accounted.congr rfl rfl (fun _ => rfl) (fun _ => rfl)
  | forward fd conn index request rest mess isClient waiting =>
      exact accounted.forward wellformed isClient index mess _ (loadFd_fdBytes_append fd request)
  | refuse fd conn index request rest mess isClient waiting =>
      exact accounted.refuse isClient mess
  | again fd conn index moved isClient nothing going =>
      exact absurd nothing (permitted conn (clientAt_eq_some.mpr isClient))
  | close fd conn index moved isClient nothing ended =>
      exact absurd nothing (permitted conn (clientAt_eq_some.mpr isClient))
  | reply fd server index moved packet rest mess isWork waiting =>
      exact accounted.reply wellformed waiting mess
  | serverRead server packet rest mess free waiting =>
      exact accounted.congr rfl rfl (fun _ => rfl) (packets_serverRead free waiting mess)
  | serverWrite server packet holding =>
      exact accounted.congr rfl rfl (fun _ => rfl) (packets_serverWrite holding)

end Accounted

/--
In every run in which each read of a client moves a whole request, the requests read from a
client are those answered to it and those on their way with its descriptor, and each inner
server's requests are answered with `correct_res` in the order of the forwards to it.
Nothing has been read from a connection without a descriptor.
-/
theorem accounted_of_readsWhole {garbage : Fin servers → Message Byte}
    {events : List (Event servers)}
    (guarded : Machine.RunsUnder World.step ReadsWhole (boot.world garbage) events world) :
    (∀ fd conn, world.table fd = some (.client conn) →
      world.requestsRead conn = world.repliesWritten conn + world.inFlight fd) ∧
    (∀ conn, (∀ fd, world.table fd ≠ some (.client conn)) →
      world.requestsRead conn = 0 ∧ world.repliesWritten conn = 0) ∧
    ∀ server, (∀ reply ∈ (world.link server).replies, reply.data = correctRes) ∧
      (world.link server).replies.map Reply.serial <+: (world.link server).forwarded := by
  have both := (invariant_of_moves (fun state => state.Ordered ∧ state.Accounted)
    ⟨ordered_boot boot garbage, accounted_boot boot garbage⟩
    (fun wellformed before permitted move =>
      ⟨before.1.move move, before.2.move wellformed permitted move⟩) guarded).2
  rcases both with ⟨ordered, accounted⟩
  refine ⟨fun fd conn => accounted.balance, fun conn => accounted.untouched,
    fun server => ⟨(ordered server).correct, ?_⟩⟩
  rw [(ordered server).split]
  exact List.prefix_append _ _

/-- Two clients, one of which is answered while the request of the other is on its way. -/
def twoClients : List (Event 1) :=
  [.connect 0, .connect 1,
    .listen ⟨[(8, 0, 0), (9, 0, 0)], .eagain, .error .eagain, Boot.server, 0⟩,
    .send 1 (List.replicate normalLen 0), .send 0 (List.replicate normalLen 1),
    .ready 9 Boot.server true, .serverRead Boot.server, .ready 8 Boot.server true,
    .serverWrite Boot.server, .ready 4 Boot.server true]

theorem accounted_of_readsWhole_twoClients :
    ∃ world, Machine.RunsUnder World.step ReadsWhole (Boot.single.world fun _ => .zero)
        twoClients world ∧
      world.repliesWritten 1 = 1 ∧ world.inFlight 8 = 1 ∧
      (∀ fd conn, world.table fd = some (.client conn) →
        world.requestsRead conn = world.repliesWritten conn + world.inFlight fd) ∧
      (∀ conn, (∀ fd, world.table fd ≠ some (.client conn)) →
        world.requestsRead conn = 0 ∧ world.repliesWritten conn = 0) ∧
      ∀ server, (∀ reply ∈ (world.link server).replies, reply.data = correctRes) ∧
        (world.link server).replies.map Reply.serial <+: (world.link server).forwarded := by
  rcases Machine.RunsUnder.exists_of_any twoClients
    (show (Machine.run (Machine.RunsUnder.guarded World.step ReadsWhole)
      (Boot.single.world fun _ => .zero) twoClients).any (fun world =>
        world.repliesWritten 1 = 1 ∧ world.inFlight 8 = 1) = true by decide +kernel)
    with ⟨world, guarded, shown⟩
  rcases of_decide_eq_true shown with ⟨written, flying⟩
  exact ⟨world, guarded, written, flying, accounted_of_readsWhole guarded⟩

end World

end LoadBalance.Relay
