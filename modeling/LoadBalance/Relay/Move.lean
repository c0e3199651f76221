import Mathlib.Data.Finset.Lattice.Lemmas
import LoadBalance.Relay.Start

/-!
# What a step can do

Every state which the machine reaches is well formed: the descriptors of the start are
still open, the interest set holds the listening socket and the clients, and each packet
in flight consists of a client's descriptor and a request. In a well-formed state the
loop body cannot fail on a client or on an inner server, and every step is one of the
few moves listed in `Move`. The invariants of the later files are proved move by move.
-/

namespace LoadBalance.Relay

open Distributor (Thread Answers Call loopBody)

variable {servers : ℕ}

/-- A packet made from a request and the descriptor of the client which sent it. -/
def Packet.Framed (boot : Boot servers) (packet : Packet) : Prop :=
  ∃ request : List Byte, request.length = normalLen ∧
    packet.data = fdBytes packet.fd ++ request ∧
    boot.table packet.fd = none ∧ 0 ≤ packet.fd.toInt

namespace World

structure Wellformed (boot : Boot servers) (world : World servers) : Prop where
  tables : world.thread.tables = (boot.thread Byte).tables
  fixed : ∀ {fd obj}, boot.table fd = some obj → world.table fd = some obj
  others : ∀ {fd obj}, boot.table fd = none → world.table fd = some obj →
    ∃ conn, obj = .client conn
  interest : ∀ fd, fd ∈ world.thread.interest ↔
    fd = boot.listenFdOuter ∨ ∃ conn, world.table fd = some (.client conn)
  accepted : ∀ {fd conn}, world.table fd = some (.client conn) →
    (world.conn conn).phase = .accepted
  unique : ∀ {fd fd' conn}, world.table fd = some (.client conn) →
    world.table fd' = some (.client conn) → fd = fd'
  nonneg : ∀ {fd conn}, world.table fd = some (.client conn) → 0 ≤ fd.toInt
  backlog : ∀ conn ∈ world.backlog, (world.conn conn).phase = .backlog
  nodup : world.backlog.Nodup
  inbound : ∀ conn, ∀ request ∈ (world.conn conn).inbound, request.length = normalLen
  packets : ∀ server, ∀ packet ∈ (world.link server).packets, packet.Framed boot

/-- `accept` and the registration of its result. -/
def enroll (world : World servers) (fd : Fd) : Option (World servers) :=
  (world.acceptOne fd).map fun next =>
    { next with thread := { next.thread with interest := insert fd next.thread.interest } }

/-- The distributor has read a request, and no longer needs what `mess` held. -/
@[simps!]
def took (world : World servers) (conn : ConnId) (rest : List (List Byte))
    (mess : Message Byte) : World servers :=
  { world with
    thread := { world.thread with mess := mess }
    requests := world.requests ++ [conn]
  }.setConn conn { world.conn conn with inbound := rest }

/-- The distributor has closed its end of a connection. -/
@[simps!]
def hangUp (world : World servers) (fd : Fd) (conn : ConnId) : World servers :=
  ({ world with
    thread := { world.thread with interest := world.thread.interest.erase fd }
  }.setTable fd none).setConn conn { world.conn conn with phase := .closed }

/-- The distributor has read a reply, and records what it answers. -/
@[simps!]
def settle (world : World servers) (server : Fin servers) (packet : Packet) (rest : List Packet)
    (mess : Message Byte) : World servers :=
  { world with thread := { world.thread with mess := mess } }.setLink server
    { world.link server with
      fromServer := rest
      replies := (world.link server).replies ++
        [Reply.mk packet.serial correctRes (world.clientAt packet.fd)] }

/-- A reply reaches the connection of its descriptor, if there is one. -/
def deliver (world : World servers) (target : Option ConnId) (data : List Byte) : World servers :=
  target.elim world fun conn => world.answer conn data

end World

/-- What a client does to its end of the connection. -/
inductive ClientAct (conn : ConnId) (before : Conn) : Event servers → Conn → Prop where
  | send (request : List Byte) (alive : before.phase ≠ .unborn) (going : before.sending = .going)
      (size : request.length = normalLen) :
      ClientAct conn before (.send conn request)
        { before with sent := before.sent + 1, inbound := before.inbound ++ [request] }
  | shutdown (alive : before.phase ≠ .unborn) (going : before.sending = .going) :
      ClientAct conn before (.shutdown conn) { before with sending := .ended }
  | reset (alive : before.phase ≠ .unborn) :
      ClientAct conn before (.reset conn) { before with sending := .reset, inbound := [] }
  | receive (alive : before.phase ≠ .unborn)
      (unread : before.received < before.outbound.length) :
      ClientAct conn before (.receive conn) { before with received := before.received + 1 }
  | receiveEof (closed : before.phase = .closed)
      (allRead : before.outbound.length ≤ before.received) :
      ClientAct conn before (.receive conn) { before with sawEof := true }

/-- The steps out of a well-formed state. -/
inductive Move (world : World servers) : Event servers → World servers → Prop where
  | connect (conn : ConnId) (unborn : (world.conn conn).phase = .unborn) :
      Move world (.connect conn) ({ world with backlog := world.backlog ++ [conn] }.setConn conn
        { world.conn conn with phase := .backlog })
  | client {event : Event servers} (conn : ConnId) (next : Conn)
      (acts : ClientAct conn (world.conn conn) event next) :
      Move world event (world.setConn conn next)
  | listen (answers : Answers servers Byte) (next : World servers)
      (enrolled : Machine.run World.enroll world (answers.accepted.map Prod.fst) = some next)
      (drained : next.backlog = []) :
      Move world (.listen answers) next
  | listenHalt (answers : Answers servers Byte) (halt : Halt) :
      Move world (.listen answers) { world with halted := some halt }
  | forward (fd : Fd) (conn : ConnId) (index : Fin servers) (request : List Byte)
      (rest : List (List Byte)) (mess : Message Byte)
      (isClient : world.table fd = some (.client conn))
      (waiting : (world.conn conn).inbound = request :: rest) :
      Move world (.ready fd index true)
        ((world.took conn rest mess).enqueue index ⟨fdBytes fd ++ request, world.requests.length⟩)
  | refuse (fd : Fd) (conn : ConnId) (index : Fin servers) (request : List Byte)
      (rest : List (List Byte)) (mess : Message Byte)
      (isClient : world.table fd = some (.client conn))
      (waiting : (world.conn conn).inbound = request :: rest) :
      Move world (.ready fd index false) ((world.took conn rest mess).answer conn errRes)
  | again (fd : Fd) (conn : ConnId) (index : Fin servers) (moved : Bool)
      (isClient : world.table fd = some (.client conn))
      (nothing : (world.conn conn).inbound = []) (going : (world.conn conn).sending = .going) :
      Move world (.ready fd index moved) (world.answer conn errRes)
  | close (fd : Fd) (conn : ConnId) (index : Fin servers) (moved : Bool)
      (isClient : world.table fd = some (.client conn))
      (nothing : (world.conn conn).inbound = []) (ended : (world.conn conn).sending ≠ .going) :
      Move world (.ready fd index moved) (world.hangUp fd conn)
  | reply (fd : Fd) (server index : Fin servers) (moved : Bool) (packet : Packet)
      (rest : List Packet) (mess : Message Byte)
      (isWork : world.table fd = some (.work server))
      (waiting : (world.link server).fromServer = packet :: rest) :
      Move world (.ready fd index moved)
        ((world.settle server packet rest mess).deliver (world.clientAt packet.fd) correctRes)
  | serverRead (server : Fin servers) (packet : Packet) (rest : List Packet)
      (mess : Message Byte) (free : (world.link server).held = none)
      (waiting : (world.link server).toServer = packet :: rest) :
      Move world (.serverRead server) (world.setLink server { world.link server with
        toServer := rest, mess := mess, held := some packet })
  | serverWrite (server : Fin servers) (packet : Packet)
      (holding : (world.link server).held = some packet) :
      Move world (.serverWrite server) (world.setLink server { world.link server with
        held := none, fromServer := (world.link server).fromServer ++ [packet] })

namespace World

section Accept

theorem acceptOne_thread (world : World servers) (thread : Thread servers Byte) (fd : Fd) :
    acceptOne { world with thread := thread } fd =
      (world.acceptOne fd).map fun next => { next with thread := thread } := by
  simp only [acceptOne]
  split
  · rfl
  · split <;> rfl

theorem thread_of_acceptOne {world next : World servers} {fd : Fd}
    (accepted : world.acceptOne fd = some next) : next.thread = world.thread := by
  simp only [acceptOne] at accepted
  split at accepted
  · cases accepted
  · split at accepted
    · cases accepted
      rfl
    · cases accepted

theorem run_acceptOne_thread (world : World servers) (thread : Thread servers Byte)
    (fds : List Fd) :
    Machine.run acceptOne { world with thread := thread } fds =
      (Machine.run acceptOne world fds).map fun next => { next with thread := thread } := by
  induction fds generalizing world with
  | nil => rfl
  | cons fd fds ih =>
      simp only [Machine.run_cons, acceptOne_thread]
      cases world.acceptOne fd with
      | none => rfl
      | some next => exact ih next

theorem run_enroll_of_run_acceptOne {world accepted : World servers} {fds : List Fd}
    (ran : Machine.run acceptOne world fds = some accepted) :
    Machine.run enroll world fds = some { accepted with
      thread := { world.thread with interest := world.thread.interest ∪ fds.toFinset } } := by
  induction fds generalizing world accepted with
  | nil =>
      simp only [Machine.run_nil, Option.some.injEq] at ran
      subst accepted
      rw [List.toFinset_nil, Finset.union_empty, Machine.run_nil]
  | cons fd fds ih =>
      rcases Machine.run_cons_eq_some.mp ran with ⟨next, acceptedOne, ranRest⟩
      have sameThread := thread_of_acceptOne acceptedOne
      refine Machine.run_cons_eq_some.mpr ⟨_, by rw [enroll, acceptedOne, Option.map_some], ?_⟩
      have registered := run_acceptOne_thread next
        { next.thread with interest := insert fd next.thread.interest } fds
      rw [ranRest, Option.map_some] at registered
      rw [ih registered, sameThread, List.toFinset_cons]
      simp only [Finset.insert_union_comm]

end Accept

namespace Wellformed

variable {boot : Boot servers} {world : World servers}

section Client

variable {fd : Fd} {conn : ConnId}

theorem boot_table (wellformed : world.Wellformed boot)
    (isClient : world.table fd = some (.client conn)) : boot.table fd = none := by
  cases found : boot.table fd with
  | none => rfl
  | some obj =>
      have same := wellformed.fixed found
      rw [isClient, Option.some.injEq] at same
      exact absurd (same ▸ found) (boot.table_ne_client fd conn)

theorem listenFdOuter (wellformed : world.Wellformed boot) :
    world.thread.listenFdOuter = boot.listenFdOuter :=
  congrArg Prod.fst wellformed.tables

theorem serverFdSet (wellformed : world.Wellformed boot) :
    world.thread.serverFdSet = boot.initInnerMon :=
  congrArg (fun tables => tables.2.1) wellformed.tables

theorem serversInner (wellformed : world.Wellformed boot) :
    world.thread.serversInner = boot.serversInner :=
  congrArg (fun tables => tables.2.2) wellformed.tables

theorem ne_listenFdOuter (wellformed : world.Wellformed boot)
    (isClient : world.table fd = some (.client conn)) : fd ≠ world.thread.listenFdOuter := by
  rintro rfl
  have unknown := wellformed.boot_table isClient
  rw [wellformed.listenFdOuter, boot.table_listenFdOuter] at unknown
  cases unknown

theorem notMem_serverFdSet (wellformed : world.Wellformed boot)
    (isClient : world.table fd = some (.client conn)) : fd ∉ world.thread.serverFdSet := by
  rw [wellformed.serverFdSet, Boot.mem_initInnerMon]
  rintro ⟨server, rfl⟩
  have unknown := wellformed.boot_table isClient
  rw [boot.table_work server] at unknown
  cases unknown

theorem mem_interest (wellformed : world.Wellformed boot)
    (isClient : world.table fd = some (.client conn)) : fd ∈ world.thread.interest :=
  (wellformed.interest fd).mpr (Or.inr ⟨conn, isClient⟩)

theorem fd_eq_iff (wellformed : world.Wellformed boot) {fd' : Fd} {conn' : ConnId}
    (isClient : world.table fd = some (.client conn))
    (isClient' : world.table fd' = some (.client conn')) : fd' = fd ↔ conn' = conn := by
  constructor
  · rintro rfl
    rw [isClient, Option.some.injEq, Obj.client.injEq] at isClient'
    exact isClient'.symm
  · rintro rfl
    exact wellformed.unique isClient' isClient

theorem table_work (wellformed : world.Wellformed boot) (server : Fin servers) :
    world.table (world.thread.serversInner server).1 = some (.work server) := by
  rw [wellformed.serversInner]
  exact wellformed.fixed (boot.table_work server)

theorem eq_work (wellformed : world.Wellformed boot) {server : Fin servers}
    (isWork : world.table fd = some (.work server)) :
    fd = (boot.serversInner server).1 := by
  cases found : boot.table fd with
  | none =>
      rcases wellformed.others found isWork with ⟨other, impossible⟩
      cases impossible
  | some obj =>
      have same := wellformed.fixed found
      rw [isWork, Option.some.injEq] at same
      exact Boot.eq_work_of_table (same ▸ found)

end Client

/-- The field `fd` of a packet is above 0, since descriptor 0 was open from the start. -/
theorem positive_of_framed {packet : Packet} (framed : packet.Framed boot) :
    0 < packet.fd.toInt := by
  rcases framed with ⟨_, _, _, unknown, nonneg⟩
  apply lt_of_le_of_ne nonneg
  intro zero
  have isZero : packet.fd = 0 := BitVec.toInt_inj.mp (by simpa using zero.symm)
  rw [isZero, boot.table_zero] at unknown
  cases unknown

theorem length_of_framed {packet : Packet} (framed : packet.Framed boot) :
    packet.data.length = messLen := by
  rcases framed with ⟨request, size, image, _, _⟩
  rw [image, List.length_append, length_fdBytes, size]
  rfl

end Wellformed

end World

end LoadBalance.Relay
