import LoadBalance.Lib.Family
import LoadBalance.Relay.Inversion

/-!
# Well-formedness of every reachable state

The start is well formed and every move keeps it so. Most moves change neither the
descriptors nor what a connection has come to, and are covered by one congruence; the
others are a new connection, an `accept` and a `CloseConnect`.
-/

namespace LoadBalance.Relay

open Distributor (Thread)

variable {servers : ℕ} {boot : Boot servers} {world next : World servers}

theorem Link.packets_read {link : Link} {packet : Packet} {rest : List Packet}
    (free : link.held = none) (waiting : link.toServer = packet :: rest) (mess : Message Byte) :
    Link.packets { link with toServer := rest, mess := mess, held := some packet } =
      link.packets := by
  simp [Link.packets, free, waiting]

theorem Link.packets_write {link : Link} {packet : Packet} (holding : link.held = some packet) :
    Link.packets { link with held := none, fromServer := link.fromServer ++ [packet] } =
      link.packets := by
  simp [Link.packets, holding]

theorem Link.packets_eq_cons {link : Link} {packet : Packet} {rest : List Packet}
    (waiting : link.fromServer = packet :: rest) (replies : List Reply) :
    link.packets =
      packet :: Link.packets { link with fromServer := rest, replies := replies } := by
  simp [Link.packets, waiting]

theorem Link.packets_enqueue (link : Link) (packet : Packet) (forwarded : List ℕ) :
    Link.packets { link with toServer := link.toServer ++ [packet], forwarded := forwarded } =
      link.packets ++ [packet] := by
  simp [Link.packets]

/-- What waits to be read are requests of the right length. -/
def Conn.WholeRequests (conn : Conn) : Prop :=
  ∀ request ∈ conn.inbound, request.length = normalLen

def Link.Framed (boot : Boot servers) (link : Link) : Prop :=
  ∀ packet ∈ link.packets, packet.Framed boot

/-- A connection which is as far as it was. -/
def World.KeepsPhase (world : World servers) (conn : ConnId) (value : Conn) : Prop :=
  value.phase = (world.conn conn).phase

namespace ClientAct

variable {conn : ConnId} {before after : Conn} {event : Event servers}

theorem phase_eq (acts : ClientAct conn before event after) : after.phase = before.phase := by
  cases acts <;> rfl

theorem outbound_eq (acts : ClientAct conn before event after) :
    after.outbound = before.outbound := by
  cases acts <;> rfl

theorem inbound_sizes (acts : ClientAct conn before event after)
    (sizes : before.WholeRequests) : after.WholeRequests := by
  cases acts with
  | send request _ _ size =>
      intro other otherMem
      rcases List.mem_append.mp otherMem with old | fresh
      · exact sizes other old
      · rw [List.mem_singleton.mp fresh]
        exact size
  | shutdown _ _ => exact sizes
  | reset _ =>
      intro other otherMem
      cases otherMem
  | receive _ _ => exact sizes
  | receiveEof _ _ => exact sizes

end ClientAct

namespace World

@[simp]
theorem deliver_table (world : World servers) (target : Option ConnId) (data : List Byte) :
    (world.deliver target data).table = world.table := by
  cases target <;> rfl

@[simp]
theorem deliver_thread (world : World servers) (target : Option ConnId) (data : List Byte) :
    (world.deliver target data).thread = world.thread := by
  cases target <;> rfl

@[simp]
theorem deliver_backlog (world : World servers) (target : Option ConnId) (data : List Byte) :
    (world.deliver target data).backlog = world.backlog := by
  cases target <;> rfl

@[simp]
theorem deliver_link (world : World servers) (target : Option ConnId) (data : List Byte) :
    (world.deliver target data).link = world.link := by
  cases target <;> rfl

@[simp]
theorem deliver_requests (world : World servers) (target : Option ConnId) (data : List Byte) :
    (world.deliver target data).requests = world.requests := by
  cases target <;> rfl

theorem deliver_conn (world : World servers) (target : Option ConnId) (data : List Byte)
    (conn : ConnId) :
    (world.deliver target data).conn conn = { world.conn conn with
      outbound := (world.conn conn).outbound ++ if target = some conn then [data] else [] } := by
  cases target with
  | none => simp [deliver]
  | some other =>
      by_cases same : conn = other
      · subst same
        simp [deliver]
      · simp [deliver, same, Ne.symm same]

@[simp]
theorem hangUp_interest (world : World servers) (fd : Fd) (conn : ConnId) :
    (world.hangUp fd conn).thread.interest = world.thread.interest.erase fd := rfl

theorem packets_serverRead {server : Fin servers} {packet : Packet} {rest : List Packet}
    (free : (world.link server).held = none)
    (waiting : (world.link server).toServer = packet :: rest) (mess : Message Byte)
    (other : Fin servers) :
    ((world.setLink server { world.link server with
      toServer := rest, mess := mess, held := some packet }).link other).packets =
        (world.link other).packets :=
  Family.forall_update (fun other (value : Link) => value.packets = (world.link other).packets)
    (fun _ => rfl) (Link.packets_read free waiting mess) other

theorem packets_serverWrite {server : Fin servers} {packet : Packet}
    (holding : (world.link server).held = some packet) (other : Fin servers) :
    ((world.setLink server { world.link server with
      held := none
      fromServer := (world.link server).fromServer ++ [packet] }).link other).packets =
        (world.link other).packets :=
  Family.forall_update (fun other (value : Link) => value.packets = (world.link other).packets)
    (fun _ => rfl) (Link.packets_write holding) other

namespace Wellformed

/-- Well-formedness does not depend on the replies and on the logs. -/
theorem congr (wellformed : world.Wellformed boot)
    (tables : next.thread.tables = world.thread.tables)
    (interest : next.thread.interest = world.thread.interest) (table : next.table = world.table)
    (backlog : next.backlog = world.backlog)
    (phases : ∀ conn, (next.conn conn).phase = (world.conn conn).phase)
    (inbound : ∀ conn, ∀ request ∈ (next.conn conn).inbound, request.length = normalLen)
    (packets : ∀ server, ∀ packet ∈ (next.link server).packets, packet.Framed boot) :
    next.Wellformed boot where
  tables := tables.trans wellformed.tables
  fixed := table ▸ wellformed.fixed
  others := table ▸ wellformed.others
  interest := by rw [interest, table]; exact wellformed.interest
  accepted := by simp only [table, phases]; exact wellformed.accepted
  unique := table ▸ wellformed.unique
  nonneg := table ▸ wellformed.nonneg
  backlog := by simp only [backlog, phases]; exact wellformed.backlog
  nodup := backlog ▸ wellformed.nodup
  inbound := inbound
  packets := packets

theorem connect (wellformed : world.Wellformed boot) {conn : ConnId}
    (unborn : (world.conn conn).phase = .unborn) :
    ({ world with backlog := world.backlog ++ [conn] }.setConn conn
      { world.conn conn with phase := .backlog }).Wellformed boot where
  tables := wellformed.tables
  fixed := wellformed.fixed
  others := wellformed.others
  interest := wellformed.interest
  accepted := by
    intro fd other isClient
    have accepted := wellformed.accepted isClient
    by_cases same : other = conn
    · rw [same, unborn] at accepted
      cases accepted
    · simpa [same] using accepted
  unique := wellformed.unique
  nonneg := wellformed.nonneg
  backlog := by
    intro other otherMem
    rcases List.mem_append.mp otherMem with old | fresh
    · have waiting := wellformed.backlog other old
      by_cases same : other = conn
      · simp [same]
      · simpa [same] using waiting
    · simp [List.mem_singleton.mp fresh]
  nodup := by
    refine List.nodup_append.mpr ⟨wellformed.nodup, List.nodup_singleton conn, ?_⟩
    intro other old fresh freshMem
    rw [List.mem_singleton.mp freshMem]
    rintro rfl
    have waiting := wellformed.backlog other old
    rw [unborn] at waiting
    cases waiting
  inbound := by
    intro other
    by_cases same : other = conn
    · subst same
      simpa using wellformed.inbound other
    · simpa [same] using wellformed.inbound other
  packets := wellformed.packets

theorem hangUp (wellformed : world.Wellformed boot) {fd : Fd} {conn : ConnId}
    (isClient : world.table fd = some (.client conn)) :
    (world.hangUp fd conn).Wellformed boot where
  tables := wellformed.tables
  fixed := by
    intro other obj found
    have different : other ≠ fd := by
      rintro rfl
      rw [wellformed.boot_table isClient] at found
      cases found
    simpa [different] using wellformed.fixed found
  others := by
    intro other obj unknown found
    by_cases same : other = fd
    · simp [same] at found
    · exact wellformed.others unknown (by simpa [same] using found)
  interest := by
    intro other
    by_cases same : other = fd
    · have notListening := wellformed.ne_listenFdOuter isClient
      rw [wellformed.listenFdOuter] at notListening
      simp [same, notListening]
    · simpa [same] using wellformed.interest other
  accepted := by
    intro other otherConn otherClient
    have different : other ≠ fd := by
      rintro rfl
      simp at otherClient
    have still : world.table other = some (.client otherConn) := by
      simpa [different] using otherClient
    have differentConn : otherConn ≠ conn := by
      rintro rfl
      exact different (wellformed.unique still isClient)
    simpa [differentConn] using wellformed.accepted still
  unique := by
    intro first second other firstClient secondClient
    by_cases firstSame : first = fd
    · simp [firstSame] at firstClient
    · by_cases secondSame : second = fd
      · simp [secondSame] at secondClient
      · exact wellformed.unique (by simpa [firstSame] using firstClient)
          (by simpa [secondSame] using secondClient)
  nonneg := by
    intro other otherConn otherClient
    by_cases same : other = fd
    · simp [same] at otherClient
    · exact wellformed.nonneg (by simpa [same] using otherClient)
  backlog := by
    intro other otherMem
    have waiting := wellformed.backlog other otherMem
    have different : other ≠ conn := by
      rintro rfl
      rw [wellformed.accepted isClient] at waiting
      cases waiting
    simpa [different] using waiting
  nodup := wellformed.nodup
  inbound := by
    intro other
    by_cases same : other = conn
    · subst same
      simpa using wellformed.inbound other
    · simpa [same] using wellformed.inbound other
  packets := wellformed.packets

end Wellformed

theorem enroll_eq_some {fd : Fd} (enrolled : world.enroll fd = some next) :
    ∃ conn rest, world.backlog = conn :: rest ∧ world.table fd = none ∧ 0 ≤ fd.toInt ∧
      next = ({ world with
          thread := { world.thread with interest := insert fd world.thread.interest }
          backlog := rest
        }.setTable fd (some (.client conn))).setConn conn
          { world.conn conn with phase := .accepted } := by
  simp only [enroll, acceptOne] at enrolled
  split at enrolled
  · cases enrolled
  · rename_i conn rest waiting
    split at enrolled
    · rename_i fresh
      cases enrolled
      exact ⟨conn, rest, waiting, fresh.1, fresh.2, rfl⟩
    · cases enrolled

theorem enroll_link {fd : Fd} (enrolled : world.enroll fd = some next) :
    next.link = world.link := by
  rcases enroll_eq_some enrolled with ⟨conn, rest, _, _, _, rfl⟩
  rfl

theorem enroll_requests {fd : Fd} (enrolled : world.enroll fd = some next) :
    next.requests = world.requests := by
  rcases enroll_eq_some enrolled with ⟨conn, rest, _, _, _, rfl⟩
  rfl

theorem table_setTable_client {fd other : Fd} {conn otherConn : ConnId} :
    (world.setTable fd (some (.client conn))).table other = some (.client otherConn) ↔
      other = fd ∧ conn = otherConn ∨
        other ≠ fd ∧ world.table other = some (.client otherConn) := by
  by_cases same : other = fd
  · simp [same]
  · simp [same]

/-- A connection which waits to be accepted has no descriptor yet. -/
theorem Wellformed.table_ne_of_mem_backlog (wellformed : world.Wellformed boot) {conn : ConnId}
    (waiting : conn ∈ world.backlog) (fd : Fd) : world.table fd ≠ some (.client conn) := by
  intro isClient
  have phase := wellformed.backlog conn waiting
  rw [wellformed.accepted isClient] at phase
  cases phase

theorem Wellformed.enroll (wellformed : world.Wellformed boot) {fd : Fd}
    (enrolled : world.enroll fd = some next) : next.Wellformed boot := by
  rcases enroll_eq_some enrolled with ⟨conn, rest, waiting, unused, nonneg, rfl⟩
  have nodup := wellformed.nodup
  rw [waiting, List.nodup_cons] at nodup
  have boots : boot.table fd = none := by
    cases found : boot.table fd with
    | none => rfl
    | some obj =>
        rw [wellformed.fixed found] at unused
        cases unused
  -- the new connection was not accepted before, so no descriptor stands for it yet
  have noClient : ∀ other, world.table other ≠ some (.client conn) :=
    wellformed.table_ne_of_mem_backlog (by simp [waiting])
  constructor
  case tables => exact wellformed.tables
  case fixed =>
    intro other obj found
    have different : other ≠ fd := by
      rintro rfl
      rw [boots] at found
      cases found
    simpa [different] using wellformed.fixed found
  case others =>
    intro other obj unknown found
    by_cases same : other = fd
    · subst same
      simp only [setConn_table, setTable_table, Function.update_self, Option.some.injEq] at found
      exact ⟨conn, found.symm⟩
    · exact wellformed.others unknown (by simpa [same] using found)
  case interest =>
    intro other
    by_cases same : other = fd
    · simp [same]
    · simpa [same] using wellformed.interest other
  case accepted =>
    intro other otherConn otherClient
    rcases table_setTable_client.mp otherClient with ⟨_, rfl⟩ | ⟨_, still⟩
    · simp
    · have different : otherConn ≠ conn := by
        rintro rfl
        exact noClient other still
      simpa [different] using wellformed.accepted still
  case unique =>
    intro first second other firstClient secondClient
    rcases table_setTable_client.mp firstClient with ⟨rfl, rfl⟩ | ⟨_, firstStill⟩
    · rcases table_setTable_client.mp secondClient with ⟨rfl, _⟩ | ⟨_, secondStill⟩
      · rfl
      · exact absurd secondStill (noClient second)
    · rcases table_setTable_client.mp secondClient with ⟨rfl, rfl⟩ | ⟨_, secondStill⟩
      · exact absurd firstStill (noClient first)
      · exact wellformed.unique firstStill secondStill
  case nonneg =>
    intro other otherConn otherClient
    rcases table_setTable_client.mp otherClient with ⟨rfl, _⟩ | ⟨_, still⟩
    · exact nonneg
    · exact wellformed.nonneg still
  case backlog =>
    intro other otherMem
    have different : other ≠ conn := by
      rintro rfl
      exact nodup.1 otherMem
    simpa [different] using wellformed.backlog other (by rw [waiting]; exact .tail _ otherMem)
  case nodup => exact nodup.2
  case inbound =>
    intro other
    by_cases same : other = conn
    · subst same
      simpa using wellformed.inbound other
    · simpa [same] using wellformed.inbound other
  case packets => exact wellformed.packets

/-- What every `accept` of the accept loop keeps is kept by the loop. -/
theorem Wellformed.run_enroll (Holds : World servers → Prop) {fds : List Fd}
    (preserved : ∀ {state fd after}, fd ∈ fds → state.Wellformed boot → Holds state →
      state.enroll fd = some after → Holds after)
    (wellformed : world.Wellformed boot) (initially : Holds world)
    (enrolled : Machine.run World.enroll world fds = some next) : Holds next := by
  have start : world.Wellformed boot ∧ Holds world := ⟨wellformed, initially⟩
  have final := Machine.run_invariant_of_mem (fun state => state.Wellformed boot ∧ Holds state)
    (fun fdMem before step => ⟨before.1.enroll step, preserved fdMem before.1 before.2 step⟩)
    start enrolled
  exact final.2

end World

namespace Move

theorem framed_forward {fd : Fd} {conn : ConnId} {request : List Byte} (serial : ℕ)
    (wellformed : world.Wellformed boot) (isClient : world.table fd = some (.client conn))
    (size : request.length = normalLen) :
    Packet.Framed boot ⟨fdBytes fd ++ request, serial⟩ := by
  have same : Packet.fd ⟨fdBytes fd ++ request, serial⟩ = fd := loadFd_fdBytes_append fd request
  refine ⟨request, size, ?_, ?_, ?_⟩
  · rw [same]
  · rw [same]
    exact wellformed.boot_table isClient
  · rw [same]
    exact wellformed.nonneg isClient

theorem wellformed {event : Event servers} (wellformed : world.Wellformed boot)
    (move : Move world event next) : next.Wellformed boot := by
  -- only connections and links change in most moves, and each only in one place
  cases move with
  | connect conn unborn => exact wellformed.connect unborn
  | client conn value acts =>
      refine wellformed.congr rfl rfl rfl rfl ?_ ?_ wellformed.packets
      · exact Family.forall_update world.KeepsPhase (fun _ => rfl) acts.phase_eq
      · exact Family.forall_update (fun _ => Conn.WholeRequests) wellformed.inbound
          (acts.inbound_sizes (wellformed.inbound conn))
  | listen answers _ enrolled _ =>
      exact Machine.run_invariant _ (fun still step => World.Wellformed.enroll still step)
        wellformed enrolled
  | listenHalt answers halt =>
      exact wellformed.congr rfl rfl rfl rfl (fun _ => rfl) wellformed.inbound wellformed.packets
  | forward fd conn index request rest mess isClient waiting =>
      have sizes := wellformed.inbound conn
      rw [waiting, List.forall_mem_cons] at sizes
      refine wellformed.congr rfl rfl rfl rfl ?_ ?_ ?_
      · exact Family.forall_update world.KeepsPhase (fun _ => rfl) rfl
      · exact Family.forall_update (fun _ => Conn.WholeRequests) wellformed.inbound sizes.2
      · apply Family.forall_update (fun _ => Link.Framed boot) wellformed.packets
        intro packet packetMem
        rw [Link.packets_enqueue] at packetMem
        rcases List.mem_append.mp packetMem with old | fresh
        · exact wellformed.packets index packet old
        · rw [List.mem_singleton.mp fresh]
          exact framed_forward _ wellformed isClient sizes.1
  | refuse fd conn index request rest mess isClient waiting =>
      have sizes := wellformed.inbound conn
      rw [waiting, List.forall_mem_cons] at sizes
      refine wellformed.congr rfl rfl rfl rfl ?_ ?_ wellformed.packets
      · refine Family.forall_update world.KeepsPhase
          (Family.forall_update world.KeepsPhase (fun _ => rfl) rfl) ?_
        simp [World.KeepsPhase]
      · refine Family.forall_update (fun _ => Conn.WholeRequests)
          (Family.forall_update (fun _ => Conn.WholeRequests) wellformed.inbound sizes.2) ?_
        simpa [Conn.WholeRequests] using sizes.2
  | again fd conn index moved isClient nothing going =>
      refine wellformed.congr rfl rfl rfl rfl ?_ ?_ wellformed.packets
      · exact Family.forall_update world.KeepsPhase (fun _ => rfl) rfl
      · exact Family.forall_update (fun _ => Conn.WholeRequests) wellformed.inbound
          (wellformed.inbound conn)
  | close fd conn index moved isClient nothing ended => exact wellformed.hangUp isClient
  | reply fd server index moved packet rest mess isWork waiting =>
      refine wellformed.congr ?_ ?_ ?_ ?_ ?_ ?_ ?_
      · rw [World.deliver_thread]
        rfl
      · rw [World.deliver_thread]
        rfl
      · rw [World.deliver_table]
        rfl
      · rw [World.deliver_backlog]
        rfl
      · simp [World.deliver_conn]
      · simpa [World.deliver_conn] using wellformed.inbound
      · rw [World.deliver_link]
        apply Family.forall_update (fun _ => Link.Framed boot) wellformed.packets
        intro other otherMem
        apply wellformed.packets server
        rw [Link.packets_eq_cons waiting]
        exact .tail _ otherMem
  | serverRead server packet rest mess free waiting =>
      refine wellformed.congr rfl rfl rfl rfl (fun _ => rfl) wellformed.inbound ?_
      intro other
      rw [World.packets_serverRead free waiting]
      exact wellformed.packets other
  | serverWrite server packet holding =>
      refine wellformed.congr rfl rfl rfl rfl (fun _ => rfl) wellformed.inbound ?_
      intro other
      rw [World.packets_serverWrite holding]
      exact wellformed.packets other

end Move

namespace World

theorem wellformed_boot (boot : Boot servers) (garbage : Fin servers → Message Byte) :
    (boot.world garbage).Wellformed boot where
  tables := rfl
  fixed := fun found => found
  others := by
    intro fd obj unknown found
    rw [show (boot.world garbage).table fd = boot.table fd from rfl, unknown] at found
    cases found
  interest := by
    intro fd
    simp [Boot.world, Boot.thread, boot.table_ne_client]
  accepted := fun isClient => absurd isClient (boot.table_ne_client _ _)
  unique := fun isClient => absurd isClient (boot.table_ne_client _ _)
  nonneg := fun isClient => absurd isClient (boot.table_ne_client _ _)
  backlog := by simp [Boot.world]
  nodup := List.nodup_nil
  inbound := by simp [Boot.world, Conn.unborn]
  packets := by simp [Boot.world, Link.packets]

theorem Wellformed.step (wellformed : world.Wellformed boot) {event : Event servers}
    (stepped : world.step event = some next) : next.Wellformed boot :=
  (move_of_step wellformed stepped).wellformed wellformed

theorem Wellformed.of_reachable {garbage : Fin servers → Message Byte}
    (reachable : Machine.Reachable World.step (boot.world garbage) world) :
    world.Wellformed boot :=
  reachable.invariant (World.Wellformed boot) (fun wellformed stepped => wellformed.step stepped)
    (wellformed_boot boot garbage)

/-- The rule for guarded runs of the system: an invariant need only be kept by the moves
which the guard permits out of well-formed states. -/
theorem invariant_of_moves {garbage : Fin servers → Message Byte}
    {allowed : World servers → Event servers → Prop} (Holds : World servers → Prop)
    (initially : Holds (boot.world garbage))
    (preserved : ∀ {state event after}, state.Wellformed boot → Holds state →
      allowed state event → Move state event after → Holds after)
    {events : List (Event servers)} {final : World servers}
    (guarded : Machine.RunsUnder World.step allowed (boot.world garbage) events final) :
    final.Wellformed boot ∧ Holds final := by
  have start : (boot.world garbage).Wellformed boot ∧ Holds (boot.world garbage) :=
    ⟨wellformed_boot boot garbage, initially⟩
  refine guarded.invariant (fun state => state.Wellformed boot ∧ Holds state) ?_ start
  intro state event after both permitted stepped
  exact ⟨both.1.step stepped, preserved both.1 both.2 permitted (move_of_step both.1 stepped)⟩

end World

end LoadBalance.Relay
