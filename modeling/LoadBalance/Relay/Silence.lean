import LoadBalance.Relay.Order
import LoadBalance.Relay.Interest

/-!
# What the clients get from `epoll_wait`

The loop is run with the descriptors which `epoll_wait` reports, and these are registered.
The connections to the inner servers are not, so that no reply is ever taken out of them.
-/

namespace LoadBalance.Relay

variable {servers : ℕ} {boot : Boot servers} {world next : World servers}

namespace World

/-- Only a registered descriptor is handed to the loop. -/
def Reported (world : World servers) (event : Event servers) : Prop :=
  ∀ fd ∈ event.readyFd, fd ∈ world.thread.interest

instance (world : World servers) (event : Event servers) : Decidable (world.Reported event) :=
  Option.decidableForallMem _

/-- Everything which was written to a client is of this kind. -/
def Sends (kind : List Byte → Prop) (world : World servers) : Prop :=
  ∀ conn, ∀ reply ∈ (world.conn conn).outbound, kind reply

theorem sends_boot (kind : List Byte → Prop) (boot : Boot servers)
    (garbage : Fin servers → Message Byte) : (boot.world garbage).Sends kind := by
  simp [Sends, Boot.world, Conn.unborn]

namespace Sends

variable {kind : List Byte → Prop}

theorem setConn (sends : world.Sends kind) {conn : ConnId} {value : Conn}
    (outbound : value.outbound = (world.conn conn).outbound) :
    (world.setConn conn value).Sends kind := by
  refine Family.forall_update (fun _ (value : Conn) => ∀ reply ∈ value.outbound, kind reply)
    sends ?_
  rw [outbound]
  exact sends conn

theorem answer (sends : world.Sends kind) (conn : ConnId) {reply : List Byte}
    (isKind : kind reply) : (world.answer conn reply).Sends kind := by
  refine Family.forall_update (fun _ (value : Conn) => ∀ reply ∈ value.outbound, kind reply)
    sends ?_
  intro other otherMem
  rcases List.mem_append.mp otherMem with old | fresh
  · exact sends conn other old
  · rw [List.mem_singleton.mp fresh]
    exact isKind

theorem deliver (sends : world.Sends kind) (target : Option ConnId) {reply : List Byte}
    (isKind : kind reply) : (world.deliver target reply).Sends kind := by
  cases target with
  | none => exact sends
  | some conn => exact sends.answer conn isKind

theorem enroll {fd : Fd} (sends : world.Sends kind) (enrolled : world.enroll fd = some next) :
    next.Sends kind := by
  rcases enroll_eq_some enrolled with ⟨conn, rest, _, _, _, rfl⟩
  exact sends.setConn rfl

/-- There are two replies, and the one for a success is written in one move only. -/
theorem move {event : Event servers} (sends : world.Sends kind) (refusal : kind errRes)
    (success : ∀ fd ∈ event.readyFd, ∀ server, world.table fd = some (.work server) →
      kind correctRes)
    (move : Move world event next) : next.Sends kind := by
  cases move with
  | connect conn unborn => exact sends.setConn rfl
  | client conn value acts => exact sends.setConn acts.outbound_eq
  | listen answers _ enrolled _ =>
      exact Machine.run_invariant (Sends kind) (fun before step => before.enroll step) sends
        enrolled
  | listenHalt answers halt => exact sends
  | forward fd conn index request rest mess isClient waiting => exact sends.setConn rfl
  | refuse fd conn index request rest mess isClient waiting =>
      have took : (world.took conn rest mess).Sends kind := sends.setConn rfl
      exact took.answer conn refusal
  | again fd conn index moved isClient nothing going => exact sends.answer conn refusal
  | close fd conn index moved isClient nothing ended => exact sends.setConn rfl
  | reply fd server index moved packet rest mess isWork waiting =>
      have settled : (world.settle server packet rest mess).Sends kind := sends
      exact settled.deliver _ (success fd rfl server isWork)
  | serverRead server packet rest mess free waiting => exact sends
  | serverWrite server packet holding => exact sends

end Sends

/-- Nothing but refusals has been written to a client, and no inner server has been heard. -/
structure Silent (world : World servers) : Prop where
  refusals : ∀ conn, ∀ reply ∈ (world.conn conn).outbound, reply = errRes
  replies : ∀ server, (world.link server).replies = []

/-- No descriptor of an inner server is handed to the loop. -/
theorem not_work_of_reported {event : Event servers} (wellformed : world.Wellformed boot)
    (reported : world.Reported event) {fd : Fd} (ready : fd ∈ event.readyFd)
    (server : Fin servers) : world.table fd ≠ some (.work server) := by
  intro isWork
  have registered := reported fd ready
  rw [wellformed.eq_work isWork, ← wellformed.serversInner] at registered
  exact wellformed.work_notMem_interest server registered

/-- The move which takes a reply is the only one which would end the silence. -/
theorem Silent.move {event : Event servers} (wellformed : world.Wellformed boot)
    (silent : world.Silent) (reported : world.Reported event) (move : Move world event next) :
    next.Silent where
  refusals := by
    have sends : world.Sends (· = errRes) := silent.refusals
    refine sends.move rfl ?_ move
    intro fd ready server isWork
    exact absurd isWork (not_work_of_reported wellformed reported ready server)
  replies := by
    have setLink : ∀ {server : Fin servers} {value : Link}, value.replies = [] →
        ∀ other, ((world.setLink server value).link other).replies = [] :=
      fun replies => Family.forall_update (fun _ (value : Link) => value.replies = [])
        silent.replies replies
    cases move with
    | connect conn unborn => exact silent.replies
    | client conn value acts => exact silent.replies
    | listen answers _ enrolled _ =>
        exact Machine.run_invariant (fun state => ∀ server, (state.link server).replies = [])
          (fun before step => enroll_link step ▸ before) silent.replies enrolled
    | listenHalt answers halt => exact silent.replies
    | forward fd conn index request rest mess isClient waiting =>
        exact setLink (silent.replies index)
    | refuse fd conn index request rest mess isClient waiting => exact silent.replies
    | again fd conn index moved isClient nothing going => exact silent.replies
    | close fd conn index moved isClient nothing ended => exact silent.replies
    | reply fd server index moved packet rest mess isWork waiting =>
        exact absurd isWork (not_work_of_reported wellformed reported rfl server)
    | serverRead server packet rest mess free waiting => exact setLink (silent.replies server)
    | serverWrite server packet holding => exact setLink (silent.replies server)

end World

end LoadBalance.Relay
