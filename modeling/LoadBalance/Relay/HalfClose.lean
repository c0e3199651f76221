import LoadBalance.Relay.Order

/-!
# Clients which shut down before they read

A client of the test bench writes its request, shuts its sending side down and only then
reads. The distributor takes the end of file which this causes for a full close. If it
comes to it while the request is on its way, the answer finds no connection any more. It
does no harm exactly when no message with the descriptor of the client is on its way.
-/

namespace LoadBalance.Relay

variable {servers : ℕ} {boot : Boot servers} {world next : World servers}

/-- How a connection may change: it is written whole replies, and not after its end. -/
structure Conn.Grows (before after : Conn) : Prop where
  outbound : ∃ later, after.outbound = before.outbound ++ later ∧
    ∀ data ∈ later, data.length = normalLen
  eof : (before.sawEof = true →
      before.phase = .closed ∧ before.outbound.length ≤ before.received) →
    after.sawEof = true → after.phase = .closed ∧ after.outbound.length ≤ after.received

namespace Conn.Grows

variable {before after : Conn}

theorem refl (conn : Conn) : conn.Grows conn where
  outbound := ⟨[], (List.append_nil _).symm, by simp⟩
  eof := id

theorem of_client {conn : ConnId} {event : Event servers}
    (acts : ClientAct conn before event after) : before.Grows after := by
  refine ⟨⟨[], by simp [acts.outbound_eq], by simp⟩, ?_⟩
  intro holds saw
  cases acts with
  | send request _ _ _ => exact holds saw
  | shutdown _ _ => exact holds saw
  | reset _ => exact holds saw
  | receive _ _ =>
      rcases holds saw with ⟨closed, allRead⟩
      exact ⟨closed, Nat.le_succ_of_le allRead⟩
  | receiveEof closed allRead => exact ⟨closed, allRead⟩

theorem of_open (isOpen : before.phase ≠ .closed) {later : List (List Byte)}
    (sizes : ∀ data ∈ later, data.length = normalLen)
    (outbound : after.outbound = before.outbound ++ later)
    (sawEof : after.sawEof = before.sawEof) : before.Grows after := by
  refine ⟨⟨later, outbound, sizes⟩, ?_⟩
  intro holds saw
  exact absurd (holds (sawEof ▸ saw)).1 isOpen

theorem nonempty (grows : before.Grows after) (written : before.outbound ≠ []) :
    after.outbound ≠ [] := by
  rcases grows.outbound with ⟨later, outbound, _⟩
  simp [outbound, written]

theorem sizes (grows : before.Grows after)
    (written : ∀ data ∈ before.outbound, data.length = normalLen) :
    ∀ data ∈ after.outbound, data.length = normalLen := by
  rcases grows.outbound with ⟨later, outbound, fresh⟩
  rw [outbound]
  intro data dataMem
  rcases List.mem_append.mp dataMem with old | new
  · exact written data old
  · exact fresh data new

end Conn.Grows

namespace World

/-- No connection is closed while a request which was forwarded for it is unanswered. -/
def AnsweredBeforeClose (world : World servers) : Prop :=
  ∀ conn, (world.conn conn).phase = .closed → ∀ server,
    ∀ serial ∈ (world.link server).forwarded, world.requests[serial]? = some conn →
      ∃ reply ∈ (world.link server).replies, reply.serial = serial ∧ reply.target = some conn

/-- A client which has come to the end of file, and whose request was forwarded, has read a
whole reply before. -/
def RepliedBeforeEof (world : World servers) : Prop :=
  ∀ conn, (world.conn conn).sawEof = true → ∀ server,
    ∀ serial ∈ (world.link server).forwarded, world.requests[serial]? = some conn →
      ∃ data ∈ (world.conn conn).outbound.take (world.conn conn).received,
        data.length = normalLen

/-- The order in which `benchcore` makes its calls on a connection. -/
def BenchClient (world : World servers) : Event servers → Prop
  | .send conn _ => (world.conn conn).sent = 0
  | .shutdown conn => (world.conn conn).sent = 1
  | .reset _ => False
  | .receive conn => (world.conn conn).sending = .ended
  | _ => True

instance (world : World servers) : ∀ event, Decidable (world.BenchClient event)
  | .send conn _ => inferInstanceAs (Decidable ((world.conn conn).sent = 0))
  | .shutdown conn => inferInstanceAs (Decidable ((world.conn conn).sent = 1))
  | .reset _ => inferInstanceAs (Decidable False)
  | .receive conn => inferInstanceAs (Decidable ((world.conn conn).sending = .ended))
  | .connect _ => inferInstanceAs (Decidable True)
  | .listen _ => inferInstanceAs (Decidable True)
  | .ready _ _ _ => inferInstanceAs (Decidable True)
  | .serverRead _ => inferInstanceAs (Decidable True)
  | .serverWrite _ => inferInstanceAs (Decidable True)

/-- The end of file of a client is only handed to the loop when no message with its
descriptor is on its way. -/
def EofAnswered (world : World servers) (event : Event servers) : Prop :=
  ∀ fd ∈ event.readyFd, ∀ conn ∈ world.clientAt fd,
    (world.conn conn).inbound = [] → (world.conn conn).sending ≠ .going →
      ∀ server, ∀ packet ∈ (world.link server).packets, packet.fd ≠ fd

instance (world : World servers) (event : Event servers) : Decidable (world.EofAnswered event) :=
  Option.decidableForallMem _

/-- Every message on its way names an open connection, the one of its request, and every
reply has been written to it. -/
structure Answering (world : World servers) : Prop where
  origin : ∀ server, ∀ packet ∈ (world.link server).packets, ∃ conn,
    world.table packet.fd = some (.client conn) ∧ world.requests[packet.serial]? = some conn
  answered : ∀ server, ∀ reply ∈ (world.link server).replies, ∃ conn,
    reply.target = some conn ∧ world.requests[reply.serial]? = some conn ∧
      (world.conn conn).outbound ≠ []
  sizes : ∀ conn, ∀ data ∈ (world.conn conn).outbound, data.length = normalLen
  eof : ∀ conn, (world.conn conn).sawEof = true →
    (world.conn conn).phase = .closed ∧
      (world.conn conn).outbound.length ≤ (world.conn conn).received

theorem answering_boot (boot : Boot servers) (garbage : Fin servers → Message Byte) :
    (boot.world garbage).Answering := by
  constructor <;> simp [Boot.world, Link.packets, Conn.unborn]

namespace Answering

theorem answered_mono (answering : world.Answering)
    (conns : ∀ conn, (world.conn conn).Grows (next.conn conn))
    (requests : world.requests <+: next.requests) {server : Fin servers} {reply : Reply}
    (replyMem : reply ∈ (world.link server).replies) : ∃ conn,
      reply.target = some conn ∧ next.requests[reply.serial]? = some conn ∧
        (next.conn conn).outbound ≠ [] := by
  rcases answering.answered server reply replyMem with ⟨conn, target, request, written⟩
  exact ⟨conn, target, Machine.getElem?_of_grown requests request, (conns conn).nonempty written⟩

theorem congr (answering : world.Answering)
    (conns : ∀ conn, (world.conn conn).Grows (next.conn conn))
    (requests : world.requests <+: next.requests)
    (packets : ∀ server, (next.link server).packets = (world.link server).packets)
    (table : ∀ server, ∀ packet ∈ (world.link server).packets,
      next.table packet.fd = world.table packet.fd)
    (replies : ∀ server, (next.link server).replies = (world.link server).replies) :
    next.Answering where
  origin := by
    intro server packet packetMem
    rw [packets] at packetMem
    rcases answering.origin server packet packetMem with ⟨conn, isClient, request⟩
    rw [table server packet packetMem]
    exact ⟨conn, isClient, Machine.getElem?_of_grown requests request⟩
  answered := by
    intro server reply replyMem
    rw [replies] at replyMem
    exact answering.answered_mono conns requests replyMem
  sizes := fun conn => (conns conn).sizes (answering.sizes conn)
  eof := fun conn => (conns conn).eof (answering.eof conn)

theorem enroll (wellformed : world.Wellformed boot) (answering : world.Answering) {fd : Fd}
    (enrolled : world.enroll fd = some next) : next.Answering := by
  rcases enroll_eq_some enrolled with ⟨conn, rest, waiting, unused, _, rfl⟩
  have phase := wellformed.backlog conn (by simp [waiting])
  refine answering.congr ?_ (List.prefix_refl _) (fun _ => rfl) ?_ (fun _ => rfl)
  · refine Family.forall_update (fun other => (world.conn other).Grows)
      (fun other => Conn.Grows.refl _) ?_
    exact .of_open (by simp [phase]) (by simp) (List.append_nil _).symm rfl
  · intro server packet packetMem
    rcases answering.origin server packet packetMem with ⟨other, isClient, _⟩
    have different : packet.fd ≠ fd := by
      rintro rfl
      rw [isClient] at unused
      cases unused
    simp [different]

theorem grows_answer {conn : ConnId} (isOpen : (world.conn conn).phase ≠ .closed) {data : List Byte}
    (size : data.length = normalLen) (other : ConnId) :
    (world.conn other).Grows ((world.answer conn data).conn other) := by
  refine Family.forall_update (fun other => (world.conn other).Grows)
    (fun other => Conn.Grows.refl _) ?_ other
  exact .of_open isOpen (by simpa using size) rfl rfl

section Serve

variable {fd : Fd} {conn : ConnId} {rest : List (List Byte)}

theorem took (answering : world.Answering) (isOpen : (world.conn conn).phase ≠ .closed)
    (rest : List (List Byte)) (mess : Message Byte) :
    (world.took conn rest mess).Answering := by
  refine answering.congr ?_ (List.prefix_append _ _) (fun _ => rfl) (fun _ _ _ => rfl)
    (fun _ => rfl)
  refine Family.forall_update (fun other => (world.conn other).Grows)
    (fun other => Conn.Grows.refl _) ?_
  exact .of_open isOpen (by simp) (List.append_nil _).symm rfl

theorem answer (answering : world.Answering) (isOpen : (world.conn conn).phase ≠ .closed)
    {data : List Byte} (size : data.length = normalLen) : (world.answer conn data).Answering :=
  answering.congr (grows_answer isOpen size) (List.prefix_refl _) (fun _ => rfl)
    (fun _ _ _ => rfl) (fun _ => rfl)

theorem enqueue (answering : world.Answering) (index : Fin servers) {packet : Packet}
    (isClient : world.table packet.fd = some (.client conn))
    (request : world.requests[packet.serial]? = some conn) :
    (world.enqueue index packet).Answering where
  origin := by
    refine Family.forall_update (fun _ (value : Link) => ∀ other ∈ value.packets, ∃ conn,
      world.table other.fd = some (.client conn) ∧ world.requests[other.serial]? = some conn)
      answering.origin ?_
    intro other otherMem
    rw [Link.packets_enqueue] at otherMem
    rcases List.mem_append.mp otherMem with old | fresh
    · exact answering.origin index other old
    · rw [List.mem_singleton.mp fresh]
      exact ⟨conn, isClient, request⟩
  answered := by
    refine Family.forall_update (fun _ (value : Link) => ∀ reply ∈ value.replies, ∃ conn,
      reply.target = some conn ∧ world.requests[reply.serial]? = some conn ∧
        (world.conn conn).outbound ≠ []) answering.answered ?_
    exact answering.answered index
  sizes := answering.sizes
  eof := answering.eof

theorem hangUp (answering : world.Answering) (isOpen : (world.conn conn).phase ≠ .closed)
    (nothing : ∀ server, ∀ packet ∈ (world.link server).packets, packet.fd ≠ fd) :
    (world.hangUp fd conn).Answering := by
  refine answering.congr ?_ (List.prefix_refl _) (fun _ => rfl) ?_ (fun _ => rfl)
  · refine Family.forall_update (fun other => (world.conn other).Grows)
      (fun other => Conn.Grows.refl _) ?_
    exact .of_open isOpen (by simp) (List.append_nil _).symm rfl
  · intro server packet packetMem
    simp [nothing server packet packetMem]

theorem reply (wellformed : world.Wellformed boot) (answering : world.Answering)
    {server : Fin servers} {packet : Packet} {rest : List Packet}
    (waiting : (world.link server).fromServer = packet :: rest) (mess : Message Byte) :
    ((world.settle server packet rest mess).deliver (world.clientAt packet.fd)
      correctRes).Answering := by
  rcases answering.origin server packet (by simp [Link.packets, waiting]) with
    ⟨conn, isClient, request⟩
  rw [clientAt_eq_some.mpr isClient]
  have isOpen : (world.conn conn).phase ≠ .closed := by simp [wellformed.accepted isClient]
  have conns := grows_answer isOpen length_correctRes
  constructor
  · refine Family.forall_update (fun _ (value : Link) => ∀ other ∈ value.packets, ∃ conn,
      world.table other.fd = some (.client conn) ∧ world.requests[other.serial]? = some conn)
      answering.origin ?_
    intro other otherMem
    apply answering.origin server
    rw [Link.packets_eq_cons waiting]
    exact .tail _ otherMem
  · have old : ∀ other, ∀ reply ∈ (world.link other).replies, ∃ conn',
        reply.target = some conn' ∧ world.requests[reply.serial]? = some conn' ∧
          ((world.answer conn correctRes).conn conn').outbound ≠ [] :=
      fun other reply replyMem => answering.answered_mono conns (List.prefix_refl _) replyMem
    refine Family.forall_update (fun _ (value : Link) => ∀ reply ∈ value.replies, ∃ conn',
      reply.target = some conn' ∧ world.requests[reply.serial]? = some conn' ∧
        ((world.answer conn correctRes).conn conn').outbound ≠ []) old ?_
    intro reply replyMem
    rcases List.mem_append.mp replyMem with before | fresh
    · exact old server reply before
    · rw [List.mem_singleton.mp fresh]
      exact ⟨conn, clientAt_eq_some.mpr isClient, request, by simp⟩
  · exact fun other => (conns other).sizes (answering.sizes other)
  · exact fun other => (conns other).eof (answering.eof other)

end Serve

theorem move {event : Event servers} (wellformed : world.Wellformed boot)
    (answering : world.Answering) (permitted : world.EofAnswered event)
    (move : Move world event next) : next.Answering := by
  have isOpen : ∀ {fd conn}, world.table fd = some (.client conn) →
      (world.conn conn).phase ≠ .closed := fun isClient => by simp [wellformed.accepted isClient]
  cases move with
  | connect conn unborn =>
      refine answering.congr ?_ (List.prefix_refl _) (fun _ => rfl) (fun _ _ _ => rfl)
        (fun _ => rfl)
      refine Family.forall_update (fun other => (world.conn other).Grows)
        (fun other => Conn.Grows.refl _) ?_
      exact .of_open (by simp [unborn]) (by simp) (List.append_nil _).symm rfl
  | client conn value acts =>
      refine answering.congr ?_ (List.prefix_refl _) (fun _ => rfl) (fun _ _ _ => rfl)
        (fun _ => rfl)
      exact Family.forall_update (fun other => (world.conn other).Grows)
        (fun other => Conn.Grows.refl _) (.of_client acts)
  | listen answers _ enrolled _ =>
      exact wellformed.run_enroll Answering (fun _ before held step => held.enroll before step)
        answering enrolled
  | listenHalt answers halt =>
      exact answering.congr (fun _ => Conn.Grows.refl _) (List.prefix_refl _) (fun _ => rfl)
        (fun _ _ _ => rfl) (fun _ => rfl)
  | forward fd conn index request rest mess isClient waiting =>
      have packetFd : Packet.fd ⟨fdBytes fd ++ request, world.requests.length⟩ = fd :=
        loadFd_fdBytes_append fd request
      have asked : (world.requests ++ [conn])[world.requests.length]? = some conn := by simp
      exact (answering.took (isOpen isClient) rest mess).enqueue index (packetFd.symm ▸ isClient)
        asked
  | refuse fd conn index request rest mess isClient waiting =>
      exact (answering.took (isOpen isClient) rest mess).answer (by simpa using isOpen isClient)
        length_errRes
  | again fd conn index moved isClient nothing going =>
      exact answering.answer (isOpen isClient) length_errRes
  | close fd conn index moved isClient nothing ended =>
      exact answering.hangUp (isOpen isClient)
        (permitted fd rfl conn (clientAt_eq_some.mpr isClient) nothing ended)
  | reply fd server index moved packet rest mess isWork waiting =>
      exact answering.reply wellformed waiting mess
  | serverRead server packet rest mess free waiting =>
      exact answering.congr (fun _ => Conn.Grows.refl _) (List.prefix_refl _)
        (packets_serverRead free waiting mess) (fun _ _ _ => rfl)
        (Family.forall_update (fun other (value : Link) =>
          value.replies = (world.link other).replies) (fun _ => rfl) rfl)
  | serverWrite server packet holding =>
      exact answering.congr (fun _ => Conn.Grows.refl _) (List.prefix_refl _)
        (packets_serverWrite holding) (fun _ _ _ => rfl)
        (Family.forall_update (fun other (value : Link) =>
          value.replies = (world.link other).replies) (fun _ => rfl) rfl)

theorem answeredBeforeClose (wellformed : world.Wellformed boot) (ordered : world.Ordered)
    (answering : world.Answering) : world.AnsweredBeforeClose := by
  intro conn closed server serial serialMem request
  rcases (ordered server).mem_forwarded_iff.mp serialMem with
    ⟨reply, replyMem, rfl⟩ | ⟨packet, packetMem, rfl⟩
  · rcases answering.answered server reply replyMem with ⟨other, target, origin, _⟩
    rw [request, Option.some.injEq] at origin
    exact ⟨reply, replyMem, rfl, origin ▸ target⟩
  · -- a message on its way belongs to an open connection
    rcases answering.origin server packet packetMem with ⟨other, isClient, origin⟩
    rw [request, Option.some.injEq] at origin
    rw [← origin] at isClient
    rw [wellformed.accepted isClient] at closed
    cases closed

theorem repliedBeforeEof (wellformed : world.Wellformed boot) (ordered : world.Ordered)
    (answering : world.Answering) : world.RepliedBeforeEof := by
  intro conn sawEof server serial serialMem request
  rcases answering.eof conn sawEof with ⟨closed, allRead⟩
  rcases answering.answeredBeforeClose wellformed ordered conn closed server serial serialMem
    request with ⟨reply, replyMem, rfl, target⟩
  rcases answering.answered server reply replyMem with ⟨other, target', _, written⟩
  rw [target, Option.some.injEq] at target'
  rw [← target'] at written
  rcases List.exists_mem_of_ne_nil _ written with ⟨data, dataMem⟩
  rw [List.take_of_length_le allRead]
  exact ⟨data, dataMem, answering.sizes conn data dataMem⟩

end Answering

theorem eq_hangUp_of_move {fd : Fd} {conn : ConnId} {index : Fin servers} {moved : Bool}
    (isClient : world.table fd = some (.client conn)) (nothing : (world.conn conn).inbound = [])
    (ended : (world.conn conn).sending ≠ .going)
    (move : Move world (.ready fd index moved) next) : next = world.hangUp fd conn := by
  have same : ∀ {other}, world.table fd = some (.client other) → conn = other := by
    intro other otherClient
    rw [isClient, Option.some.injEq, Obj.client.injEq] at otherClient
    exact otherClient
  cases move with
  | client other value acts => cases acts
  | forward _ other _ request rest mess otherClient waiting =>
      rw [← same otherClient, nothing] at waiting
      cases waiting
  | refuse _ other _ request rest mess otherClient waiting =>
      rw [← same otherClient, nothing] at waiting
      cases waiting
  | again _ other _ _ otherClient _ going =>
      rw [← same otherClient] at going
      exact absurd going ended
  | close _ other _ _ otherClient _ _ => rw [same otherClient]
  | reply _ server _ _ packet rest mess isWork _ =>
      rw [isClient] at isWork
      cases isWork

/-- A close while a message with the descriptor is on its way leaves a request unanswered. -/
theorem not_answeredBeforeClose (wellformed : world.Wellformed boot) (ordered : world.Ordered)
    (answering : world.Answering) {event : Event servers} (violated : ¬world.EofAnswered event)
    (stepped : world.step event = some next) : ¬next.AnsweredBeforeClose := by
  simp only [EofAnswered, not_forall] at violated
  rcases violated with
    ⟨fd, readyFd, conn, isClient, nothing, ended, server, packet, packetMem, named⟩
  rw [not_not] at named
  rw [Option.mem_def, clientAt_eq_some] at isClient
  cases event with
  | ready other index moved =>
      simp only [Event.readyFd, Option.mem_def, Option.some.injEq] at readyFd
      subst readyFd
      have closed : next = world.hangUp other conn :=
        eq_hangUp_of_move isClient nothing ended (move_of_step wellformed stepped)
      rcases answering.origin server packet packetMem with ⟨origin, originClient, request⟩
      rw [named, isClient, Option.some.injEq, Obj.client.injEq] at originClient
      subst originClient
      rw [closed]
      intro answered
      have serialMem : packet.serial ∈ (world.link server).forwarded :=
        (ordered server).mem_forwarded_iff.mpr (Or.inr ⟨packet, packetMem, rfl⟩)
      rcases answered conn (by simp) server packet.serial serialMem request with
        ⟨reply, replyMem, sameSerial, _⟩
      exact (ordered server).serial_ne replyMem packetMem sameSerial
  | _ => cases readyFd

/--
In every run of clients like those of the bench in which no end of file overtakes a message
with its descriptor, no client is closed before it is answered and every client reads a
reply before the end of file. The first end of file which does overtake one closes a client
whose request is unanswered.
-/
theorem answeredBeforeClose_of_eofAnswered {garbage : Fin servers → Message Byte}
    {events : List (Event servers)}
    (guarded : Machine.RunsUnder World.step
      (fun state event => state.BenchClient event ∧ state.EofAnswered event)
      (boot.world garbage) events world) :
    world.AnsweredBeforeClose ∧ world.RepliedBeforeEof ∧
      ∀ event next, world.step event = some next → ¬world.EofAnswered event →
        ¬next.AnsweredBeforeClose := by
  rcases invariant_of_moves (fun state => state.Ordered ∧ state.Answering)
    ⟨ordered_boot boot garbage, answering_boot boot garbage⟩
    (fun wellformed before permitted move =>
      ⟨before.1.move move, before.2.move wellformed permitted.2 move⟩) guarded with
    ⟨wellformed, ordered, answering⟩
  refine ⟨answering.answeredBeforeClose wellformed ordered,
    answering.repliedBeforeEof wellformed ordered, fun event next stepped violated => ?_⟩
  exact not_answeredBeforeClose wellformed ordered answering violated stepped

/-- A client of the bench whose end of file comes to the loop after its answer. -/
def endsAfterAnswer : List (Event 1) :=
  [.connect 0, .send 0 (List.replicate normalLen 0), .shutdown 0,
    .listen ⟨[(8, 0, 0)], .eagain, .error .eagain, Boot.server, 0⟩, .ready 8 Boot.server true,
    .serverRead Boot.server, .serverWrite Boot.server, .ready 4 Boot.server true, .receive 0,
    .ready 8 Boot.server true, .receive 0]

theorem answeredBeforeClose_of_eofAnswered_sample :
    ∃ world, Machine.RunsUnder World.step
        (fun state event => state.BenchClient event ∧ state.EofAnswered event)
        (Boot.single.world fun _ => .zero) endsAfterAnswer world ∧
      (world.conn 0).sawEof = true ∧ world.AnsweredBeforeClose ∧ world.RepliedBeforeEof ∧
      ∀ event next, world.step event = some next → ¬world.EofAnswered event →
        ¬next.AnsweredBeforeClose := by
  rcases Machine.RunsUnder.exists_of_any endsAfterAnswer
    (show (Machine.run (Machine.RunsUnder.guarded World.step
      (fun state event => state.BenchClient event ∧ state.EofAnswered event))
      (Boot.single.world fun _ => .zero) endsAfterAnswer).any (fun world =>
        (world.conn 0).sawEof) = true by decide +kernel) with ⟨world, guarded, sawEof⟩
  exact ⟨world, guarded, sawEof, answeredBeforeClose_of_eofAnswered guarded⟩

/-- A client of the bench whose end of file comes to the loop before its answer. -/
def endsBeforeAnswer : List (Event 1) :=
  [.connect 0, .send 0 (List.replicate normalLen 0), .shutdown 0,
    .listen ⟨[(8, 0, 0)], .eagain, .error .eagain, Boot.server, 0⟩, .ready 8 Boot.server true,
    .ready 8 Boot.server true, .receive 0]

/-- The client is closed with its request on the way, and reads no reply at all. -/
theorem not_answeredBeforeClose_of_early_eof :
    ∃ world, Machine.RunsUnder World.step BenchClient (Boot.single.world fun _ => .zero)
        endsBeforeAnswer world ∧
      ¬world.AnsweredBeforeClose ∧ ¬world.RepliedBeforeEof := by
  have ran : ∃ world, Machine.RunsUnder World.step BenchClient
      (Boot.single.world fun _ => .zero) endsBeforeAnswer world ∧
        decide ((world.conn 0).phase = .closed ∧ (world.conn 0).sawEof = true ∧
          (world.conn 0).outbound = [] ∧ world.requests = [0] ∧
          (world.link 0).forwarded = [0] ∧ (world.link 0).replies = []) = true :=
    Machine.RunsUnder.exists_of_any endsBeforeAnswer (by decide +kernel)
  rcases ran with ⟨world, guarded, shown⟩
  rcases of_decide_eq_true shown with ⟨closed, sawEof, outbound, requests, forwarded, replies⟩
  have serialMem : 0 ∈ (world.link 0).forwarded := by simp [forwarded]
  have request : world.requests[0]? = some 0 := by simp [requests]
  refine ⟨world, guarded, ?_, ?_⟩
  · intro answered
    rcases answered 0 closed 0 0 serialMem request with ⟨reply, replyMem, _⟩
    simp [replies] at replyMem
  · intro replied
    rcases replied 0 sawEof 0 0 serialMem request with ⟨data, dataMem, _⟩
    simp [outbound] at dataMem

end World

end LoadBalance.Relay
