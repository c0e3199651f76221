import LoadBalance.Relay.Move

/-!
# Inversion of a step

A step out of a well-formed state is a move. The loop body is unfolded here and nowhere
else: the proofs about runs only see the moves.
-/

namespace LoadBalance.Relay

open Distributor (Thread Answers Call loopBody)

variable {servers : ℕ} {boot : Boot servers} {world next : World servers}

namespace World

theorem clientAt_eq_some {fd : Fd} {conn : ConnId} :
    world.clientAt fd = some conn ↔ world.table fd = some (.client conn) := by
  simp only [clientAt]
  split
  · rename_i other found
    simp [found]
  · rename_i notClient
    constructor
    · intro impossible
      cases impossible
    · intro found
      exact absurd found (notClient conn)

theorem clientStep_eq_some {conn : ConnId} {value : Conn} {enabled : Prop} [Decidable enabled]
    (stepped : world.clientStep conn value enabled = some next) :
    (world.conn conn).phase ≠ .unborn ∧ enabled ∧ next = world.setConn conn value := by
  simp only [clientStep] at stepped
  split at stepped
  · rename_i possible
    cases stepped
    exact ⟨possible.1, possible.2, rfl⟩
  · cases stepped

theorem write_eq_deliver {fd : Fd} (serial : ℕ) (moved : Bool) (data : List Byte)
    (onlyClient : ∀ obj, world.table fd = some obj → ∃ conn, obj = .client conn) :
    world.write serial moved fd data = world.deliver (world.clientAt fd) data := by
  cases found : world.table fd with
  | none => simp [write, clientAt, deliver, found]
  | some obj =>
      rcases onlyClient obj found with ⟨conn, rfl⟩
      simp [write, clientAt, deliver, found]

theorem move_of_serveListen {answers : Answers servers Byte}
    (served : world.serveListen answers = some next) : Move world (.listen answers) next := by
  simp only [serveListen] at served
  split at served
  · cases served
  · rename_i accepted ran
    split at served
    · cases served
    · rename_i drained
      cases accepting : Distributor.acceptLoop world.thread.interest answers.accepted
          answers.acceptErrno with
      | error halt =>
          rw [loopBody, if_pos rfl, accepting] at served
          cases served
          exact .listenHalt answers halt
      | ok interest =>
          rw [Distributor.loopBody_listen rfl accepting] at served
          rcases Distributor.acceptLoop_eq_ok accepting with ⟨again, registered⟩
          have empty : accepted.backlog = [] := by
            by_contra waiting
            exact drained ⟨again, waiting⟩
          have enrolled := run_enroll_of_run_acceptOne ran
          rw [← registered] at enrolled
          cases served
          exact .listen answers _ enrolled empty

theorem move_of_serveClient (wellformed : world.Wellformed boot) {fd : Fd} {conn : ConnId}
    {index : Fin servers} {moved : Bool} (isClient : world.table fd = some (.client conn)) :
    Move world (.ready fd index moved) (world.serveClient fd conn index moved) := by
  have notListening := wellformed.ne_listenFdOuter isClient
  have notServer := wellformed.notMem_serverFdSet isClient
  have registered := wellformed.mem_interest isClient
  have work := wellformed.table_work index
  cases waiting : (world.conn conn).inbound with
  | cons request rest =>
      have size : request.length = normalLen :=
        wellformed.inbound conn request (by rw [waiting]; exact List.mem_cons_self)
      have readn : (world.conn conn).read =
          (.data request, { world.conn conn with inbound := rest }) := by
        simp [Conn.read, waiting]
      rcases @Distributor.requestBranch_whole _ _ _ world.thread fd
        (clientAnswers (.data request) index moved) _ rfl size with ⟨mess, _, served⟩
      simp only [serveClient, readn]
      rw [Distributor.loopBody_client notListening Distributor.readable_EPOLLIN notServer, served]
      cases moved with
      | true =>
          have forwarded := Move.forward fd conn index request rest mess isClient waiting
          simpa [clientAnswers, perform, write, work, took, isRequest, size] using forwarded
      | false =>
          have refused := Move.refuse fd conn index request rest mess isClient waiting
          simpa [clientAnswers, perform, write, work, isClient, took, isRequest, size,
            messLen] using refused
  | nil =>
      cases sending : (world.conn conn).sending with
      | going =>
          have readn : (world.conn conn).read = (.error .eagain, world.conn conn) := by
            simp [Conn.read, waiting, sending]
          simp only [serveClient, readn]
          rw [Distributor.loopBody_client notListening Distributor.readable_EPOLLIN notServer,
            Distributor.requestBranch_again rfl]
          have again := Move.again fd conn index moved isClient waiting sending
          simpa [perform, write, isClient, isRequest, setConn] using again
      | ended =>
          have readn : (world.conn conn).read = (.data [], world.conn conn) := by
            simp [Conn.read, waiting, sending]
          simp only [serveClient, readn]
          rw [Distributor.loopBody_client notListening Distributor.readable_EPOLLIN notServer,
            Distributor.requestBranch_eof rfl, Distributor.closeConnect_registered registered]
          have closed := Move.close fd conn index moved isClient waiting (by simp [sending])
          simpa [perform, close, isClient, isRequest, setConn, normalLen, hangUp] using closed
      | reset =>
          have readn : (world.conn conn).read = (.error .econnreset, world.conn conn) := by
            simp [Conn.read, waiting, sending]
          simp only [serveClient, readn]
          rw [Distributor.loopBody_client notListening Distributor.readable_EPOLLIN notServer,
            Distributor.requestBranch_error rfl (by decide),
            Distributor.closeConnect_registered registered]
          have closed := Move.close fd conn index moved isClient waiting (by simp [sending])
          simpa [perform, close, isClient, isRequest, setConn, hangUp] using closed

theorem move_of_serveServer (wellformed : world.Wellformed boot) {fd : Fd}
    {server index : Fin servers} {moved : Bool} (isWork : world.table fd = some (.work server))
    (served : world.serveServer fd server = some next) :
    Move world (.ready fd index moved) next := by
  have isServer : fd ∈ world.thread.serverFdSet := by
    rw [wellformed.serverFdSet, Boot.mem_initInnerMon]
    exact ⟨server, (wellformed.eq_work isWork).symm⟩
  have notListening : fd ≠ world.thread.listenFdOuter := by
    rintro rfl
    rw [wellformed.listenFdOuter, wellformed.fixed boot.table_listenFdOuter] at isWork
    cases isWork
  simp only [serveServer] at served
  split at served
  · cases served
  · rename_i packet rest waiting
    have framed := wellformed.packets server packet (by simp [Link.packets, waiting])
    have positive := Wellformed.positive_of_framed framed
    have size := Wellformed.length_of_framed framed
    rcases framed with ⟨request, _, image, unknown, _⟩
    rcases @Distributor.replyBranch_whole _ _ _ world.thread (serverAnswers packet.data server)
      packet.fd request (by rw [← image]; rfl) (image ▸ size) positive with ⟨mess, _, replied⟩
    rw [Distributor.loopBody_server notListening Distributor.readable_EPOLLIN isServer,
      replied] at served
    simp only [List.filterMap_cons, List.filterMap_nil, recordReply, List.foldl_cons,
      List.foldl_nil, perform, Option.some.injEq] at served
    have onlyClient : ∀ obj, (world.settle server packet rest mess).table packet.fd = some obj →
        ∃ conn, obj = .client conn := fun obj found => wellformed.others unknown found
    have written := write_eq_deliver packet.serial false correctRes onlyClient
    have reply := Move.reply fd server index moved packet rest mess isWork waiting
    rw [← served]
    exact written ▸ reply

theorem move_of_serverRead (wellformed : world.Wellformed boot) {server : Fin servers}
    (served : world.serverRead server = some next) : Move world (.serverRead server) next := by
  simp only [serverRead] at served
  split at served
  · rename_i packet rest free waiting
    have size := Wellformed.length_of_framed
      (wellformed.packets server packet (by simp [Link.packets, waiting]))
    rw [InnerServer.loopBody_whole _ size] at served
    simp only [InnerServer.echoes, List.filterMap_cons, List.filterMap_nil, List.head?_cons,
      Option.map_some, Option.some.injEq] at served
    rw [← served]
    exact .serverRead server packet rest _ free waiting
  · cases served

theorem move_of_serverWrite {server : Fin servers}
    (served : world.serverWrite server = some next) : Move world (.serverWrite server) next := by
  simp only [serverWrite] at served
  split at served
  · cases served
  · rename_i packet holding
    cases served
    exact .serverWrite server packet holding

/-- A step out of a well-formed state is one of the moves. -/
theorem move_of_step (wellformed : world.Wellformed boot) {event : Event servers}
    (stepped : world.step event = some next) : Move world event next := by
  simp only [step] at stepped
  split at stepped
  · cases stepped
  · cases event with
    | connect conn =>
        simp only at stepped
        split at stepped
        · rename_i unborn
          cases stepped
          exact .connect conn unborn
        · cases stepped
    | send conn request =>
        rcases clientStep_eq_some stepped with ⟨alive, ⟨going, size⟩, rfl⟩
        exact .client conn _ (.send request alive going size)
    | shutdown conn =>
        rcases clientStep_eq_some stepped with ⟨alive, going, rfl⟩
        exact .client conn _ (.shutdown alive going)
    | reset conn =>
        rcases clientStep_eq_some stepped with ⟨alive, _, rfl⟩
        exact .client conn _ (.reset alive)
    | receive conn =>
        simp only at stepped
        split at stepped
        · rename_i unread
          rcases clientStep_eq_some stepped with ⟨alive, _, rfl⟩
          exact .client conn _ (.receive alive unread)
        · rename_i allRead
          rcases clientStep_eq_some stepped with ⟨_, closed, rfl⟩
          exact .client conn _ (.receiveEof closed (not_lt.mp allRead))
    | listen answers => exact move_of_serveListen stepped
    | ready fd index moved =>
        simp only at stepped
        split at stepped
        · rename_i conn isClient
          cases stepped
          exact move_of_serveClient wellformed isClient
        · rename_i server isWork
          exact move_of_serveServer wellformed isWork stepped
        · cases stepped
    | serverRead server => exact move_of_serverRead wellformed stepped
    | serverWrite server => exact move_of_serverWrite stepped

end World

end LoadBalance.Relay
