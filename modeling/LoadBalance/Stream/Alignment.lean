import LoadBalance.Stream.Payload

/-!
# Replies which are read from their first byte on

How many bytes a `read` or a `write` moves does not depend on the bytes. So the counts alone
tell for every byte on a connection to an inner server in which message it stands and at
which offset, and the connections can be followed over these places instead of bytes.

If every `read` of a reply starts at the first byte of a message and takes at least the
four bytes of its descriptor, the requests do not steer the replies. A `read` which puts a
byte of a request into the descriptor instead shows that they do.
-/

namespace LoadBalance.Stream.Steering

open Distributor (Thread Answers Call loopBody requestBranch)
open Relay (Boot)

variable {servers : ℕ}

/-- An event without the bytes of a request. -/
def Event.shape {α : Type*} (event : Event servers α) : Event servers Unit :=
  event.map fun _ => ()

/-- A byte of the message which is forwarded for a client. -/
structure Place where
  client : Fd
  offset : ℕ
deriving DecidableEq

/-- The places of a whole message. -/
def messagePlaces (client : Fd) : List Place := (List.range messLen).map (Place.mk client)

/-- A connection to an inner server by the places of its bytes. -/
structure Places where
  toServer : List Place
  echo : List Place
  fromServer : List Place

/-- The connections to the inner servers by the places of their bytes. -/
abbrev Layout (servers : ℕ) := Fin servers → Places

namespace Layout

def start : Layout servers := fun _ => ⟨[], [], []⟩

/-- What an event does to the connections, as far as its counts tell. -/
def step (boot : Boot servers) (layout : Layout servers) :
    Event servers Unit → Option (Layout servers)
  | .pass fd answers =>
      match answers.readn with
      | .data request =>
          let places := layout answers.index
          if fd ≠ boot.listenFdOuter ∧ request.length = normalLen then
            some (Function.update layout answers.index { places with
              toServer := places.toServer ++ (messagePlaces fd).take answers.writen.toNat })
          else some layout
      | .error _ => some layout
  | .reply server count _ =>
      let places := layout server
      some (Function.update layout server { places with
        fromServer := places.fromServer.drop count })
  | .serverRead server count =>
      let places := layout server
      some (Function.update layout server { places with
        toServer := places.toServer.drop count
        echo := if count = messLen then places.toServer.take count else [] })
  | .serverWrite server count =>
      let places := layout server
      some (Function.update layout server { places with
        echo := []
        fromServer := places.fromServer ++ places.echo.take count })

/-- A reply is read from the first byte of a message on, and at least its descriptor. No
descriptor of a client is negative. -/
def ReadsDescriptor (layout : Layout servers) : Event servers Unit → Prop
  | .reply server count _ =>
      fdLen ≤ count ∧ ∃ place ∈ (layout server).fromServer,
        (layout server).fromServer.take fdLen = (messagePlaces place.client).take fdLen
  | .pass fd _ => 0 ≤ fd.toInt
  | .serverRead _ _ | .serverWrite _ _ => True

instance (layout : Layout servers) (event : Event servers Unit) :
    Decidable (layout.ReadsDescriptor event) :=
  match event with
  | .reply _ _ _ => inferInstanceAs (Decidable (_ ∧ ∃ place ∈ _, _))
  | .pass _ _ => inferInstanceAs (Decidable (_ ≤ _))
  | .serverRead _ _ | .serverWrite _ _ => instDecidableTrue

/-- A `read` of a reply puts a byte of a request where the descriptor stands in `mess`. -/
def ReadsPayload (layout : Layout servers) (server : Fin servers) (count : ℕ) : Prop :=
  ∃ place ∈ (layout server).fromServer.take (min count fdLen), fdLen ≤ place.offset

instance (layout : Layout servers) (server : Fin servers) (count : ℕ) :
    Decidable (layout.ReadsPayload server count) := inferInstanceAs (Decidable (∃ place ∈ _, _))

section Pass

variable {boot : Boot servers} {layout : Layout servers} {fd : Fd} {α : Type*}
  {answers : Answers servers α}

theorem step_pass_whole (notListening : fd ≠ boot.listenFdOuter) {request : List α}
    (received : answers.readn = .data request) (whole : request.length = normalLen) :
    layout.step boot (Event.pass fd answers).shape =
      some (Function.update layout answers.index { layout answers.index with
        toServer := (layout answers.index).toServer ++
          (messagePlaces fd).take answers.writen.toNat }) := by
  simp only [step, Event.shape, Event.map, received, ReadResult.map, List.length_map]
  rw [if_pos ⟨notListening, whole⟩]

theorem step_pass_other (nothing : fd = boot.listenFdOuter ∨
    ∀ request, answers.readn = .data request → request.length ≠ normalLen) :
    layout.step boot (Event.pass fd answers).shape = some layout := by
  cases received : answers.readn with
  | error errno => simp only [step, Event.shape, Event.map, received, ReadResult.map]
  | data request =>
      simp only [step, Event.shape, Event.map, received, ReadResult.map, List.length_map]
      rw [if_neg]
      rintro ⟨notListening, whole⟩
      exact nothing.resolve_left notListening request received whole

end Pass

end Layout

section Places

variable {boot : Boot servers} {client : Fd} {place : Place} {places : List Place}
  {cells : List Marked}

/-- The cell which stands at a place: a byte of the descriptor, or one of the request. -/
def At (boot : Boot servers) (place : Place) (cell : Marked) : Prop :=
  boot.table place.client = none ∧ 0 < place.client.toInt ∧
    if place.offset < fdLen then (fdBytes place.client)[place.offset]? = some cell
    else cell.payload = true

theorem exists_at_of_mem (standing : List.Forall₂ (At boot) places cells)
    (placeMem : place ∈ places) : ∃ cell ∈ cells, At boot place cell := by
  induction standing with
  | nil => cases placeMem
  | cons head _ ih =>
      rcases List.mem_cons.mp placeMem with rfl | later
      · exact ⟨_, List.mem_cons_self, head⟩
      · rcases ih later with ⟨cell, cellMem, here⟩
        exact ⟨cell, List.mem_cons_of_mem _ cellMem, here⟩

/-- The descriptor of a client, which the system has returned and which is none of the start. -/
theorem positive_of_table (unknown : boot.table client = none) (returned : 0 ≤ client.toInt) :
    0 < client.toInt := by
  refine lt_of_le_of_ne returned fun zero => ?_
  have standard : client = 0 := BitVec.eq_of_toInt_eq zero.symm
  rw [standard] at unknown
  cases unknown

theorem at_message (unknown : boot.table client = none) (positive : 0 < client.toInt)
    {request : List Marked} (marked : ∀ cell ∈ request, cell.payload = true)
    (whole : request.length = normalLen) :
    List.Forall₂ (At boot) (messagePlaces client) (fdBytes client ++ request) := by
  have size : (fdBytes client : List Marked).length = fdLen := length_fdBytes client
  have both : fdLen + normalLen = messLen := rfl
  refine List.forall₂_iff_get.mpr ⟨by simp [messagePlaces, size, whole, both], ?_⟩
  intro offset inside inside'
  have isPlace : (messagePlaces client).get ⟨offset, inside⟩ = ⟨client, offset⟩ := by
    simp [messagePlaces]
  rw [isPlace]
  refine ⟨unknown, positive, ?_⟩
  by_cases inFd : offset < fdLen
  · rw [if_pos inFd, List.get_eq_getElem, List.getElem_append_left (size.symm ▸ inFd)]
    exact List.getElem?_eq_getElem _
  · rw [if_neg inFd, List.get_eq_getElem, List.getElem_append_right (size.symm ▸ not_lt.mp inFd)]
    exact marked _ (List.getElem_mem _)

/-- The first four bytes of a message are its descriptor. -/
theorem eq_fdBytes_of_at
    (standing : List.Forall₂ (At boot) ((messagePlaces client).take fdLen) cells) :
    cells = fdBytes client := by
  have size : (fdBytes client : List Marked).length = fdLen := length_fdBytes client
  have length : cells.length = fdLen := by
    rw [← standing.length_eq]
    rfl
  refine List.ext_getElem (length.trans size.symm) fun offset inside inside' => ?_
  have inFd : offset < fdLen := length ▸ inside
  have inPlaces : offset < ((messagePlaces client).take fdLen).length := by
    rw [standing.length_eq]
    exact inside
  have here := (List.forall₂_iff_get.mp standing).2 offset inPlaces inside
  have isPlace : ((messagePlaces client).take fdLen).get ⟨offset, inPlaces⟩ =
      ⟨client, offset⟩ := by
    simp [messagePlaces]
  rw [isPlace] at here
  have same := here.2.2
  rw [if_pos inFd, List.getElem?_eq_getElem inside', Option.some.injEq] at same
  exact same.symm

end Places

section Calls

variable {boot : Boot servers} {streams : Streams servers Marked} {moved : ℕ}

theorem foldl_perform_line {calls : List (Call Marked)}
    (quiet : ∀ fd data, .write fd data ∈ calls → boot.table fd = none) :
    (calls.foldl (Streams.perform boot moved) streams).line = streams.line := by
  induction calls generalizing streams with
  | nil => rfl
  | cons call calls ih =>
      rw [List.foldl_cons, ih fun fd data callMem => quiet fd data (List.mem_cons_of_mem _ callMem)]
      cases call with
      | close fd => rfl
      | write fd data => simp [Streams.perform, quiet fd data List.mem_cons_self]

/-- Calls which write to no inner server leave the connections as they are. -/
theorem enter_line {result : Except Halt (Thread servers Marked × List (Call Marked))}
    (quiet : ∀ thread calls, result = .ok (thread, calls) → ∀ fd data, .write fd data ∈ calls →
      boot.table fd = none) : (streams.enter boot moved result).line = streams.line := by
  cases result with
  | error halt => rfl
  | ok value => exact foldl_perform_line (quiet value.1 value.2 rfl)

/-- Without a whole request a client is answered itself, or closed. -/
theorem eq_of_write_mem_requestBranch {thread next : Thread servers Marked} {fd other : Fd}
    {answers : Answers servers Marked} {calls : List (Call Marked)} {data : List Marked}
    (nothing : ∀ buf, answers.readn = .data buf → buf.length ≠ normalLen)
    (served : requestBranch thread fd answers = .ok (next, calls))
    (callMem : .write other data ∈ calls) : other = fd := by
  have answered : ∀ {result : Thread servers Marked × List (Call Marked)},
      result = (thread, [.write fd errRes]) → result = (next, calls) → other = fd := by
    rintro _ rfl ⟨⟩
    simp only [List.mem_singleton, Call.write.injEq] at callMem
    exact callMem.1
  cases received : answers.readn with
  | error errno =>
      by_cases again : errno = .eagain
      · subst again
        rw [Distributor.requestBranch_again received, Except.ok.injEq] at served
        exact answered rfl served
      · rw [Distributor.requestBranch_error received again] at served
        exact absurd callMem (Distributor.closeConnect_writes served)
  | data buf =>
      by_cases ended : buf = []
      · subst ended
        rw [Distributor.requestBranch_eof received] at served
        exact absurd callMem (Distributor.closeConnect_writes served)
      · rw [Distributor.requestBranch_short received ended (nothing buf received),
          Except.ok.injEq] at served
        exact answered rfl served

/-- A reply goes to the descriptor which is in `mess` after the `read`. -/
theorem eq_of_write_mem_replyBranch {thread next : Thread servers Marked}
    {answers : Answers servers Marked} {bytes data : List Marked} {calls : List (Call Marked)}
    {other : Fd} (received : answers.readn = .data bytes)
    (served : Distributor.replyBranch thread answers = .ok (next, calls))
    (callMem : .write other data ∈ calls) : other = (thread.mess.store 0 bytes).fd := by
  simp only [Distributor.replyBranch, received] at served
  split at served
  · cases served
  · split at served
    · cases served
      simp only [List.mem_singleton, Call.write.injEq] at callMem
      exact callMem.1
    · cases served

end Calls

section Steps

variable {boot : Boot servers} {garbage : Fin servers → Message Byte}
  {layout after : Layout servers} {streams next : Streams servers Marked} {server : Fin servers}
  {count moved : ℕ}

structure LineAt (boot : Boot servers) (places : Places) (line : Line Marked) : Prop where
  toServer : List.Forall₂ (At boot) places.toServer line.toServer
  echo : List.Forall₂ (At boot) places.echo line.echo
  fromServer : List.Forall₂ (At boot) places.fromServer line.fromServer

/-- The connections of a marked run are those of the layout. -/
structure Follows (boot : Boot servers) (layout : Layout servers)
    (streams : Streams servers Marked) : Prop where
  booted : streams.Booted boot
  line : ∀ server, LineAt boot (layout server) (streams.line server)

theorem follows_start : Follows boot Layout.start (Streams.start boot garbage) where
  booted := Streams.booted_start boot garbage
  line _ := ⟨.nil, .nil, .nil⟩

theorem Follows.line_update (follows : Follows boot layout streams) {places : Places}
    {line : Line Marked} (standing : LineAt boot places line) (other : Fin servers) :
    LineAt boot (Function.update layout server places other)
      (Function.update streams.line server line other) := by
  by_cases same : other = server
  · subst same
    simpa using standing
  · simpa [same] using follows.line other

/-- After the `read` of a reply, `mess.fd` begins with the bytes which it has moved. -/
theorem fdCells_readReply (streams : Streams servers Marked) (server : Fin servers) (count : ℕ) :
    Streams.fdCells (streams.readReply server count) =
      ((streams.line server).fromServer.take count ++ streams.thread.mess.bytes.drop
        ((streams.line server).fromServer.take count).length).take fdLen := by
  have inside : fdLen ≤ messLen := by decide
  simp only [Streams.fdCells, Streams.readReply, Message.bytes_store, List.take_zero,
    List.nil_append, Nat.zero_add, List.take_take, min_eq_left inside]

/-- The descriptor which a permitted reply takes out of the stream is a client's. -/
theorem Follows.readReply (follows : Follows boot layout streams)
    (permitted : layout.ReadsDescriptor (.reply server count moved)) :
    ∃ client, boot.table client = none ∧ 0 < client.toInt ∧
      Streams.fdCells (streams.readReply server count) = fdBytes client ∧
        (streams.readReply server count).fd = client := by
  rcases permitted with ⟨enough, place, placeMem, first⟩
  have cells := (follows.line server).fromServer
  have descriptor : (streams.line server).fromServer.take fdLen = fdBytes place.client := by
    apply eq_fdBytes_of_at
    rw [← first]
    exact List.forall₂_take fdLen cells
  have read : ((streams.line server).fromServer.take count).take fdLen = fdBytes place.client := by
    rw [List.take_take, min_eq_left enough, descriptor]
  have size : fdLen ≤ ((streams.line server).fromServer.take count).length := by
    have length := congrArg List.length read
    rw [List.length_take, length_fdBytes] at length
    omega
  rcases exists_at_of_mem cells placeMem with ⟨_, _, unknown, positive, _⟩
  have fdCells : Streams.fdCells (streams.readReply server count) = fdBytes place.client := by
    rw [fdCells_readReply, List.take_append_of_le_length size, read]
  have image : (streams.readReply server count).bytes =
      fdBytes place.client ++ (streams.readReply server count).bytes.drop fdLen := by
    rw [← fdCells, Streams.fdCells, List.take_append_drop]
  exact ⟨place.client, unknown, positive, fdCells, Message.fd_eq_of_bytes image⟩

theorem Follows.namesOwn (follows : Follows boot layout streams)
    (permitted : layout.ReadsDescriptor (.reply server count moved)) :
    streams.NamesOwn (.reply server count moved) := by
  rcases follows.readReply permitted with ⟨client, _, positive, cells, named⟩
  refine ⟨?_, named.symm ▸ positive⟩
  rw [cells]
  intro cell cellMem
  rcases List.mem_map.mp cellMem with ⟨byte, _, rfl⟩
  rfl

theorem Follows.not_namesOwn (follows : Follows boot layout streams)
    (payload : layout.ReadsPayload server count) :
    ¬streams.NamesOwn (.reply server count moved) := by
  rintro ⟨unmarked, _⟩
  rcases payload with ⟨place, placeMem, inRequest⟩
  have read := List.forall₂_take (min count fdLen) (follows.line server).fromServer
  rcases exists_at_of_mem read placeMem with ⟨cell, cellMem, _, _, standing⟩
  rw [if_neg (not_lt.mpr inRequest)] at standing
  have inFd : cell ∈ Streams.fdCells (streams.readReply server count) := by
    rw [fdCells_readReply, List.take_append, List.take_take, min_comm]
    exact List.mem_append_left _ cellMem
  rw [unmarked cell inFd] at standing
  cases standing

/-- Every byte of a request carries the mark. -/
def Event.MarksRequest : Event servers Marked → Prop
  | .pass _ answers => ∀ request, answers.readn = .data request → ∀ cell ∈ request, cell.payload
  | .reply _ _ _ | .serverRead _ _ | .serverWrite _ _ => True

theorem marksRequest_mark (event : Event servers Byte) : event.mark.MarksRequest := by
  cases event with
  | pass fd answers =>
      intro request received cell cellMem
      cases readn : answers.readn with
      | error errno => simp [readn, ReadResult.map] at received
      | data bytes =>
          simp only [readn, ReadResult.map, ReadResult.data.injEq] at received
          subst received
          rcases List.mem_map.mp cellMem with ⟨byte, _, rfl⟩
          rfl
  | reply server count moved => trivial
  | serverRead server count => trivial
  | serverWrite server count => trivial

/-- A request which is read whole is forwarded, as far as the `write` takes it. -/
theorem Follows.forward (follows : Follows boot layout streams) {fd : Fd}
    {answers : Answers servers Marked} (unknown : boot.table fd = none) (returned : 0 ≤ fd.toInt)
    {buf : List Marked} (received : answers.readn = .data buf) (whole : buf.length = normalLen)
    (marked : ∀ cell ∈ buf, cell.payload = true) :
    Follows boot (Function.update layout answers.index { layout answers.index with
        toServer := (layout answers.index).toServer ++
          (messagePlaces fd).take answers.writen.toNat })
      (streams.enter boot answers.writen.toNat (requestBranch streams.thread fd answers)) := by
  refine ⟨follows.booted.enter _ fun _ _ => Distributor.requestBranch_tables, fun other => ?_⟩
  have standing := follows.line answers.index
  have message := at_message unknown (positive_of_table unknown returned) marked whole
  rw [follows.booted.enter_request unknown received whole]
  refine follows.line_update ?_ other
  exact ⟨List.rel_append standing.toServer (List.forall₂_take _ message), standing.echo,
    standing.fromServer⟩

theorem Follows.pass (follows : Follows boot layout streams) {fd : Fd}
    {answers : Answers servers Marked} (marks : (Event.pass fd answers).MarksRequest)
    (returned : 0 ≤ fd.toInt) (known : fd = boot.listenFdOuter ∨ boot.table fd = none)
    (placed : layout.step boot (Event.pass fd answers).shape = some after) :
    Follows boot after
      (streams.enter boot answers.writen.toNat (loopBody streams.thread fd EPOLLIN answers)) := by
  have booted : (streams.enter boot answers.writen.toNat
      (loopBody streams.thread fd EPOLLIN answers)).Booted boot :=
    follows.booted.enter _ fun _ _ => Distributor.loopBody_tables
  by_cases listening : fd = boot.listenFdOuter
  · rw [Layout.step_pass_other (.inl listening), Option.some.injEq] at placed
    refine ⟨booted, fun server => ?_⟩
    rw [← placed, enter_line]
    · exact follows.line server
    · -- nothing is written when connections are accepted
      intro thread calls served other data callMem
      rw [loopBody, if_pos (listening.trans follows.booted.listenFdOuter.symm)] at served
      split at served
      · cases served
      · cases served
        cases callMem
  · have unknown := known.resolve_left listening
    have branch : loopBody streams.thread fd EPOLLIN answers =
        requestBranch streams.thread fd answers :=
      Distributor.loopBody_client (follows.booted.listenFdOuter.symm ▸ listening)
        Distributor.readable_EPOLLIN (follows.booted.notMem_serverFdSet unknown)
    by_cases request : ∃ buf, answers.readn = .data buf ∧ buf.length = normalLen
    · rcases request with ⟨buf, received, whole⟩
      rw [Layout.step_pass_whole listening received whole, Option.some.injEq] at placed
      rw [← placed, branch]
      exact follows.forward unknown returned received whole (marks buf received)
    · have nothing : ∀ buf, answers.readn = .data buf → buf.length ≠ normalLen :=
        fun buf received whole => request ⟨buf, received, whole⟩
      rw [Layout.step_pass_other (.inr nothing), Option.some.injEq] at placed
      refine ⟨booted, fun server => ?_⟩
      rw [← placed, enter_line]
      · exact follows.line server
      · intro thread calls served other data callMem
        rw [branch] at served
        rw [eq_of_write_mem_requestBranch nothing served callMem]
        exact unknown

theorem Follows.reply (follows : Follows boot layout streams)
    (permitted : layout.ReadsDescriptor (.reply server count moved))
    (stepped : streams.step boot (.reply server count moved) = some next) :
    Follows boot (Function.update layout server { layout server with
      fromServer := (layout server).fromServer.drop count }) next := by
  rcases follows.readReply permitted with ⟨client, unknown, _, _, named⟩
  refine ⟨follows.booted.step stepped, fun other => ?_⟩
  simp only [Streams.step] at stepped
  split at stepped
  · cases stepped
  · split at stepped
    · cases stepped
      rw [enter_line]
      · have standing := follows.line server
        refine follows.line_update ?_ other
        exact ⟨standing.toServer, standing.echo, List.forall₂_drop count standing.fromServer⟩
      · intro thread calls served fd data callMem
        rw [follows.booted.loopBody_work server] at served
        rw [eq_of_write_mem_replyBranch rfl served callMem]
        exact named.symm ▸ unknown
    · cases stepped

/-- A permitted step keeps the layout, and its reply is sent to a descriptor of its own. -/
theorem Follows.step {event : Event servers Marked} (follows : Follows boot layout streams)
    (marks : event.MarksRequest) (permitted : layout.ReadsDescriptor event.shape)
    (placed : layout.step boot event.shape = some after)
    (stepped : streams.step boot event = some next) :
    streams.NamesOwn event ∧ Follows boot after next := by
  cases event with
  | pass fd answers =>
      refine ⟨trivial, ?_⟩
      simp only [Streams.step] at stepped
      split at stepped
      · cases stepped
      · split at stepped
        · rename_i possible
          cases stepped
          exact follows.pass marks permitted possible.1 placed
        · cases stepped
  | reply server count moved =>
      refine ⟨follows.namesOwn permitted, ?_⟩
      cases placed
      exact follows.reply permitted stepped
  | serverRead server count =>
      refine ⟨trivial, follows.booted.step stepped, fun other => ?_⟩
      cases placed
      simp only [Streams.step] at stepped
      split at stepped
      · cases stepped
      · rcases Option.map_eq_some_iff.mp stepped with ⟨line, served, rfl⟩
        rcases Line.serve_eq_some served with ⟨_, _, _, _, rfl⟩
        have standing := follows.line server
        refine follows.line_update ?_ other
        refine ⟨List.forall₂_drop count standing.toServer, ?_, standing.fromServer⟩
        by_cases whole : count = messLen
        · simpa only [if_pos whole] using List.forall₂_take count standing.toServer
        · simp only [if_neg whole, List.Forall₂.nil]
  | serverWrite server count =>
      refine ⟨trivial, follows.booted.step stepped, fun other => ?_⟩
      cases placed
      simp only [Streams.step] at stepped
      split at stepped
      · cases stepped
      · split at stepped
        · cases stepped
          have standing := follows.line server
          refine follows.line_update ?_ other
          exact ⟨standing.toServer, .nil,
            List.rel_append standing.fromServer (List.forall₂_take count standing.echo)⟩
        · cases stepped

end Steps

section Runs

variable {boot : Boot servers} {garbage : Fin servers → Message Byte}
  {layout final : Layout servers} {events : List (Event servers Byte)}

theorem shape_mark (event : Event servers Byte) : event.mark.shape = event.shape := by
  cases event with
  | pass fd answers =>
      cases readn : answers.readn with
      | data bytes => simp [Event.mark, Event.shape, Event.map, readn, ReadResult.map,
          Function.comp_def]
      | error errno => simp [Event.mark, Event.shape, Event.map, readn, ReadResult.map]
  | reply server count moved => rfl
  | serverRead server count => rfl
  | serverWrite server count => rfl

theorem readRelated_iff {read read' : ReadResult Byte} :
    ReadRelated (fun _ _ => True) read read' ↔
      read.map (fun _ => ()) = read'.map fun _ => () := by
  constructor
  · intro related
    cases related with
    | data cells => simp [ReadResult.map, cells.length_eq]
    | error errno => rfl
  · intro same
    cases read with
    | data bytes =>
        cases read' with
        | data bytes' =>
            simp only [ReadResult.map, ReadResult.data.injEq] at same
            have length : bytes.length = bytes'.length := by
              simpa using congrArg List.length same
            exact .data (List.forall₂_iff_get.mpr ⟨length, fun _ _ _ => trivial⟩)
        | error errno => cases same
    | error errno =>
        cases read' with
        | data bytes' => cases same
        | error errno' =>
            cases same
            exact .error errno

/-- The shape of an event is all but the bytes of a request. -/
theorem sameShape_iff {event event' : Event servers Byte} :
    SameShape event event' ↔ event.shape = event'.shape := by
  constructor
  · intro same
    cases same with
    | @pass fd answers answers' answered =>
        simp only [Event.shape, Event.map, answered.accepted, answered.acceptErrno,
          readRelated_iff.mp answered.readn, answered.index, answered.writen]
    | reply server count moved => rfl
    | serverRead server count => rfl
    | serverWrite server count => rfl
  · intro same
    cases event with
    | pass fd answers =>
        cases event' with
        | pass fd' answers' =>
            simp only [Event.shape, Event.map, Event.pass.injEq, Answers.mk.injEq] at same
            rcases same with ⟨rfl, accepted, acceptErrno, readn, index, writen⟩
            exact .pass fd ⟨accepted, acceptErrno, readRelated_iff.mpr readn, index, writen⟩
        | _ => cases same
    | reply server count moved =>
        cases event' with
        | reply _ _ _ =>
            cases same
            exact .reply server count moved
        | _ => cases same
    | serverRead server count =>
        cases event' with
        | serverRead _ _ =>
            cases same
            exact .serverRead server count
        | _ => cases same
    | serverWrite server count =>
        cases event' with
        | serverWrite _ _ =>
            cases same
            exact .serverWrite server count
        | _ => cases same

theorem forall₂_sameShape_iff {other : List (Event servers Byte)} :
    List.Forall₂ SameShape events other ↔ events.map Event.shape = other.map Event.shape := by
  rw [← List.forall₂_eq_eq_eq, List.forall₂_map_left_iff, List.forall₂_map_right_iff]
  constructor
  · exact fun same => same.imp fun _ _ => sameShape_iff.mp
  · exact fun same => same.imp fun _ _ => sameShape_iff.mpr

theorem Follows.run {streams last : Streams servers Marked} (follows : Follows boot layout streams)
    (guarded : Machine.RunsUnder (Layout.step boot) Layout.ReadsDescriptor layout
      (events.map Event.shape) final)
    (ran : Machine.run (Streams.step boot) streams (events.map Event.mark) = some last) :
    Machine.RunsUnder (Streams.step boot) Streams.NamesOwn streams (events.map Event.mark) last ∧
      Follows boot final last := by
  induction events generalizing layout streams with
  | nil =>
      cases guarded
      cases ran
      exact ⟨.nil _, follows⟩
  | cons event events ih =>
      rcases Machine.run_cons_eq_some.mp ran with ⟨next, stepped, rest⟩
      cases guarded with
      | cons permitted placed later =>
          rw [← shape_mark] at permitted placed
          rcases follows.step (marksRequest_mark event) permitted placed stepped with
            ⟨own, followsNext⟩
          rcases ih followsNext later rest with ⟨guardedRest, followsLast⟩
          exact ⟨.cons own stepped guardedRest, followsLast⟩

/--
In every run in which every reply is read from the first byte of a message on, and at least
its descriptor, the requests do not steer the replies. After such a run, a `read` which puts
a byte of a request into the descriptor of a reply shows that they do.
-/
theorem steered_of_readsDescriptor {events : List (Event servers Byte)}
    (guarded : Machine.RunsUnder (Layout.step boot) Layout.ReadsDescriptor Layout.start
      (events.map Event.shape) layout) :
    Streams.Steered boot garbage events ∧
      ∀ server count moved final next,
        Machine.run (Streams.step boot) (Streams.start boot garbage) events = some final →
          final.step boot (.reply server count moved) = some next →
            layout.ReadsPayload server count →
              ¬Streams.Steered boot garbage (events ++ [.reply server count moved]) := by
  constructor
  · rintro before ⟨rest, rfl⟩ first second firstShape secondShape final final' ran ran'
    rw [List.map_append] at guarded
    rcases guarded.of_append with ⟨middle, guardedBefore, _⟩
    rw [forall₂_sameShape_iff] at firstShape secondShape
    rw [firstShape] at guardedBefore
    rcases Streams.exists_marked_run ran with ⟨marked, ranMarked⟩
    have own := (follows_start.run guardedBefore ranMarked).1
    have shapes := firstShape.symm.trans secondShape
    exact Streams.steered_of_namesOwn own first (List.prefix_refl _) first second
      (forall₂_sameShape_iff.mpr rfl) (forall₂_sameShape_iff.mpr shapes) final final' ran ran'
  · intro server count moved final next ran stepped payload
    rcases Streams.exists_marked_run (Machine.run_concat_eq_some.mpr ⟨final, ran, stepped⟩) with
      ⟨last, ranMarked⟩
    rw [List.map_append, List.map_singleton] at ranMarked
    rcases Machine.run_concat_eq_some.mp ranMarked with ⟨middle, ranBefore, steppedMarked⟩
    rcases follows_start.run guarded ranBefore with ⟨own, follows⟩
    exact Streams.not_steered_of_violation own follows.booted (follows.not_namesOwn payload)
      steppedMarked

/-- Two clients send a request each, and the first 12 bytes of the second reply are read. -/
def twoClients : List (Event 1 Byte) :=
  let request (fd : Fd) (byte : Byte) : Event 1 Byte :=
    .pass fd ⟨[], .eagain, .data (byte :: List.replicate (normalLen - 1) 7), Boot.server, messLen⟩
  [.pass 6 ⟨[(8, 0, 0), (9, 0, 0)], .eagain, .error .eagain, Boot.server, messLen⟩,
    request 8 1, request 9 2, .serverRead Boot.server messLen, .serverWrite Boot.server messLen,
    .serverRead Boot.server messLen, .serverWrite Boot.server messLen,
    .reply Boot.server messLen normalLen, .reply Boot.server 12 normalLen]

/-- The rest of the second reply starts within the request. -/
theorem steered_of_readsDescriptor_twoClients :
    (∃ layout, Machine.RunsUnder (Layout.step Boot.single) Layout.ReadsDescriptor Layout.start
        (twoClients.map Event.shape) layout) ∧
      (∃ final, Machine.run (Streams.step Boot.single) (Streams.start Boot.single fun _ => .zero)
        twoClients = some final ∧ final.written = [4, 4, 8, 9] ∧ final.halted = none) ∧
      Streams.Steered Boot.single (fun _ => .zero) twoClients ∧
      ¬Streams.Steered Boot.single (fun _ => .zero)
        (twoClients ++ [.reply Boot.server 8 normalLen]) := by
  rcases Machine.RunsUnder.exists_of_any (twoClients.map Event.shape)
    (show (Machine.run (Machine.RunsUnder.guarded (Layout.step Boot.single)
      Layout.ReadsDescriptor) Layout.start (twoClients.map Event.shape)).any
        (fun layout => layout.ReadsPayload Boot.server 8) = true by decide +kernel) with
    ⟨layout, guarded, payload⟩
  rcases Machine.exists_run_of_any
    (show (Machine.run (Streams.step Boot.single) (Streams.start Boot.single fun _ => .zero)
      twoClients).any (fun final => final.written = [4, 4, 8, 9] ∧ final.halted = none ∧
        (final.step Boot.single (.reply Boot.server 8 normalLen)).isSome) = true by
          decide +kernel) with ⟨final, ran, shown⟩
  rcases of_decide_eq_true shown with ⟨written, running, possible⟩
  rcases Option.isSome_iff_exists.mp possible with ⟨next, stepped⟩
  have steered := @steered_of_readsDescriptor _ _ (fun _ => .zero) _ _ guarded
  refine ⟨⟨layout, guarded⟩, ⟨final, ran, written, running⟩, steered.1, ?_⟩
  exact steered.2 _ _ _ final next ran stepped (of_decide_eq_true payload)

end Runs

end LoadBalance.Stream.Steering
