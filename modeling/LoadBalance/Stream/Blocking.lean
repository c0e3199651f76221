import LoadBalance.Lib.Family
import LoadBalance.Relay.Start
import LoadBalance.Stream.Line

/-!
# Blocking writes

The bytes between the distributor and the inner servers, with socket buffers of finite
capacity. Both ends write on blocking sockets: a `write` which finds the buffer full waits
inside the call, the distributor's in the middle of a pass, so that it does not come back
to reading replies.
-/

namespace LoadBalance.Stream.Blocking

open Distributor (Thread Answers Call loopBody)
open Relay (Boot Obj)

/-- The capacities of the two buffers of each connection, in bytes. -/
structure Capacity (servers : ℕ) where
  toServer : Fin servers → ℕ
  fromServer : Fin servers → ℕ
  whole : ∀ server, messLen ≤ toServer server ∧ messLen ≤ fromServer server

structure Wires (servers : ℕ) where
  thread : Thread servers Byte
  /-- The inner server to which the distributor is writing, and what its `write` has still
  to move. -/
  writing : Option (Fin servers × List Byte)
  line : Fin servers → Line Byte
  halted : Option Halt

inductive Event (servers : ℕ) where
  /-- The listening socket or a client is handed to the loop. -/
  | pass (fd : Fd) (answers : Answers servers Byte)
  /-- An inner server's socket is handed to the loop, and its `read` moves `count` bytes. -/
  | reply (server : Fin servers) (count : ℕ)
  /-- The distributor's `write` moves `count` bytes. -/
  | push (count : ℕ)
  | serverRead (server : Fin servers) (count : ℕ)
  | serverPush (server : Fin servers) (count : ℕ)

variable {servers : ℕ}

/-- The start of both programs; the variable `mess` of a server holds anything. -/
def start (boot : Boot servers) (garbage : Fin servers → Message Byte) : Wires servers where
  thread := boot.thread Byte
  writing := none
  line server := { toServer := [], mess := garbage server, echo := [], fromServer := [] }
  halted := none

/-- A call which writes to an inner server. All others return at once. -/
def blockingWrite (boot : Boot servers) : Call Byte → Option (Fin servers × List Byte)
  | .write fd data =>
      match boot.table fd with
      | some (.work server) => some (server, data)
      | _ => none
  | .close _ => none

/-- A `write` to an inner server returns only when it has moved everything. A client's
`read` moves at most `normalLen` bytes. -/
def Possible (answers : Answers servers Byte) : Prop :=
  answers.writen = messLen ∧ ∀ bytes, answers.readn = .data bytes → bytes.length ≤ normalLen

instance (answers : Answers servers Byte) : Decidable (Possible answers) :=
  match readn : answers.readn with
  | .data bytes =>
      decidable_of_iff (answers.writen = messLen ∧ bytes.length ≤ normalLen) (by
        simp [Possible, readn])
  | .error _ => decidable_of_iff (answers.writen = messLen) (by simp [Possible, readn])

namespace Wires

@[simps]
def setLine (wires : Wires servers) (server : Fin servers) (value : Line Byte) : Wires servers :=
  { wires with line := Function.update wires.line server value }

/-- The loop goes on with the result of a pass, or into the write which the pass has begun. -/
def enter (boot : Boot servers) (wires : Wires servers) :
    Except Halt (Thread servers Byte × List (Call Byte)) → Wires servers
  | .error halt => { wires with halted := some halt }
  | .ok (thread, calls) =>
      { wires with thread := thread, writing := calls.findSome? (blockingWrite boot) }

def replyAnswers (data : List Byte) (server : Fin servers) : Answers servers Byte where
  accepted := []
  acceptErrno := .eagain
  readn := .data data
  index := server
  writen := messLen

/-- One step of the distributor, of an inner server, or of a buffer between them. -/
def step (boot : Boot servers) (capacity : Capacity servers) (wires : Wires servers)
    (event : Event servers) : Option (Wires servers) :=
  if wires.halted ≠ none then none
  else
    match event with
    | .pass fd answers =>
        if wires.writing = none ∧ (fd = boot.listenFdOuter ∨ boot.table fd = none) ∧
            Possible answers then
          some (wires.enter boot (loopBody wires.thread fd EPOLLIN answers))
        else none
    | .reply server count =>
        let line := wires.line server
        if wires.writing = none ∧ 0 < count ∧ count ≤ messLen ∧ count ≤ line.fromServer.length then
          some ((wires.setLine server { line with fromServer := line.fromServer.drop count }).enter
            boot (loopBody wires.thread (boot.serversInner server).1 EPOLLIN
              (replyAnswers (line.fromServer.take count) server)))
        else none
    | .push count =>
        match wires.writing with
        | none => none
        | some (server, rest) =>
            let line := wires.line server
            if 0 < count ∧ count ≤ rest.length ∧
                line.toServer.length + count ≤ capacity.toServer server then
              some ({ wires with
                writing := if rest.drop count = [] then none else some (server, rest.drop count)
              }.setLine server { line with toServer := line.toServer ++ rest.take count })
            else none
    | .serverRead server count =>
        ((wires.line server).serve count).map fun line => wires.setLine server line
    | .serverPush server count =>
        let line := wires.line server
        if 0 < count ∧ count ≤ line.echo.length ∧
            line.fromServer.length + count ≤ capacity.fromServer server then
          some (wires.setLine server { line with
            echo := line.echo.drop count
            fromServer := line.fromServer ++ line.echo.take count })
        else none

/-- Both ends of a connection wait in `write` for the other end to read. -/
def Blocked (capacity : Capacity servers) (wires : Wires servers) (server : Fin servers) : Prop :=
  ∃ rest, wires.writing = some (server, rest) ∧ rest ≠ [] ∧
    (wires.line server).toServer.length = capacity.toServer server ∧
    (wires.line server).echo ≠ [] ∧
    (wires.line server).fromServer.length = capacity.fromServer server

/-- What the distributor is writing still fits into its buffer, or what the server is
writing still fits into the other one. -/
def Room (capacity : Capacity servers) (wires : Wires servers) : Prop :=
  ∀ server rest, wires.writing = some (server, rest) →
    (wires.line server).toServer.length + rest.length ≤ capacity.toServer server ∨
    (wires.line server).fromServer.length + (wires.line server).echo.length ≤
      capacity.fromServer server

/-- A pass of the loop which begins a `write` to an inner server finds room. -/
def BeginsWithRoom (boot : Boot servers) (capacity : Capacity servers) (wires : Wires servers)
    (event : Event servers) : Prop :=
  wires.writing = none → ∀ next, wires.step boot capacity event = some next → next.Room capacity

instance (capacity : Capacity servers) (wires : Wires servers) : Decidable (wires.Room capacity) :=
  match writing : wires.writing with
  | none => isTrue (by simp [Room, writing])
  | some (server, rest) =>
      decidable_of_iff
        ((wires.line server).toServer.length + rest.length ≤ capacity.toServer server ∨
          (wires.line server).fromServer.length + (wires.line server).echo.length ≤
            capacity.fromServer server)
        (by simp [Room, writing])

instance (boot : Boot servers) (capacity : Capacity servers) (wires : Wires servers)
    (event : Event servers) : Decidable (wires.BeginsWithRoom boot capacity event) :=
  match stepped : wires.step boot capacity event with
  | none => isTrue (by simp [BeginsWithRoom, stepped])
  | some next =>
      decidable_of_iff (wires.writing = none → next.Room capacity)
        (by simp [BeginsWithRoom, stepped])

/-- What a step does to the buffers. -/
inductive Moved (capacity : Capacity servers) (wires : Wires servers) :
    Event servers → Wires servers → Prop where
  | entered {event : Event servers} (next : Wires servers) (idle : wires.writing = none)
      (toServer : ∀ server, (next.line server).toServer = (wires.line server).toServer)
      (fromServer : ∀ server,
        (next.line server).fromServer.length ≤ (wires.line server).fromServer.length)
      (small : ∀ server rest, next.writing = some (server, rest) → rest.length ≤ messLen)
      (running : next.writing ≠ none → next.halted = none) : Moved capacity wires event next
  | push (server : Fin servers) (rest : List Byte) (count : ℕ)
      (writing : wires.writing = some (server, rest)) (positive : 0 < count)
      (inside : count ≤ rest.length)
      (fits : (wires.line server).toServer.length + count ≤ capacity.toServer server) :
      Moved capacity wires (.push count) ({ wires with
          writing := if rest.drop count = [] then none else some (server, rest.drop count)
        }.setLine server { wires.line server with
          toServer := (wires.line server).toServer ++ rest.take count })
  | read (server : Fin servers) (count : ℕ) (line : Line Byte)
      (served : (wires.line server).serve count = some line) :
      Moved capacity wires (.serverRead server count) (wires.setLine server line)
  | echoed (server : Fin servers) (count : ℕ) (positive : 0 < count)
      (inside : count ≤ (wires.line server).echo.length)
      (fits : (wires.line server).fromServer.length + count ≤ capacity.fromServer server) :
      Moved capacity wires (.serverPush server count) (wires.setLine server { wires.line server with
        echo := (wires.line server).echo.drop count
        fromServer := (wires.line server).fromServer ++ (wires.line server).echo.take count })

variable {boot : Boot servers} {capacity : Capacity servers} {wires next : Wires servers}

@[simp]
theorem enter_line (result : Except Halt (Thread servers Byte × List (Call Byte))) :
    (wires.enter boot result).line = wires.line := by
  cases result <;> rfl

theorem enter_running {result : Except Halt (Thread servers Byte × List (Call Byte))}
    (idle : wires.writing = none) (running : wires.halted = none)
    (writes : (wires.enter boot result).writing ≠ none) :
    (wires.enter boot result).halted = none := by
  cases result with
  | error halt => exact absurd idle writes
  | ok value => exact running

theorem enter_small {result : Except Halt (Thread servers Byte × List (Call Byte))}
    (idle : wires.writing = none)
    (sizes : ∀ thread calls, result = .ok (thread, calls) →
      ∀ fd data, .write fd data ∈ calls → data.length ≤ messLen)
    {server : Fin servers} {rest : List Byte}
    (writing : (wires.enter boot result).writing = some (server, rest)) :
    rest.length ≤ messLen := by
  cases result with
  | error halt =>
      simp only [enter, idle] at writing
      cases writing
  | ok value =>
      rcases value with ⟨thread, calls⟩
      rcases List.exists_of_findSome?_eq_some writing with ⟨call, callMem, found⟩
      cases call with
      | write fd data =>
          simp only [blockingWrite] at found
          split at found
          · simp only [Option.some.injEq, Prod.mk.injEq] at found
            rw [← found.2]
            exact sizes thread calls rfl fd data callMem
          · cases found
      | close fd => cases found

theorem moved_of_step {event : Event servers}
    (stepped : wires.step boot capacity event = some next) : Moved capacity wires event next := by
  simp only [step] at stepped
  split at stepped
  · cases stepped
  · rename_i running
    rw [not_not] at running
    cases event with
    | pass fd answers =>
        simp only at stepped
        split at stepped
        · rename_i possible
          cases stepped
          refine .entered _ possible.1 (by simp) (by simp) ?_ (enter_running possible.1 running)
          exact fun _ _ => enter_small possible.1 fun _ _ served _ _ =>
            Distributor.loopBody_writes served
        · cases stepped
    | reply server count =>
        simp only at stepped
        split at stepped
        · rename_i possible
          cases stepped
          refine .entered _ possible.1 ?_ ?_ ?_ (enter_running possible.1 running)
          · rw [enter_line]
            exact Family.forall_update (fun other (value : Line Byte) =>
              value.toServer = (wires.line other).toServer) (fun _ => rfl) rfl
          · rw [enter_line]
            exact Family.forall_update (fun other (value : Line Byte) =>
              value.fromServer.length ≤ (wires.line other).fromServer.length) (fun _ => le_rfl)
              (by simp)
          · intro other rest writing
            refine enter_small ?_ ?_ writing
            · exact possible.1
            · exact fun _ _ served _ _ => Distributor.loopBody_writes served
        · cases stepped
    | push count =>
        simp only at stepped
        split at stepped
        · cases stepped
        · rename_i server rest writing
          split at stepped
          · rename_i possible
            cases stepped
            exact .push server rest count writing possible.1 possible.2.1 possible.2.2
          · cases stepped
    | serverRead server count =>
        rcases Option.map_eq_some_iff.mp stepped with ⟨line, served, rfl⟩
        exact .read server count line served
    | serverPush server count =>
        simp only at stepped
        split at stepped
        · rename_i possible
          cases stepped
          exact .echoed server count possible.1 possible.2.1 possible.2.2
        · cases stepped

/-- No buffer holds more than its capacity, and what is being written is one message at most. -/
structure Bounded (capacity : Capacity servers) (wires : Wires servers) : Prop where
  toServer : ∀ server, (wires.line server).toServer.length ≤ capacity.toServer server
  fromServer : ∀ server, (wires.line server).fromServer.length ≤ capacity.fromServer server
  writing : ∀ server rest, wires.writing = some (server, rest) → rest.length ≤ messLen

theorem bounded_start (boot : Boot servers) (capacity : Capacity servers)
    (garbage : Fin servers → Message Byte) : (start boot garbage).Bounded capacity := by
  constructor <;> simp [start]

theorem Bounded.moved {event : Event servers} (bounded : wires.Bounded capacity)
    (moved : Moved capacity wires event next) : next.Bounded capacity := by
  cases moved with
  | entered _ idle toServer fromServer small running =>
      refine ⟨?_, fun server => (fromServer server).trans (bounded.fromServer server), small⟩
      simpa only [toServer] using bounded.toServer
  | push server rest count writing positive inside fits =>
      refine ⟨?_, ?_, ?_⟩
      · refine Family.forall_update (fun other (value : Line Byte) =>
          value.toServer.length ≤ capacity.toServer other) bounded.toServer ?_
        simp only [List.length_append, List.length_take]
        omega
      · exact Family.forall_update (fun other (value : Line Byte) =>
          value.fromServer.length ≤ capacity.fromServer other) bounded.fromServer
          (bounded.fromServer server)
      · intro other left leftWriting
        have short := bounded.writing server rest writing
        simp only [setLine_writing] at leftWriting
        split at leftWriting
        · cases leftWriting
        · simp only [Option.some.injEq, Prod.mk.injEq] at leftWriting
          rw [← leftWriting.2, List.length_drop]
          omega
  | read server count line served =>
      rcases Line.serve_eq_some served with ⟨_, _, _, _, rfl⟩
      refine ⟨?_, ?_, bounded.writing⟩
      · refine Family.forall_update (fun other (value : Line Byte) =>
          value.toServer.length ≤ capacity.toServer other) bounded.toServer ?_
        have before := bounded.toServer server
        simp only [List.length_drop]
        omega
      · exact Family.forall_update (fun other (value : Line Byte) =>
          value.fromServer.length ≤ capacity.fromServer other) bounded.fromServer
          (bounded.fromServer server)
  | echoed server count positive inside fits =>
      refine ⟨?_, ?_, bounded.writing⟩
      · exact Family.forall_update (fun other (value : Line Byte) =>
          value.toServer.length ≤ capacity.toServer other) bounded.toServer
          (bounded.toServer server)
      · refine Family.forall_update (fun other (value : Line Byte) =>
          value.fromServer.length ≤ capacity.fromServer other) bounded.fromServer ?_
        simp only [List.length_append, List.length_take]
        omega

/-- Room stays: once a server has taken a message, the rest of the write fits. -/
theorem Room.step {event : Event servers} (room : wires.Room capacity)
    (bounded : wires.Bounded capacity) (permitted : wires.BeginsWithRoom boot capacity event)
    (stepped : wires.step boot capacity event = some next) : next.Room capacity := by
  cases moved_of_step stepped with
  | entered _ idle toServer fromServer small running => exact permitted idle next stepped
  | push server rest count writing positive inside fits =>
      intro other left leftWriting
      simp only [setLine_writing] at leftWriting
      split at leftWriting
      · cases leftWriting
      · simp only [Option.some.injEq, Prod.mk.injEq] at leftWriting
        rcases leftWriting with ⟨rfl, rfl⟩
        have before := room server rest writing
        simp only [setLine_line, Function.update_self, List.length_append, List.length_take,
          List.length_drop]
        omega
  | read server count line served =>
      rcases Line.serve_eq_some served with ⟨_, _, _, inside, rfl⟩
      intro other rest writing
      have before := room other rest writing
      by_cases same : other = server
      · subst same
        have small := bounded.writing other rest writing
        have full := bounded.toServer other
        have reply := bounded.fromServer other
        simp only [setLine_line, Function.update_self, List.length_drop]
        by_cases whole : count = messLen
        · left
          omega
        · right
          simpa [whole] using reply
      · simpa [same] using before
  | echoed server count positive inside fits =>
      intro other rest writing
      have before := room other rest writing
      by_cases same : other = server
      · subst same
        simp only [setLine_line, Function.update_self, List.length_append, List.length_take,
          List.length_drop]
        omega
      · simpa [same] using before

theorem Room.not_blocked (room : wires.Room capacity) (server : Fin servers) :
    ¬wires.Blocked capacity server := by
  rintro ⟨rest, writing, unwritten, full, unechoed, replyFull⟩
  have positive := List.length_pos_iff.mpr unwritten
  have positive' := List.length_pos_iff.mpr unechoed
  have fits := room server rest writing
  omega

/-- Once both ends wait for each other, no step of any thread gets them out of it. -/
theorem Blocked.step {server : Fin servers} {event : Event servers}
    (blocked : wires.Blocked capacity server)
    (stepped : wires.step boot capacity event = some next) : next.Blocked capacity server := by
  rcases blocked with ⟨rest, writing, unwritten, full, unechoed, replyFull⟩
  cases moved_of_step stepped with
  | entered _ idle _ _ _ _ =>
      rw [writing] at idle
      cases idle
  | push other left count otherWriting positive inside fits =>
      rw [writing, Option.some.injEq, Prod.mk.injEq] at otherWriting
      rw [← otherWriting.1] at fits
      omega
  | read other count line served =>
      have different : server ≠ other := by
        rintro rfl
        exact unechoed (Line.serve_eq_some served).1
      exact ⟨rest, writing, unwritten, by simpa [different] using full,
        by simpa [different] using unechoed, by simpa [different] using replyFull⟩
  | echoed other count positive inside fits =>
      have different : server ≠ other := by
        rintro rfl
        omega
      exact ⟨rest, writing, unwritten, by simpa [different] using full,
        by simpa [different] using unechoed, by simpa [different] using replyFull⟩

theorem exists_stopped_write {server : Fin servers} {rest : List Byte}
    (running : wires.halted = none) (writing : wires.writing = some (server, rest))
    (bound : (wires.line server).toServer.length ≤ capacity.toServer server)
    (tooLong : capacity.toServer server < (wires.line server).toServer.length + rest.length) :
    ∃ stopped left, Machine.Reachable (step boot capacity) wires stopped ∧
      stopped.halted = none ∧ stopped.writing = some (server, left) ∧ left ≠ [] ∧
      (stopped.line server).toServer.length = capacity.toServer server ∧
      (stopped.line server).echo = (wires.line server).echo ∧
      (stopped.line server).fromServer = (wires.line server).fromServer := by
  obtain ⟨free, freeEq⟩ : ∃ free, capacity.toServer server =
    (wires.line server).toServer.length + free := Nat.exists_eq_add_of_le bound
  by_cases full : free = 0
  · refine ⟨wires, rest, Machine.Reachable.refl _, running, writing, ?_, by omega, rfl, rfl⟩
    rintro rfl
    simp only [List.length_nil] at tooLong
    omega
  · have unwritten : rest.drop free ≠ [] := by
      intro nothing
      have short := List.drop_eq_nil_iff.mp nothing
      omega
    have pushed : wires.step boot capacity (.push free) = some (({ wires with
          writing := some (server, rest.drop free)
        } : Wires servers).setLine server { wires.line server with
          toServer := (wires.line server).toServer ++ rest.take free }) := by
      simp only [step, running, writing]
      rw [if_neg (by simp), if_pos ⟨by omega, by omega, by omega⟩, if_neg unwritten]
    refine ⟨_, _, (Machine.Reachable.refl _).next pushed, running, rfl, unwritten, ?_, ?_, ?_⟩
    · simp only [setLine_line, Function.update_self, List.length_append, List.length_take]
      omega
    · simp
    · simp

/-- An echo without room fills its buffer too, and then both ends are blocked. -/
theorem exists_blocked {server : Fin servers} {rest : List Byte} (running : wires.halted = none)
    (bounded : wires.Bounded capacity) (writing : wires.writing = some (server, rest))
    (tooLong : capacity.toServer server < (wires.line server).toServer.length + rest.length)
    (replyTooLong : capacity.fromServer server <
      (wires.line server).fromServer.length + (wires.line server).echo.length) :
    ∃ blocked, Machine.Reachable (step boot capacity) wires blocked ∧
      blocked.Blocked capacity server := by
  rcases exists_stopped_write running writing (bounded.toServer server) tooLong with
    ⟨stopped, left, reached, stillRunning, stillWriting, unwritten, full, echo, reply⟩
  have bound := bounded.fromServer server
  obtain ⟨free, freeEq⟩ : ∃ free, capacity.fromServer server =
    (wires.line server).fromServer.length + free := Nat.exists_eq_add_of_le bound
  by_cases replyFull : free = 0
  · refine ⟨stopped, reached, left, stillWriting, unwritten, full, ?_, by rw [reply]; omega⟩
    intro nothing
    rw [← echo, nothing, List.length_nil] at replyTooLong
    omega
  · have pushed : stopped.step boot capacity (.serverPush server free) =
        some (stopped.setLine server { stopped.line server with
          echo := (stopped.line server).echo.drop free
          fromServer := (stopped.line server).fromServer ++
            (stopped.line server).echo.take free }) := by
      simp only [step, stillRunning]
      rw [if_neg (by simp), if_pos ⟨by omega, by rw [echo]; omega, by rw [reply]; omega⟩]
    refine ⟨_, reached.next pushed, left, stillWriting, unwritten, by simpa using full, ?_, ?_⟩
    · simp only [setLine_line, Function.update_self, ne_eq, List.drop_eq_nil_iff, echo]
      omega
    · simp only [setLine_line, Function.update_self, List.length_append, List.length_take, echo,
        reply]
      omega

/--
In every run in which each write to an inner server begins with room, the distributor and an
inner server are never blocked on each other. From a write which begins without room a state
is reachable in which they are, for good.
-/
theorem not_blocked_of_beginsWithRoom {garbage : Fin servers → Message Byte}
    {events : List (Event servers)}
    (guarded : Machine.RunsUnder (step boot capacity) (BeginsWithRoom boot capacity)
      (start boot garbage) events wires) :
    (∀ server, ¬wires.Blocked capacity server) ∧
      ∀ event, ¬wires.BeginsWithRoom boot capacity event →
        ∃ next server blocked, wires.step boot capacity event = some next ∧
          Machine.Reachable (step boot capacity) next blocked ∧
          ∀ final, Machine.Reachable (step boot capacity) blocked final →
            final.Blocked capacity server := by
  have initially : (start boot garbage).Bounded capacity ∧ (start boot garbage).Room capacity :=
    ⟨bounded_start boot capacity garbage, fun _ _ writing => by cases writing⟩
  have both := guarded.invariant (fun state => state.Bounded capacity ∧ state.Room capacity)
    (fun before permitted stepped => ⟨before.1.moved (moved_of_step stepped),
      before.2.step before.1 permitted stepped⟩) initially
  refine ⟨both.2.not_blocked, ?_⟩
  intro event violated
  simp only [BeginsWithRoom, Room, not_forall, not_or, not_le] at violated
  rcases violated with ⟨idle, next, stepped, server, rest, writing, tooLong, replyTooLong⟩
  have bounded := both.1.moved (moved_of_step stepped)
  have running : next.halted = none := by
    cases moved_of_step stepped with
    | entered _ _ _ _ _ running => exact running (by simp [writing])
    | push server rest count busy _ _ _ =>
        rw [idle] at busy
        cases busy
    | read _ _ _ _ =>
        rw [setLine_writing, idle] at writing
        cases writing
    | echoed _ _ _ _ _ =>
        rw [setLine_writing, idle] at writing
        cases writing
  rcases exists_blocked running bounded writing tooLong replyTooLong with ⟨blocked, reached, stuck⟩
  refine ⟨next, server, blocked, stepped, reached, ?_⟩
  intro final reachedFinal
  exact reachedFinal.invariant (fun state => state.Blocked capacity server)
    (fun before step => before.step step) stuck

/-- Buffers for one message each. -/
def oneMessage : Capacity 1 where
  toServer _ := messLen
  fromServer _ := messLen
  whole _ := ⟨le_rfl, le_rfl⟩

def request : Event 1 :=
  .pass 8 ⟨[], .eagain, .data (List.replicate normalLen 0), Boot.server, messLen⟩

def onceAround : List (Event 1) :=
  [.pass 6 ⟨[(8, 0, 0)], .eagain, .error .eagain, Boot.server, messLen⟩, request, .push messLen,
    .serverRead Boot.server messLen, .serverPush Boot.server messLen, .reply Boot.server messLen]

theorem not_blocked_of_beginsWithRoom_onceAround :
    ∃ wires, Machine.RunsUnder (step Boot.single oneMessage)
        (BeginsWithRoom Boot.single oneMessage) (start Boot.single fun _ => .zero) onceAround
        wires ∧
      (wires.line 0).mess.fd = 8 ∧ (∀ server, ¬wires.Blocked oneMessage server) ∧
      ∀ event, ¬wires.BeginsWithRoom Boot.single oneMessage event →
        ∃ next server blocked, wires.step Boot.single oneMessage event = some next ∧
          Machine.Reachable (step Boot.single oneMessage) next blocked ∧
          ∀ final, Machine.Reachable (step Boot.single oneMessage) blocked final →
            final.Blocked oneMessage server := by
  have ran : ∃ wires, Machine.RunsUnder (step Boot.single oneMessage)
      (BeginsWithRoom Boot.single oneMessage) (start Boot.single fun _ => .zero) onceAround wires ∧
        decide ((wires.line 0).mess.fd = 8) = true :=
    Machine.RunsUnder.exists_of_any onceAround (by decide +kernel)
  rcases ran with ⟨wires, guarded, shown⟩
  exact ⟨wires, guarded, of_decide_eq_true shown, not_blocked_of_beginsWithRoom guarded⟩

/-- Four requests are read before the first reply. -/
def burst : List (Event 1) :=
  [.pass 6 ⟨[(8, 0, 0)], .eagain, .error .eagain, Boot.server, messLen⟩, request, .push messLen,
    .serverRead Boot.server messLen, .serverPush Boot.server messLen, request, .push messLen,
    .serverRead Boot.server messLen, request, .push messLen, request]

/-- Neither the distributor nor the inner server gets any further. -/
theorem blocked_of_burst :
    ∃ wires, Machine.Reachable (step Boot.single oneMessage) (start Boot.single fun _ => .zero)
        wires ∧
      ∀ final, Machine.Reachable (step Boot.single oneMessage) wires final →
        final.Blocked oneMessage 0 := by
  rcases Machine.exists_reachable_of_any burst
    (show (Machine.run (step Boot.single oneMessage) (start Boot.single fun _ => .zero) burst).any
      (fun wires => wires.writing = some (0, fdBytes 8 ++ List.replicate normalLen 0) ∧
        (wires.line 0).toServer.length = messLen ∧ (wires.line 0).echo ≠ [] ∧
        (wires.line 0).fromServer.length = messLen) = true by decide +kernel)
    with ⟨wires, reachable, shown⟩
  rcases of_decide_eq_true shown with ⟨writing, full, unechoed, replyFull⟩
  have blocked : wires.Blocked oneMessage 0 :=
    ⟨_, writing, by simp [fdBytes, normalLen], full, unechoed, replyFull⟩
  refine ⟨wires, reachable, ?_⟩
  intro final reached
  exact reached.invariant (fun state => state.Blocked oneMessage 0)
    (fun before step => before.step step) blocked

end Wires

end LoadBalance.Stream.Blocking
