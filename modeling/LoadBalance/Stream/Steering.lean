import LoadBalance.Lib.Family
import LoadBalance.Lib.Machine
import LoadBalance.Relay.Start
import LoadBalance.Stream.Related

/-!
# What steers the replies

The bytes between the distributor and the inner servers, where a `read` or a `write` moves
any part of what it was asked to move. A short `read` of a reply leaves the rest of it for
the next one, which then takes it for the start of a message: the descriptor it replies to
may come out of a client's request.

The same machine runs over bytes which carry a mark for being part of a request. Two runs
which differ in the requests only write to the same descriptors exactly if no marked byte
ever stands in the descriptor of a reply.
-/

universe u v

namespace LoadBalance.Stream.Steering

open Distributor (Thread Answers Call loopBody)
open Relay (Boot Obj)

structure Streams (servers : ℕ) (α : Type u) where
  thread : Thread servers α
  line : Fin servers → Line α
  /-- The descriptors to which the distributor has written, in order. -/
  written : List Fd
  halted : Option Halt

inductive Event (servers : ℕ) (α : Type u) where
  /-- The listening socket or a client is handed to the loop. -/
  | pass (fd : Fd) (answers : Answers servers α)
  /-- An inner server's socket is handed to the loop. Its `read` moves `count` bytes, and
  the `write` of the reply `moved` bytes. -/
  | reply (server : Fin servers) (count moved : ℕ)
  | serverRead (server : Fin servers) (count : ℕ)
  /-- The server's `write` moves `count` bytes, and the loop does not look at the result. -/
  | serverWrite (server : Fin servers) (count : ℕ)

/-- A client's `read` moves at most a request, and a `write` to an inner server at least one
byte and at most the message, or fails. -/
def Possible {servers : ℕ} {α : Type u} (answers : Answers servers α) : Prop :=
  (answers.writen = -1 ∨ 0 < answers.writen ∧ answers.writen ≤ messLen) ∧
    ∀ bytes, answers.readn = .data bytes → bytes.length ≤ normalLen

namespace Streams

variable {servers : ℕ} {α : Type u}

instance (answers : Answers servers α) : Decidable (Possible answers) :=
  match readn : answers.readn with
  | .data bytes =>
      decidable_of_iff ((answers.writen = -1 ∨ 0 < answers.writen ∧ answers.writen ≤ messLen) ∧
        bytes.length ≤ normalLen) (by simp [Possible, readn])
  | .error _ =>
      decidable_of_iff (answers.writen = -1 ∨ 0 < answers.writen ∧ answers.writen ≤ messLen)
        (by simp [Possible, readn])

@[simps]
def setLine (streams : Streams servers α) (server : Fin servers) (value : Line α) :
    Streams servers α :=
  { streams with line := Function.update streams.line server value }

/-- A call of the loop body. Of a write to an inner server `moved` bytes arrive. -/
def perform (boot : Boot servers) (moved : ℕ) (streams : Streams servers α) :
    Call α → Streams servers α
  | .write fd data =>
      let noted := { streams with written := streams.written ++ [fd] }
      match boot.table fd with
      | some (.work server) =>
          noted.setLine server { streams.line server with
            toServer := (streams.line server).toServer ++ data.take moved }
      | _ => noted
  | .close _ => streams

/-- The loop goes on with the result of a pass. -/
def enter (boot : Boot servers) (moved : ℕ) (streams : Streams servers α) :
    Except Halt (Thread servers α × List (Call α)) → Streams servers α
  | .error halt => { streams with halted := some halt }
  | .ok (thread, calls) => calls.foldl (perform boot moved) { streams with thread := thread }

def replyAnswers (data : List α) (server : Fin servers) : Answers servers α where
  accepted := []
  acceptErrno := .eagain
  readn := .data data
  index := server
  writen := messLen

/-- The variable `mess` after a `read` of `count` bytes of a reply. -/
def readReply (streams : Streams servers α) (server : Fin servers) (count : ℕ) : Message α :=
  streams.thread.mess.store 0 ((streams.line server).fromServer.take count)

section Step

variable [Cell α]

/-- The start of both programs; the variable `mess` of a server holds anything. -/
def start (boot : Boot servers) (garbage : Fin servers → Message Byte) : Streams servers α where
  thread := boot.thread α
  line server := {
    toServer := []
    mess := .ofBytes (garbage server)
    echo := []
    fromServer := []
  }
  written := []
  halted := none

/-- One step of the distributor or of an inner server. -/
def step (boot : Boot servers) (streams : Streams servers α) (event : Event servers α) :
    Option (Streams servers α) :=
  if streams.halted ≠ none then none
  else
    match event with
    | .pass fd answers =>
        if (fd = boot.listenFdOuter ∨ boot.table fd = none) ∧ Possible answers then
          some (streams.enter boot answers.writen.toNat
            (loopBody streams.thread fd EPOLLIN answers))
        else none
    | .reply server count moved =>
        let line := streams.line server
        if 0 < count ∧ count ≤ messLen ∧ count ≤ line.fromServer.length then
          some ((streams.setLine server
            { line with fromServer := line.fromServer.drop count }).enter boot moved
              (loopBody streams.thread (boot.serversInner server).1 EPOLLIN
                (replyAnswers (line.fromServer.take count) server)))
        else none
    | .serverRead server count =>
        ((streams.line server).serve count).map fun line => streams.setLine server line
    | .serverWrite server count =>
        let line := streams.line server
        if 0 < count ∧ count ≤ line.echo.length then
          some (streams.setLine server { line with
            echo := []
            fromServer := line.fromServer ++ line.echo.take count })
        else none

end Step

/-- The descriptors of the start are still those of the start. -/
def Booted [Cell α] (boot : Boot servers) (streams : Streams servers α) : Prop :=
  streams.thread.tables = (boot.thread α).tables

section Related

variable {β : Type v} [Cell α] [Cell β] (rel : α → β → Prop)

structure LineRelated (line : Line α) (line' : Line β) : Prop where
  toServer : List.Forall₂ rel line.toServer line'.toServer
  mess : List.Forall₂ rel line.mess.bytes line'.mess.bytes
  echo : List.Forall₂ rel line.echo line'.echo
  fromServer : List.Forall₂ rel line.fromServer line'.fromServer

structure Related (streams : Streams servers α) (streams' : Streams servers β) : Prop where
  thread : ThreadRelated rel streams.thread streams'.thread
  line : ∀ server, LineRelated rel (streams.line server) (streams'.line server)
  written : streams.written = streams'.written
  halted : streams.halted = streams'.halted

end Related

end Streams

/-- The same event, up to the cells which a client's request brings. -/
inductive EventRelated {servers : ℕ} {α : Type u} {β : Type v} (rel : α → β → Prop) :
    Event servers α → Event servers β → Prop where
  | pass (fd : Fd) {answers : Answers servers α} {answers' : Answers servers β}
      (answered : AnswersRelated rel answers answers') :
      EventRelated rel (.pass fd answers) (.pass fd answers')
  | reply (server : Fin servers) (count moved : ℕ) :
      EventRelated rel (.reply server count moved) (.reply server count moved)
  | serverRead (server : Fin servers) (count : ℕ) :
      EventRelated rel (.serverRead server count) (.serverRead server count)
  | serverWrite (server : Fin servers) (count : ℕ) :
      EventRelated rel (.serverWrite server count) (.serverWrite server count)

namespace Streams

variable {servers : ℕ} {α : Type u} {β : Type v} [Cell α] [Cell β] {rel : α → β → Prop}
  {boot : Boot servers} {streams next : Streams servers α} {streams' : Streams servers β}

/-- A reply which the two runs take for the same client's. -/
def SameFd (streams : Streams servers α) (streams' : Streams servers β) : Event servers α → Prop
  | .reply server count _ =>
      (streams.readReply server count).fd = (streams'.readReply server count).fd
  | _ => True

omit [Cell α] [Cell β] in
theorem possible_related {answers : Answers servers α} {answers' : Answers servers β}
    (answered : AnswersRelated rel answers answers') (possible : Possible answers) :
    Possible answers' := by
  refine ⟨answered.writen ▸ possible.1, ?_⟩
  intro bytes' received'
  have readn := answered.readn
  rw [received'] at readn
  cases received : answers.readn with
  | error errno =>
      rw [received] at readn
      cases readn
  | data bytes =>
      rw [received] at readn
      cases readn with
      | data cells => exact cells.length_eq ▸ possible.2 bytes received

omit [Cell α] [Cell β] in
theorem Related.setLine (related : Related rel streams streams') (server : Fin servers)
    {line : Line α} {line' : Line β} (lines : LineRelated rel line line') :
    Related rel (streams.setLine server line) (streams'.setLine server line') where
  thread := related.thread
  line := by
    intro other
    by_cases same : other = server
    · simpa [same] using lines
    · simpa [same] using related.line other
  written := related.written
  halted := related.halted

omit [Cell α] [Cell β] in
theorem Related.perform (related : Related rel streams streams') (moved : ℕ) {call : Call α}
    {call' : Call β} (calls : CallRelated rel call call') :
    Related rel (perform boot moved streams call) (Streams.perform boot moved streams' call') := by
  cases calls with
  | close fd => exact related
  | @write fd data data' cells =>
      have noted : Related rel { streams with written := streams.written ++ [fd] }
          { streams' with written := streams'.written ++ [fd] } :=
        ⟨related.thread, related.line, by rw [related.written], related.halted⟩
      simp only [Streams.perform]
      split
      · rename_i server _
        have line := related.line server
        exact noted.setLine server ⟨List.rel_append line.toServer (List.forall₂_take moved cells),
          line.mess, line.echo, line.fromServer⟩
      · exact noted

omit [Cell α] [Cell β] in
theorem Related.enter (related : Related rel streams streams') (moved : ℕ)
    {result : Except Halt (Thread servers α × List (Call α))}
    {result' : Except Halt (Thread servers β × List (Call β))}
    (results : ResultRelated rel result result') :
    Related rel (enter boot moved streams result) (Streams.enter boot moved streams' result') := by
  cases results with
  | error halt => exact ⟨related.thread, related.line, related.written, rfl⟩
  | @ok thread thread' calls calls' threads callsRelated =>
      have started : Related rel { streams with thread := thread }
          { streams' with thread := thread' } :=
        ⟨threads, related.line, related.written, related.halted⟩
      simp only [Streams.enter]
      generalize ({ streams with thread := thread } : Streams servers α) = state at started ⊢
      generalize ({ streams' with thread := thread' } : Streams servers β) = state' at started ⊢
      induction callsRelated generalizing state state' with
      | nil => exact started
      | cons head _ ih => exact ih _ _ (started.perform moved head)

omit [Cell α] [Cell β] in
theorem LineRelated.serve {line after : Line α} {line' : Line β} {count : ℕ}
    (lines : LineRelated rel line line') (served : line.serve count = some after) :
    ∃ after', line'.serve count = some after' ∧ LineRelated rel after after' := by
  rcases Line.serve_eq_some served with ⟨quiet, positive, bound, inside, rfl⟩
  have quiet' : line'.echo = [] := by
    have echo := lines.echo
    rw [quiet, List.forall₂_nil_left_iff] at echo
    exact echo
  have taken := List.forall₂_take count lines.toServer
  refine ⟨_, Line.serve_eq quiet' positive bound (lines.toServer.length_eq ▸ inside), ?_⟩
  refine ⟨List.forall₂_drop count lines.toServer, store_related lines.mess taken 0, ?_,
    lines.fromServer⟩
  by_cases whole : count = messLen
  · simpa [whole] using taken
  · simp [whole]

section Booted

theorem Booted.listenFdOuter (booted : streams.Booted boot) :
    streams.thread.listenFdOuter = boot.listenFdOuter := congrArg Prod.fst booted

theorem Booted.notMem_serverFdSet (booted : streams.Booted boot) {fd : Fd}
    (unknown : boot.table fd = none) : fd ∉ streams.thread.serverFdSet := by
  have set : streams.thread.serverFdSet = boot.initInnerMon :=
    congrArg (fun tables => tables.2.1) booted
  rw [set, Boot.mem_initInnerMon]
  rintro ⟨server, rfl⟩
  rw [boot.table_work server] at unknown
  cases unknown

theorem Booted.loopBody_work (booted : streams.Booted boot) (server : Fin servers)
    (answers : Answers servers α) :
    loopBody streams.thread (boot.serversInner server).1 EPOLLIN answers =
      Distributor.replyBranch streams.thread answers := by
  have set : streams.thread.serverFdSet = boot.initInnerMon :=
    congrArg (fun tables => tables.2.1) booted
  apply Distributor.loopBody_server _ Distributor.readable_EPOLLIN
  · rw [set, Boot.mem_initInnerMon]
    exact ⟨server, rfl⟩
  · rw [booted.listenFdOuter]
    intro same
    have work := boot.table_work server
    rw [same, boot.table_listenFdOuter] at work
    cases work

end Booted

/-- A step is followed by a step over related cells, if a reply goes to the same descriptor. -/
theorem Related.step (keeps : KeepsConstants rel) (booted : streams.Booted boot)
    (booted' : streams'.Booted boot) (related : Related rel streams streams')
    {event : Event servers α} {event' : Event servers β} (events : EventRelated rel event event')
    (sameFd : streams.SameFd streams' event) (stepped : streams.step boot event = some next) :
    ∃ next', streams'.step boot event' = some next' ∧ Related rel next next' := by
  simp only [Streams.step] at stepped
  split at stepped
  · cases stepped
  · rename_i running
    have running' : ¬streams'.halted ≠ none := related.halted ▸ running
    cases events with
    | @pass fd answers answers' answered =>
        simp only at stepped
        split at stepped
        · rename_i possible
          cases stepped
          have possible' := possible_related answered possible.2
          have results : ResultRelated rel (loopBody streams.thread fd EPOLLIN answers)
              (loopBody streams'.thread fd EPOLLIN answers') := by
            by_cases listening : fd = streams.thread.listenFdOuter
            · exact loopBody_related_listen related.thread answered listening
            · rcases possible.1 with impossible | unknown
              · exact absurd (impossible.trans booted.listenFdOuter.symm) listening
              · exact loopBody_related_client keeps related.thread answered listening
                  (booted.notMem_serverFdSet unknown)
          refine ⟨_, ?_, related.enter answers.writen.toNat results⟩
          simp only [Streams.step]
          rw [if_neg running', if_pos ⟨possible.1, possible'⟩, answered.writen]
        · cases stepped
    | reply server count moved =>
        simp only at stepped
        split at stepped
        · rename_i possible
          cases stepped
          have line := related.line server
          have taken := List.forall₂_take count line.fromServer
          have results := replyBranch_related keeps related.thread taken
            (show (replyAnswers _ server).readn = _ from rfl)
            (show (replyAnswers _ server).readn = _ from rfl) sameFd
          rw [← booted.loopBody_work server, ← booted'.loopBody_work server] at results
          have shorter : Related rel
              (streams.setLine server { streams.line server with
                fromServer := (streams.line server).fromServer.drop count })
              (streams'.setLine server { streams'.line server with
                fromServer := (streams'.line server).fromServer.drop count }) :=
            related.setLine server ⟨line.toServer, line.mess, line.echo,
              List.forall₂_drop count line.fromServer⟩
          refine ⟨_, ?_, shorter.enter moved results⟩
          simp only [Streams.step]
          rw [if_neg running', if_pos ⟨possible.1, possible.2.1,
            line.fromServer.length_eq ▸ possible.2.2⟩]
        · cases stepped
    | serverRead server count =>
        rcases Option.map_eq_some_iff.mp stepped with ⟨after, served, rfl⟩
        rcases (related.line server).serve served with ⟨after', served', lines⟩
        refine ⟨_, ?_, related.setLine server lines⟩
        simp only [Streams.step]
        rw [if_neg running', served', Option.map_some]
    | serverWrite server count =>
        simp only at stepped
        split at stepped
        · rename_i possible
          cases stepped
          have line := related.line server
          have written : LineRelated rel
              { streams.line server with
                echo := []
                fromServer := (streams.line server).fromServer ++
                  (streams.line server).echo.take count }
              { streams'.line server with
                echo := []
                fromServer := (streams'.line server).fromServer ++
                  (streams'.line server).echo.take count } :=
            ⟨line.toServer, line.mess, .nil,
              List.rel_append line.fromServer (List.forall₂_take count line.echo)⟩
          refine ⟨_, ?_, related.setLine server written⟩
          simp only [Streams.step]
          rw [if_neg running', if_pos ⟨possible.1, line.echo.length_eq ▸ possible.2⟩]
        · cases stepped

section Enter

omit [Cell α] in
@[simp]
theorem perform_thread (moved : ℕ) (call : Call α) :
    (perform boot moved streams call).thread = streams.thread := by
  cases call with
  | write fd data =>
      simp only [perform]
      split <;> rfl
  | close fd => rfl

omit [Cell α] in
@[simp]
theorem perform_halted (moved : ℕ) (call : Call α) :
    (perform boot moved streams call).halted = streams.halted := by
  cases call with
  | write fd data =>
      simp only [perform]
      split <;> rfl
  | close fd => rfl

omit [Cell α] in
theorem perform_write_written (moved : ℕ) (fd : Fd) (data : List α) :
    (perform boot moved streams (.write fd data)).written = streams.written ++ [fd] := by
  simp only [perform]
  split <;> rfl

omit [Cell α] in
theorem foldl_perform_thread (moved : ℕ) (calls : List (Call α)) :
    (calls.foldl (perform boot moved) streams).thread = streams.thread := by
  induction calls generalizing streams with
  | nil => rfl
  | cons call calls ih => rw [List.foldl_cons, ih, perform_thread]

omit [Cell α] in
theorem foldl_perform_halted (moved : ℕ) (calls : List (Call α)) :
    (calls.foldl (perform boot moved) streams).halted = streams.halted := by
  induction calls generalizing streams with
  | nil => rfl
  | cons call calls ih => rw [List.foldl_cons, ih, perform_halted]

theorem Booted.enter (booted : streams.Booted boot) (moved : ℕ)
    {result : Except Halt (Thread servers α × List (Call α))}
    (tables : ∀ thread calls, result = .ok (thread, calls) →
      thread.tables = streams.thread.tables) : (streams.enter boot moved result).Booted boot := by
  cases result with
  | error halt => exact booted
  | ok value =>
      rcases value with ⟨thread, calls⟩
      rw [Booted, Streams.enter, foldl_perform_thread]
      exact (tables thread calls rfl).trans booted

/-- A whole request is forwarded to the server drawn, as far as the `write` takes it. -/
theorem Booted.enter_request (booted : streams.Booted boot) {fd : Fd}
    (unknown : boot.table fd = none) {answers : Answers servers α} {buf : List α}
    (received : answers.readn = .data buf) (whole : buf.length = normalLen) :
    (streams.enter boot answers.writen.toNat
      (Distributor.requestBranch streams.thread fd answers)).line =
        Function.update streams.line answers.index { streams.line answers.index with
          toServer := (streams.line answers.index).toServer ++
            (fdBytes fd ++ buf).take answers.writen.toNat } := by
  rcases @Distributor.requestBranch_whole _ _ _ streams.thread fd _ _ received whole with
    ⟨mess, _, served⟩
  have inner : streams.thread.serversInner = boot.serversInner :=
    congrArg (fun tables => tables.2.2) booted
  have work := boot.table_work answers.index
  rw [served, inner]
  by_cases all : answers.writen = messLen
  · simp only [Streams.enter, all, ne_eq, not_true_eq_false, if_false, List.foldl_cons,
      List.foldl_nil, perform, work]
    rfl
  · simp only [Streams.enter, all, ne_eq, not_false_eq_true, if_true, List.foldl_cons,
      List.foldl_nil, perform, work, unknown]
    rfl

end Enter

theorem booted_start (boot : Boot servers) (garbage : Fin servers → Message Byte) :
    (start boot garbage : Streams servers α).Booted boot := rfl

theorem Booted.step (booted : streams.Booted boot) {event : Event servers α}
    (stepped : streams.step boot event = some next) : next.Booted boot := by
  simp only [Streams.step] at stepped
  split at stepped
  · cases stepped
  · cases event with
    | pass fd answers =>
        simp only at stepped
        split at stepped
        · cases stepped
          exact booted.enter _ fun _ _ served => Distributor.loopBody_tables served
        · cases stepped
    | reply server count moved =>
        simp only at stepped
        split at stepped
        · cases stepped
          refine Booted.enter ?_ moved fun _ _ served => Distributor.loopBody_tables served
          exact booted
        · cases stepped
    | serverRead server count =>
        rcases Option.map_eq_some_iff.mp stepped with ⟨after, _, rfl⟩
        exact booted
    | serverWrite server count =>
        simp only at stepped
        split at stepped
        · cases stepped
          exact booted
        · cases stepped

theorem booted_of_run {garbage : Fin servers → Message Byte} {events : List (Event servers α)}
    (ran : Machine.run (step boot) (start boot garbage) events = some streams) :
    streams.Booted boot :=
  Machine.run_invariant (Booted boot) (fun booted stepped => booted.step stepped)
    (booted_start boot garbage) ran

theorem start_related (keeps : KeepsConstants rel) (garbage : Fin servers → Message Byte) :
    Related rel (start boot garbage) (start boot garbage) where
  thread := by
    refine ⟨rfl, rfl, ?_⟩
    have zeros := constants_related keeps (List.replicate messLen 0)
    simpa [start, Boot.thread, Message.zero] using zeros
  line := fun server => ⟨.nil, constants_related keeps _, .nil, .nil⟩
  written := rfl
  halted := rfl

/-- Two runs side by side, as they are followed from the start. -/
def Together (boot : Boot servers) (rel : α → β → Prop) (streams : Streams servers α)
    (streams' : Streams servers β) : Prop :=
  streams.Booted boot ∧ streams'.Booted boot ∧ Related rel streams streams'

/-- A run whose steps are permitted is followed over related cells, if a permitted reply goes
to the same descriptor. -/
theorem exists_related_run (keeps : KeepsConstants rel) {garbage : Fin servers → Message Byte}
    {allowed : Streams servers α → Event servers α → Prop}
    (sameFd : ∀ {streams : Streams servers α} {streams' : Streams servers β} {event},
      Related rel streams streams' → allowed streams event → streams.SameFd streams' event)
    {events : List (Event servers α)} {events' : List (Event servers β)}
    (guarded : Machine.RunsUnder (step boot) allowed (start boot garbage) events streams)
    (eventsRelated : List.Forall₂ (EventRelated rel) events events') :
    ∃ final, Machine.run (step boot) (start boot garbage) events' = some final ∧
      final.Booted boot ∧ Related rel streams final := by
  have initially : Together boot rel (start boot garbage) (start boot garbage) :=
    ⟨booted_start boot garbage, booted_start boot garbage, start_related keeps garbage⟩
  have followed : ∀ {streams event next streams' event'}, Together boot rel streams streams' →
      EventRelated rel event event' → allowed streams event → streams.step boot event = some next →
      ∃ next', streams'.step boot event' = some next' ∧ Together boot rel next next' := by
    rintro streams event next streams' event' ⟨booted, booted', related⟩ same permitted stepped
    rcases related.step keeps booted booted' same (sameFd related permitted) stepped with
      ⟨next', stepped', relatedNext⟩
    exact ⟨next', stepped', booted.step stepped, booted'.step stepped', relatedNext⟩
  rcases guarded.simulation followed initially eventsRelated with ⟨final, ran, _, booted, related⟩
  exact ⟨final, ran, booted, related⟩

omit [Cell α] [Cell β] in
theorem Related.readReply (related : Related rel streams streams') (server : Fin servers)
    (count : ℕ) :
    List.Forall₂ rel (streams.readReply server count).bytes
      (streams'.readReply server count).bytes :=
  store_related related.thread.mess (List.forall₂_take count (related.line server).fromServer) 0

def fdCells (mess : Message α) : List α := mess.bytes.take fdLen

theorem Related.sameFd (related : Related rel streams streams') {server : Fin servers} {count : ℕ}
    (agree : ∀ cell ∈ fdCells (streams.readReply server count), ∀ cell', rel cell cell' →
      Cell.toByte cell = Cell.toByte cell') :
    (streams.readReply server count).fd = (streams'.readReply server count).fd := by
  have cells := List.forall₂_take fdLen (related.readReply server count)
  rw [Message.fd, Message.fd, loadFd, loadFd, map_toByte_eq cells agree]

theorem step_reply (booted : streams.Booted boot) {server : Fin servers} {count moved : ℕ}
    (stepped : streams.step boot (.reply server count moved) = some next) :
    streams.halted = none ∧ 0 < count ∧ count ≤ messLen ∧
      count ≤ (streams.line server).fromServer.length ∧
      if 0 < (streams.readReply server count).fd.toInt then
        next.written = streams.written ++ [(streams.readReply server count).fd] ∧ next.halted = none
      else next.halted = some (.assertion "clientFd > 0") := by
  simp only [Streams.step] at stepped
  split at stepped
  · cases stepped
  · rename_i running
    rw [not_not] at running
    split at stepped
    · rename_i possible
      rcases possible with ⟨positive, bound, inside⟩
      have nonempty : (streams.line server).fromServer.take count ≠ [] := by
        intro empty
        have size := List.length_take_of_le inside
        rw [empty, List.length_nil] at size
        omega
      refine ⟨running, positive, bound, inside, ?_⟩
      cases stepped
      rw [booted.loopBody_work server]
      have read : streams.thread.mess.store 0 ((streams.line server).fromServer.take count) =
          streams.readReply server count := rfl
      simp only [Distributor.replyBranch, replyAnswers, nonempty, if_false, read]
      by_cases named : 0 < (streams.readReply server count).fd.toInt
      · rw [if_pos named, if_pos named]
        refine ⟨perform_write_written _ _ _, ?_⟩
        rw [Streams.enter, foldl_perform_halted]
        exact running
      · rw [if_neg named, if_neg named]
        rfl
    · cases stepped

theorem exists_step_reply (running : streams.halted = none) {server : Fin servers} {count : ℕ}
    (positive : 0 < count) (bound : count ≤ messLen)
    (inside : count ≤ (streams.line server).fromServer.length) (moved : ℕ) :
    ∃ next, streams.step boot (.reply server count moved) = some next := by
  simp only [Streams.step]
  rw [if_neg (not_not.mpr running), if_pos ⟨positive, bound, inside⟩]
  exact ⟨_, rfl⟩

end Streams

end LoadBalance.Stream.Steering
