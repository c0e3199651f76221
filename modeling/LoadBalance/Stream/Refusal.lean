import LoadBalance.Stream.Steering

/-!
# What a refused request leaves behind

The distributor answers `err_res` when its `write` to an inner server does not take the
whole message. What the `write` has taken stays in the stream of this server, which then
does not consist of whole messages any more. The loop is handed the descriptors which are
registered, so none of the inner servers' sockets. The inner servers may go on when it has
ended.
-/

namespace LoadBalance.Stream.Refusal

open Distributor (Thread Answers Call loopBody acceptLoop acceptLoop_eq_ok requestBranch)
open Relay (Boot)
open Steering (Streams)

/-- A request for which `write` to an inner server was called. -/
structure Handled (servers : ℕ) where
  server : Fin servers
  message : List Byte
  /-- The client was answered `err_res`. -/
  refused : Bool
deriving DecidableEq

structure Forwards (servers : ℕ) where
  streams : Streams servers Byte
  /-- The bytes which an inner server has read. -/
  taken : Fin servers → List Byte
  /-- The messages for which an inner server has called `do_something`. -/
  executed : Fin servers → List (List Byte)
  /-- The requests which were handled, in order. -/
  handled : List (Handled servers)

inductive Event (servers : ℕ) where
  /-- The listening socket or a client is handed to the loop. -/
  | pass (fd : Fd) (answers : Answers servers Byte)
  | serverRead (server : Fin servers) (count : ℕ)
  /-- The server's `write` moves `count` bytes, and the loop does not look at the result. -/
  | serverWrite (server : Fin servers) (count : ℕ)

variable {servers : ℕ}

/-- `write` to an inner server fails or takes any part of the message, a client's `read` moves
at most a request, and `accept` returns descriptors which are not open. -/
def Possible (boot : Boot servers) (answers : Answers servers Byte) : Prop :=
  (-1 ≤ answers.writen ∧ answers.writen ≤ messLen) ∧
    (match answers.readn with
      | .data bytes => bytes.length ≤ normalLen
      | .error _ => True) ∧
    ∀ entry ∈ answers.accepted, boot.table entry.1 = none

instance (boot : Boot servers) (answers : Answers servers Byte) :
    Decidable (Possible boot answers) :=
  match readn : answers.readn with
  | .data bytes =>
      decidable_of_iff ((-1 ≤ answers.writen ∧ answers.writen ≤ messLen) ∧
        bytes.length ≤ normalLen ∧ ∀ entry ∈ answers.accepted, boot.table entry.1 = none)
        (by simp [Possible, readn])
  | .error _ =>
      decidable_of_iff ((-1 ≤ answers.writen ∧ answers.writen ≤ messLen) ∧
        ∀ entry ∈ answers.accepted, boot.table entry.1 = none) (by simp [Possible, readn])

/-- The request which a pass has handled, from its calls. -/
def handledBy (boot : Boot servers) : List (Call Byte) → Option (Handled servers)
  | .write work message :: rest =>
      match boot.table work with
      | some (.work server) => some {
          server
          message
          refused := rest.any fun call => match call with
            | .write _ data => data = errRes
            | .close _ => false }
      | _ => none
  | _ => none

namespace Forwards

def start (boot : Boot servers) (garbage : Fin servers → Message Byte) : Forwards servers where
  streams := .start boot garbage
  taken _ := []
  executed _ := []
  handled := []

def pass (boot : Boot servers) (forwards : Forwards servers) (fd : Fd)
    (answers : Answers servers Byte) : Forwards servers :=
  let result := loopBody forwards.streams.thread fd EPOLLIN answers
  { forwards with
    streams := forwards.streams.enter boot answers.writen.toNat result
    handled := forwards.handled ++ match result with
      | .error _ => []
      | .ok (_, calls) => (handledBy boot calls).toList }

def step (boot : Boot servers) (forwards : Forwards servers) (event : Event servers) :
    Option (Forwards servers) :=
  match event with
  | .pass fd answers =>
      if forwards.streams.halted = none ∧ fd ∈ forwards.streams.thread.interest ∧
          Possible boot answers then
        some (forwards.pass boot fd answers)
      else none
  | .serverRead server count =>
      let line := forwards.streams.line server
      (line.serve count).map fun after =>
        { forwards with
          streams := forwards.streams.setLine server after
          taken := Function.update forwards.taken server
            (forwards.taken server ++ line.toServer.take count)
          executed := Function.update forwards.executed server
            (forwards.executed server ++ line.works count) }
  | .serverWrite server count =>
      let line := forwards.streams.line server
      if 0 < count ∧ count ≤ line.echo.length then
        some { forwards with
          streams := forwards.streams.setLine server { line with
            echo := []
            fromServer := line.fromServer ++ line.echo.take count } }
      else none

/-- All bytes which have entered the stream to a server. -/
def entered (forwards : Forwards servers) (server : Fin servers) : List Byte :=
  forwards.taken server ++ (forwards.streams.line server).toServer

/-- The messages to a server whose requests were not refused. -/
def accepted (forwards : Forwards servers) (server : Fin servers) : List (List Byte) :=
  (forwards.handled.filter fun entry => entry.server = server ∧ entry.refused = false).map
    Handled.message

/-- The streams to the servers consist of whole messages, which are those of the requests that
were not refused, and every server has executed the first of them. -/
structure Intact (forwards : Forwards servers) : Prop where
  whole : ∀ server, ∀ message ∈ forwards.accepted server, message.length = messLen
  entered : ∀ server, forwards.entered server = (forwards.accepted server).flatten
  executed : ∀ server, ∃ pending,
    forwards.executed server ++ pending = forwards.accepted server ∧
      (forwards.streams.line server).toServer = pending.flatten

/-- A `write` to an inner server takes all or nothing, and a `read` of an inner server moves a
whole message. -/
def Atomic (forwards : Forwards servers) : Event servers → Prop
  | .pass fd answers =>
      match answers.readn with
      | .data bytes => fd ≠ forwards.streams.thread.listenFdOuter → bytes.length = normalLen →
          answers.writen ≤ 0 ∨ answers.writen = messLen
      | .error _ => True
  | .serverRead _ count => count = messLen
  | .serverWrite _ _ => True

instance (forwards : Forwards servers) (event : Event servers) :
    Decidable (forwards.Atomic event) :=
  match event with
  | .pass fd answers =>
      match readn : answers.readn with
      | .data bytes =>
          decidable_of_iff (fd ≠ forwards.streams.thread.listenFdOuter →
            bytes.length = normalLen → answers.writen ≤ 0 ∨ answers.writen = messLen)
            (by simp [Atomic, readn])
      | .error _ => decidable_of_iff True (by simp [Atomic, readn])
  | .serverRead _ _ => inferInstanceAs (Decidable (_ = _))
  | .serverWrite _ _ => instDecidableTrue

section Passes

variable {boot : Boot servers} {forwards next : Forwards servers} {fd : Fd}
  {answers : Answers servers Byte}

/-- The tables are those of the start, and registered are the listening socket and clients. -/
structure Sound (boot : Boot servers) (forwards : Forwards servers) : Prop where
  booted : forwards.streams.Booted boot
  clients : ∀ fd ∈ forwards.streams.thread.interest,
    fd = boot.listenFdOuter ∨ boot.table fd = none

def Forwarding (forwards : Forwards servers) (fd : Fd) (answers : Answers servers Byte) : Prop :=
  fd ≠ forwards.streams.thread.listenFdOuter ∧
    ∃ buf, answers.readn = .data buf ∧ buf.length = normalLen

theorem atomic_pass_iff :
    forwards.Atomic (.pass fd answers) ↔
      (forwards.Forwarding fd answers → answers.writen ≤ 0 ∨ answers.writen = messLen) := by
  simp only [Atomic, Forwarding]
  split
  · rename_i bytes received
    simp [received]
  · rename_i errno received
    simp [received]

/-- What a pass does to the streams to the servers and to the requests. -/
inductive Passed (forwards : Forwards servers) (fd : Fd) (answers : Answers servers Byte)
    (next : Forwards servers) : Prop where
  | quiet (nothing : ¬forwards.Forwarding fd answers)
      (line : next.streams.line = forwards.streams.line)
      (handled : next.handled = forwards.handled)
  | forward (server : Fin servers) (message : List Byte)
      (forwarding : forwards.Forwarding fd answers) (size : message.length = messLen)
      (line : next.streams.line =
        Function.update forwards.streams.line server { forwards.streams.line server with
          toServer := (forwards.streams.line server).toServer ++
            message.take answers.writen.toNat })
      (handled : next.handled =
        forwards.handled ++ [⟨server, message, decide (answers.writen ≠ messLen)⟩])

theorem Sound.booted_pass (sound : forwards.Sound boot) (fd : Fd)
    (answers : Answers servers Byte) :
    (forwards.pass boot fd answers).streams.Booted boot :=
  sound.booted.enter _ fun _ _ served => Distributor.loopBody_tables served

theorem pass_thread {thread : Thread servers Byte} {calls : List (Call Byte)}
    (served : loopBody forwards.streams.thread fd EPOLLIN answers = .ok (thread, calls)) :
    (forwards.pass boot fd answers).streams.thread = thread := by
  rw [pass, served]
  exact Streams.foldl_perform_thread _ _

theorem Sound.pass_listen (sound : forwards.Sound boot)
    (listening : fd = forwards.streams.thread.listenFdOuter)
    (possible : Possible boot answers) :
    (forwards.pass boot fd answers).Sound boot ∧
      forwards.Passed fd answers (forwards.pass boot fd answers) := by
  have nothing : ¬forwards.Forwarding fd answers := fun forwarding => forwarding.1 listening
  cases accepting : acceptLoop forwards.streams.thread.interest answers.accepted
      answers.acceptErrno with
  | error halt =>
      have failed : loopBody forwards.streams.thread fd EPOLLIN answers = .error halt := by
        simp only [loopBody, if_pos listening, accepting]
      refine ⟨⟨sound.booted_pass fd answers, ?_⟩, .quiet nothing ?_ ?_⟩
      · rw [pass, failed]
        exact sound.clients
      · rw [pass, failed]
        rfl
      · rw [pass, failed]
        exact List.append_nil _
  | ok interest =>
      have served : loopBody forwards.streams.thread fd EPOLLIN answers =
          .ok ({ forwards.streams.thread with interest := interest }, []) :=
        Distributor.loopBody_listen listening accepting
      refine ⟨⟨sound.booted_pass fd answers, ?_⟩, .quiet nothing ?_ ?_⟩
      · intro other otherMem
        rw [pass_thread served] at otherMem
        change other ∈ interest at otherMem
        rw [(acceptLoop_eq_ok accepting).2, Finset.mem_union, List.mem_toFinset] at otherMem
        rcases otherMem with old | new
        · exact sound.clients other old
        · rcases List.mem_map.mp new with ⟨entry, entryMem, rfl⟩
          exact Or.inr (possible.2.2 entry entryMem)
      · rw [pass, served]
        rfl
      · rw [pass, served]
        exact List.append_nil _

theorem Sound.pass_client (sound : forwards.Sound boot)
    (registered : fd ∈ forwards.streams.thread.interest)
    (notListening : fd ≠ forwards.streams.thread.listenFdOuter) :
    (forwards.pass boot fd answers).Sound boot ∧
      forwards.Passed fd answers (forwards.pass boot fd answers) := by
  have unknown : boot.table fd = none := by
    apply (sound.clients fd registered).resolve_left
    rw [← sound.booted.listenFdOuter]
    exact notListening
  have branch : loopBody forwards.streams.thread fd EPOLLIN answers =
      requestBranch forwards.streams.thread fd answers :=
    Distributor.loopBody_client notListening Distributor.readable_EPOLLIN
      (sound.booted.notMem_serverFdSet unknown)
  by_cases request : ∃ buf, answers.readn = .data buf ∧ buf.length = normalLen
  · rcases request with ⟨buf, received, whole⟩
    rcases @Distributor.requestBranch_whole _ _ _ forwards.streams.thread fd _ _ received whole
      with ⟨mess, _, served⟩
    have inner : forwards.streams.thread.serversInner = boot.serversInner :=
      congrArg (fun tables => tables.2.2) sound.booted
    have work := boot.table_work answers.index
    have size : (fdBytes fd ++ buf).length = messLen := by
      rw [List.length_append, length_fdBytes, whole]
      rfl
    rw [← branch, inner] at served
    refine ⟨⟨sound.booted_pass fd answers, ?_⟩,
      .forward answers.index (fdBytes fd ++ buf) ⟨notListening, buf, received, whole⟩ size ?_ ?_⟩
    · rw [pass_thread served]
      exact sound.clients
    · simp only [pass, branch]
      exact sound.booted.enter_request unknown received whole
    · by_cases all : answers.writen = messLen
      · simp [pass, served, handledBy, work, all]
      · simp [pass, served, handledBy, work, all]
  · have quiet : ∀ buf, answers.readn = .data buf → buf.length ≠ normalLen :=
      fun buf received whole => request ⟨buf, received, whole⟩
    have nothing : ¬forwards.Forwarding fd answers := fun forwarding => request forwarding.2
    rcases Distributor.requestBranch_no_request registered quiet with served | served
    · rw [← branch] at served
      refine ⟨⟨sound.booted_pass fd answers, ?_⟩, .quiet nothing ?_ ?_⟩
      · rw [pass_thread served]
        exact sound.clients
      · simp [pass, served, Streams.enter, Streams.perform, unknown]
      · simp [pass, served, handledBy, unknown]
    · rw [← branch] at served
      refine ⟨⟨sound.booted_pass fd answers, ?_⟩, .quiet nothing ?_ ?_⟩
      · rw [pass_thread served]
        exact fun other otherMem => sound.clients other (Finset.mem_of_mem_erase otherMem)
      · simp [pass, served, Streams.enter, Streams.perform]
      · simp [pass, served, handledBy]

theorem Sound.pass (sound : forwards.Sound boot)
    (registered : fd ∈ forwards.streams.thread.interest) (possible : Possible boot answers) :
    (forwards.pass boot fd answers).Sound boot ∧
      forwards.Passed fd answers (forwards.pass boot fd answers) := by
  by_cases listening : fd = forwards.streams.thread.listenFdOuter
  · exact sound.pass_listen listening possible
  · exact sound.pass_client registered listening

end Passes

section Effects

variable {boot : Boot servers} {forwards next : Forwards servers} {fd : Fd}
  {answers : Answers servers Byte}

/-- A step after which the streams to the servers and the accepted messages are the same. -/
theorem Intact.of_same (intact : forwards.Intact)
    (toServer : ∀ server,
      (next.streams.line server).toServer = (forwards.streams.line server).toServer)
    (taken : next.taken = forwards.taken) (executed : next.executed = forwards.executed)
    (accepted : ∀ server, next.accepted server = forwards.accepted server) : next.Intact := by
  refine ⟨?_, ?_, ?_⟩
  · intro server
    rw [accepted]
    exact intact.whole server
  · intro server
    rw [Forwards.entered, taken, toServer, accepted]
    exact intact.entered server
  · intro server
    rw [executed, toServer, accepted]
    exact intact.executed server

theorem accepted_of_handled (handled : next.handled = forwards.handled) (server : Fin servers) :
    next.accepted server = forwards.accepted server := by
  rw [accepted, handled, accepted]

theorem accepted_append {entry : Handled servers}
    (handled : next.handled = forwards.handled ++ [entry]) (server : Fin servers) :
    next.accepted server = forwards.accepted server ++
      if entry.server = server ∧ entry.refused = false then [entry.message] else [] := by
  rw [accepted, handled, List.filter_append, List.map_append, accepted]
  by_cases this : entry.server = server ∧ entry.refused = false
  · simp [this]
  · simp [this]

theorem Intact.accept (intact : forwards.Intact) {server : Fin servers} {message : List Byte}
    (size : message.length = messLen)
    (line : next.streams.line = Function.update forwards.streams.line server
      { forwards.streams.line server with
        toServer := (forwards.streams.line server).toServer ++ message })
    (taken : next.taken = forwards.taken) (executed : next.executed = forwards.executed)
    (handled : next.handled = forwards.handled ++ [⟨server, message, false⟩]) :
    next.Intact := by
  have here : next.accepted server = forwards.accepted server ++ [message] := by
    rw [accepted_append handled]
    simp
  have elsewhere : ∀ other, other ≠ server →
      next.streams.line other = forwards.streams.line other ∧
        next.accepted other = forwards.accepted other := by
    intro other apart
    rw [line, Function.update_of_ne apart, accepted_append handled]
    simp [Ne.symm apart]
  refine ⟨?_, ?_, ?_⟩
  · intro other
    by_cases same : other = server
    · subst same
      intro entry entryMem
      rw [here, List.mem_append, List.mem_singleton] at entryMem
      rcases entryMem with old | rfl
      · exact intact.whole other entry old
      · exact size
    · rw [(elsewhere other same).2]
      exact intact.whole other
  · intro other
    by_cases same : other = server
    · subst same
      have before := intact.entered other
      simp only [Forwards.entered] at before ⊢
      rw [taken, line, Function.update_self, ← List.append_assoc, before, here,
        List.flatten_append]
      simp
    · rw [Forwards.entered, taken, (elsewhere other same).1, (elsewhere other same).2]
      exact intact.entered other
  · intro other
    rcases intact.executed other with ⟨pending, split, left⟩
    by_cases same : other = server
    · subst same
      refine ⟨pending ++ [message], ?_, ?_⟩
      · rw [executed, ← List.append_assoc, split, here]
      · rw [line, Function.update_self, List.flatten_append, ← left]
        simp
    · refine ⟨pending, ?_, ?_⟩
      · rw [executed, split, (elsewhere other same).2]
      · rw [(elsewhere other same).1, left]

/-- A request was refused, and a part of its message has entered the stream: this part is
empty exactly if the streams still consist of the accepted messages. -/
theorem Intact.refuse_iff (intact : forwards.Intact) {server : Fin servers}
    {message part : List Byte}
    (line : next.streams.line = Function.update forwards.streams.line server
      { forwards.streams.line server with
        toServer := (forwards.streams.line server).toServer ++ part })
    (taken : next.taken = forwards.taken) (executed : next.executed = forwards.executed)
    (handled : next.handled = forwards.handled ++ [⟨server, message, true⟩]) :
    next.Intact ↔ part = [] := by
  have accepted : ∀ other, next.accepted other = forwards.accepted other := by
    intro other
    rw [accepted_append handled]
    simp
  constructor
  · intro intactNext
    have after := intactNext.entered server
    rw [accepted, ← intact.entered, Forwards.entered, taken, line, Function.update_self,
      ← List.append_assoc] at after
    exact List.append_right_eq_self.mp after
  · rintro rfl
    apply intact.of_same _ taken executed accepted
    intro other
    by_cases same : other = server
    · subst same
      rw [line, Function.update_self, List.append_nil]
    · rw [line, Function.update_of_ne same]

/-- A pass keeps the streams whole exactly if the `write` in it is all or nothing. -/
theorem Passed.intact_iff (intact : forwards.Intact) (passed : forwards.Passed fd answers next)
    (taken : next.taken = forwards.taken) (executed : next.executed = forwards.executed) :
    next.Intact ↔ forwards.Atomic (.pass fd answers) := by
  rw [atomic_pass_iff]
  cases passed with
  | quiet nothing line handled =>
      apply iff_of_true
      · exact intact.of_same (fun server => by rw [line]) taken executed
          (accepted_of_handled handled)
      · exact fun forwarding => absurd forwarding nothing
  | forward server message forwarding size line handled =>
      rw [forall_prop_of_true forwarding]
      by_cases all : answers.writen = messLen
      · apply iff_of_true
        · have whole : message.take answers.writen.toNat = message := by
            apply List.take_of_length_le
            rw [all, size, Int.toNat_natCast]
          rw [whole] at line
          apply intact.accept size line taken executed
          rw [handled]
          simp [all]
        · exact Or.inr all
      · have refused : next.handled = forwards.handled ++ [⟨server, message, true⟩] := by
          rw [handled]
          simp [all]
        rw [intact.refuse_iff line taken executed refused, List.take_eq_nil_iff, or_iff_left all]
        constructor
        · rintro (zero | empty)
          · omega
          · rw [empty] at size
            cases size
        · intro failed
          exact Or.inl (Int.toNat_of_nonpos failed)

theorem Intact.serverRead_iff (intact : forwards.Intact) {server : Fin servers} {count : ℕ}
    (stepped : forwards.step boot (.serverRead server count) = some next) :
    next.Intact ↔ count = messLen := by
  rcases Option.map_eq_some_iff.mp stepped with ⟨after, served, rfl⟩
  rcases Line.serve_eq_some served with ⟨_, positive, _, inside, rfl⟩
  have works := Line.works_eq positive inside
  rcases intact.executed server with ⟨pending, split, left⟩
  constructor
  · intro intactNext
    by_contra short
    rcases intactNext.executed server with ⟨pendingNext, splitNext, leftNext⟩
    simp only [Function.update_self, Streams.setLine_line] at splitNext leftNext
    rw [works, if_neg short, List.append_nil] at splitNext
    -- The same messages are still to be executed, with fewer bytes in the stream.
    have same : pendingNext = pending := by
      apply @List.append_cancel_left _ (forwards.executed server)
      exact splitNext.trans split.symm
    rw [same, ← left] at leftNext
    have size := congrArg List.length leftNext
    rw [List.length_drop] at size
    omega
  · intro whole
    cases pending with
    | nil =>
        rw [left] at inside
        simp at inside
        omega
    | cons message rest =>
        have size : message.length = messLen := by
          apply intact.whole server
          rw [← split]
          simp
        have read : (forwards.streams.line server).toServer.take count = message := by
          rw [left, List.flatten_cons, whole, ← size, List.take_left]
        have kept : (forwards.streams.line server).toServer.drop count = rest.flatten := by
          rw [left, List.flatten_cons, whole, ← size, List.drop_left]
        refine ⟨intact.whole, ?_, ?_⟩
        · intro other
          by_cases here : other = server
          · subst here
            simp only [Forwards.entered, Function.update_self, Streams.setLine_line]
            rw [List.append_assoc, List.take_append_drop]
            exact intact.entered other
          · simp only [Forwards.entered, Function.update_of_ne here, Streams.setLine_line]
            exact intact.entered other
        · intro other
          by_cases here : other = server
          · subst here
            refine ⟨rest, ?_, ?_⟩
            · simp only [Function.update_self]
              rw [works, if_pos whole, read, List.append_assoc]
              exact split
            · simp only [Function.update_self, Streams.setLine_line]
              exact kept
          · simp only [Function.update_of_ne here, Streams.setLine_line]
            exact intact.executed other

theorem Intact.serverWrite (intact : forwards.Intact) {server : Fin servers} {count : ℕ}
    (stepped : forwards.step boot (.serverWrite server count) = some next) : next.Intact := by
  simp only [step] at stepped
  split at stepped
  · cases stepped
    apply intact.of_same
    · intro other
      by_cases here : other = server
      · subst here
        simp only [Streams.setLine_line, Function.update_self]
      · simp only [Streams.setLine_line, Function.update_of_ne here]
    · rfl
    · rfl
    · exact accepted_of_handled rfl
  · cases stepped

theorem Sound.step (sound : forwards.Sound boot) {event : Event servers}
    (stepped : forwards.step boot event = some next) : next.Sound boot := by
  cases event with
  | pass fd answers =>
      simp only [Forwards.step] at stepped
      split at stepped
      · rename_i guard
        cases stepped
        exact (sound.pass guard.2.1 guard.2.2).1
      · cases stepped
  | serverRead server count =>
      rcases Option.map_eq_some_iff.mp stepped with ⟨after, _, rfl⟩
      exact ⟨sound.booted, sound.clients⟩
  | serverWrite server count =>
      simp only [Forwards.step] at stepped
      split at stepped
      · cases stepped
        exact ⟨sound.booted, sound.clients⟩
      · cases stepped

theorem Sound.intact_iff (sound : forwards.Sound boot) (intact : forwards.Intact)
    {event : Event servers} (stepped : forwards.step boot event = some next) :
    next.Intact ↔ forwards.Atomic event := by
  cases event with
  | pass fd answers =>
      simp only [Forwards.step] at stepped
      split at stepped
      · rename_i guard
        cases stepped
        exact (sound.pass guard.2.1 guard.2.2).2.intact_iff intact rfl rfl
      · cases stepped
  | serverRead server count => exact intact.serverRead_iff stepped
  | serverWrite server count => exact iff_of_true (intact.serverWrite stepped) trivial

end Effects

section Runs

variable {boot : Boot servers} {garbage : Fin servers → Message Byte}

theorem sound_start : (start boot garbage).Sound boot := by
  refine ⟨Streams.booted_start boot garbage, ?_⟩
  intro fd fdMem
  exact Or.inl (Finset.mem_singleton.mp fdMem)

theorem intact_start : (start boot garbage).Intact := by
  refine ⟨?_, ?_, ?_⟩
  · intro server message messageMem
    cases messageMem
  · exact fun _ => rfl
  · exact fun _ => ⟨[], rfl, rfl⟩

/-- If every `write` to an inner server takes all or nothing and every `read` there moves a
whole message, a refused request leaves nothing behind. The first `write` which takes a part
of a message ends this, and so does the first `read` of one. -/
theorem intact_of_atomic {events : List (Event servers)} {final : Forwards servers}
    (guarded : Machine.RunsUnder (step boot) Atomic (start boot garbage) events final) :
    final.Intact ∧ ∀ event next, final.step boot event = some next →
      (next.Intact ↔ final.Atomic event) := by
  have holds : final.Sound boot ∧ final.Intact := by
    apply guarded.invariant fun forwards => forwards.Sound boot ∧ forwards.Intact
    · intro forwards event next held atomic stepped
      exact ⟨held.1.step stepped, (held.1.intact_iff held.2 stepped).mpr atomic⟩
    · exact ⟨sound_start, intact_start⟩
  refine ⟨holds.2, ?_⟩
  intro event next stepped
  exact holds.1.intact_iff holds.2 stepped

/-- The only client is accepted as descriptor 8. -/
def accepting : Event 1 := .pass Boot.single.listenFdOuter {
  accepted := [(8, 0, 0)]
  acceptErrno := .eagain
  readn := .error .eagain
  index := Boot.server
  writen := 0 }

/-- The message for a request which repeats one byte. -/
def message (byte : Byte) : List Byte := fdBytes 8 ++ List.replicate normalLen byte

/-- The client's request repeats one byte, and the `write` to the server returns `writen`. -/
def requesting (byte : Byte) (writen : ℤ) : Event 1 := .pass 8 {
  accepted := []
  acceptErrno := .eagain
  readn := .data (List.replicate normalLen byte)
  index := Boot.server
  writen := writen }

/-- A request which is refused, and one which the server executes. -/
theorem intact_of_atomic_sample :
    ∃ final, Machine.RunsUnder (step Boot.single) Atomic
        (start Boot.single fun _ => .zero)
        [accepting, requesting 1 (-1), requesting 2 messLen, .serverRead Boot.server messLen]
        final ∧
      final.executed Boot.server = [message 2] ∧ final.Intact := by
  have ran := @Machine.RunsUnder.exists_of_any _ _ (step Boot.single) Atomic _
    (start Boot.single fun _ => .zero)
    [accepting, requesting 1 (-1), requesting 2 messLen, .serverRead Boot.server messLen]
    (fun final => decide (final.executed Boot.server = [message 2])) (by decide +kernel)
  rcases ran with ⟨final, guarded, shown⟩
  exact ⟨final, guarded, of_decide_eq_true shown, (intact_of_atomic guarded).1⟩

/-- Of the first request 7 bytes are taken, and its client is answered `err_res`. The server
executes them, together with the first 13 bytes of the second request. -/
theorem executes_refused_of_short_write :
    ∃ final, Machine.Reachable (step Boot.single) (start Boot.single fun _ => .zero) final ∧
      final.handled = [⟨Boot.server, message 1, true⟩, ⟨Boot.server, message 2, false⟩] ∧
      final.executed Boot.server = [(message 1).take 7 ++ (message 2).take 13] ∧
      ¬final.Intact := by
  have reached := @Machine.exists_reachable_of_any _ _ (step Boot.single)
    (start Boot.single fun _ => .zero)
    [accepting, requesting 1 7, requesting 2 messLen, .serverRead Boot.server messLen]
    (fun final => decide (
      final.handled = [⟨Boot.server, message 1, true⟩, ⟨Boot.server, message 2, false⟩] ∧
      final.executed Boot.server = [(message 1).take 7 ++ (message 2).take 13] ∧
      final.entered Boot.server ≠ (final.accepted Boot.server).flatten)) (by decide +kernel)
  rcases reached with ⟨final, reachable, shown⟩
  rcases of_decide_eq_true shown with ⟨handled, executed, remains⟩
  exact ⟨final, reachable, handled, executed, fun intact => remains (intact.entered Boot.server)⟩

end Runs

end Forwards

end LoadBalance.Stream.Refusal
