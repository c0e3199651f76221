import LoadBalance.Lib.Machine
import LoadBalance.Outer.Service

/-!
# What a client can do to the distributor

No client can end the distributor through what it sends, how it closes or how many
connections it keeps, as long as every `accept` which fails fails with `EAGAIN` and every
new connection can be set up and registered. A connection which is aborted before it is
accepted, or one which takes the last descriptor, lets `accept` fail otherwise, and then the
accept loop ends the process. So it does where the system has no memory for a registration.
-/

namespace LoadBalance.Outer

open Distributor (Thread Answers Call acceptLoop loopBody acceptLoop_eq_ok acceptLoop_error
  acceptLoop_fresh requestBranch_registered)
open Relay (Boot ConnId)

namespace Service

variable {servers : ℕ} {limit : ℕ}

/-- The last `accept` fails with `EAGAIN`, and every `setsockopt` and `epoll_ctl` for a new
connection succeeds. -/
def TakesAll (answers : Answers servers Byte) : Prop :=
  answers.acceptErrno = .eagain ∧ ∀ entry ∈ answers.accepted, 0 ≤ entry.2.1 ∧ entry.2.2 = 0

instance (answers : Answers servers Byte) : Decidable (TakesAll answers) :=
  inferInstanceAs (Decidable (_ ∧ _))

/-- No call of the accept loop fails, but for the `EAGAIN` which ends it. -/
def TakesClients (service : Service servers) : Event servers → Prop
  | .serve answers _ =>
      match service.events with
      | (fd, _) :: _ => fd = service.thread.listenFdOuter → TakesAll answers
      | [] => True
  | .connect _ | .send _ _ | .shutdown _ | .reset _ | .wait _ => True

instance (service : Service servers) (event : Event servers) :
    Decidable (service.TakesClients event) :=
  match event with
  | .serve answers _ =>
      match atEvents : service.events with
      | (fd, _) :: _ =>
          decidable_of_iff (fd = service.thread.listenFdOuter → TakesAll answers)
            (by simp [TakesClients, atEvents])
      | [] => decidable_of_iff True (by simp [TakesClients, atEvents])
  | .connect _ | .send _ _ | .shutdown _ | .reset _ | .wait _ => instDecidableTrue

/-- Registered are the listening socket and clients, none of which is a server, and
everything which is registered or belongs to a server is open. -/
structure Roles (service : Service servers) : Prop where
  registered : ∀ fd ∈ service.thread.interest,
    fd = service.thread.listenFdOuter ∨ service.client fd ≠ none
  interest : service.thread.interest ⊆ service.opened
  servers : service.thread.serverFdSet ⊆ service.opened
  apart : ∀ fd, service.client fd ≠ none → fd ∉ service.thread.serverFdSet

structure Sound (service : Service servers) : Prop extends service.Roles where
  running : service.halted = none
  batch : (service.events.map Prod.fst).Nodup
  waiting : ∀ entry ∈ service.events, entry.1 ∈ service.thread.interest

theorem sound_start (boot : Boot servers) : (start boot).Sound where
  registered fd fdMem := Or.inl (Finset.mem_singleton.mp fdMem)
  interest := by
    intro fd fdMem
    rw [Finset.mem_singleton.mp fdMem]
    have entry := Boot.mem_entries_of_table boot.table_listenFdOuter
    exact List.mem_toFinset.mpr (List.mem_map.mpr ⟨_, entry, rfl⟩)
  servers := by
    intro fd fdMem
    rcases (boot.mem_initInnerMon fd).mp fdMem with ⟨server, rfl⟩
    have entry := Boot.mem_entries_of_table (boot.table_work server)
    exact List.mem_toFinset.mpr (List.mem_map.mpr ⟨_, entry, rfl⟩)
  apart fd isClient := absurd rfl isClient
  running := rfl
  batch := List.nodup_nil
  waiting := by simp [start]

section Accept

variable {service accepted : Service servers} {fds : List Fd}

/-- What the successful calls of `accept` do. -/
structure Accepts (service : Service servers) (fds : List Fd) (accepted : Service servers) :
    Prop where
  thread : accepted.thread = service.thread
  events : accepted.events = service.events
  halted : accepted.halted = service.halted
  distinct : fds.Nodup
  fresh : ∀ fd ∈ fds, fd ∉ service.opened
  opened : accepted.opened = service.opened ∪ fds.toFinset
  client : ∀ fd, accepted.client fd ≠ none ↔ service.client fd ≠ none ∨ fd ∈ fds
  room : accepted.opened.card + accepted.backlog.length =
    service.opened.card + service.backlog.length
  backlog : accepted.backlog ⊆ service.backlog
  sending : ∀ conn, (accepted.conn conn).sending = (service.conn conn).sending

theorem accepts_of_run (ran : Machine.run (acceptOne limit) service fds = some accepted) :
    service.Accepts fds accepted := by
  induction fds generalizing service with
  | nil =>
      cases ran
      exact ⟨rfl, rfl, rfl, List.nodup_nil, by simp, by simp, by simp, rfl, fun _ old => old,
        fun _ => rfl⟩
  | cons fd fds ih =>
      rcases Machine.run_cons_eq_some.mp ran with ⟨next, stepped, rest⟩
      simp only [acceptOne] at stepped
      split at stepped
      · cases stepped
      · rename_i conn backlog atBacklog
        split at stepped
        · rename_i possible
          have later := ih rest
          cases stepped
          refine ⟨later.thread, later.events, later.halted, ?_, ?_, ?_, ?_, ?_, ?_, ?_⟩
          · refine List.nodup_cons.mpr ⟨?_, later.distinct⟩
            intro again
            exact later.fresh fd again (Finset.mem_insert_self _ _)
          · intro other otherMem
            rcases List.mem_cons.mp otherMem with rfl | laterMem
            · exact possible.1
            · exact fun old => later.fresh other laterMem (Finset.mem_insert_of_mem old)
          · rw [later.opened, List.toFinset_cons, Finset.union_insert]
            exact Finset.insert_union _ _ _
          · intro other
            rw [later.client, List.mem_cons]
            change Function.update service.client fd _ other ≠ none ∨ _ ↔ _
            by_cases this : other = fd
            · subst this
              simp
            · rw [Function.update_of_ne this]
              simp [this]
          · have total := later.room
            change _ = (insert fd service.opened).card + backlog.length at total
            rw [Finset.card_insert_of_notMem possible.1] at total
            rw [total, atBacklog, List.length_cons]
            omega
          · intro other otherMem
            rw [atBacklog]
            exact List.mem_cons_of_mem _ (later.backlog otherMem)
          · intro other
            rw [later.sending]
            change (Function.update service.conn conn _ other).sending = _
            by_cases this : other = conn
            · subst this
              rw [Function.update_self]
            · rw [Function.update_of_ne this]
        · cases stepped

end Accept

section Passes

variable {service next : Service servers} {events : BitVec 32} {answers : Answers servers Byte}
  {fd : Fd}

theorem Sound.serveListen (sound : service.Sound) {clientAddrLen : ℤ}
    (served : service.serveListen limit events answers clientAddrLen = some next) :
    (TakesAll answers → next.Sound) ∧
      (¬TakesAll answers → ∃ message, next.halted = some (.exit message)) := by
  simp only [Service.serveListen] at served
  split at served
  · cases served
  · rename_i accepted ran
    have accepts := accepts_of_run ran
    split at served
    · have fresh : ∀ entry ∈ answers.accepted, entry.1 ∉ service.thread.interest := by
        intro entry entryMem registered
        exact accepts.fresh entry.1 (List.mem_map_of_mem entryMem) (sound.interest registered)
      have loop := @acceptLoop_fresh _ _ answers.acceptErrno accepts.distinct fresh
      simp only [loopBody, if_true] at served
      constructor
      · intro takes
        rw [loop.mpr takes] at served
        cases served
        refine ⟨⟨?_, ?_, ?_, ?_⟩, ?_, ?_, ?_⟩
        · intro fd fdMem
          rcases Finset.mem_union.mp fdMem with old | new
          · rcases sound.registered fd old with listening | isClient
            · exact Or.inl listening
            · exact Or.inr ((accepts.client fd).mpr (Or.inl isClient))
          · exact Or.inr ((accepts.client fd).mpr (Or.inr (List.mem_toFinset.mp new)))
        · change _ ⊆ accepted.opened
          rw [accepts.opened]
          exact Finset.union_subset_union_left sound.interest
        · change _ ⊆ accepted.opened
          rw [accepts.opened]
          exact sound.servers.trans Finset.subset_union_left
        · intro fd isClient
          rcases (accepts.client fd).mp isClient with old | new
          · exact sound.apart fd old
          · exact fun isServer => accepts.fresh fd new (sound.servers isServer)
        · exact accepts.halted.trans sound.running
        · change (accepted.events.map Prod.fst).Nodup
          rw [accepts.events]
          exact sound.batch
        · intro entry entryMem
          change entry ∈ accepted.events at entryMem
          rw [accepts.events] at entryMem
          exact Finset.mem_union_left _ (sound.waiting entry entryMem)
      · intro fails
        cases accepting :
          acceptLoop service.thread.interest answers.accepted answers.acceptErrno with
        | ok registered =>
            rw [(acceptLoop_eq_ok accepting).2] at accepting
            exact absurd (loop.mp accepting) fails
        | error halt =>
            rcases acceptLoop_error accepting with ⟨message, rfl⟩
            rw [accepting] at served
            cases served
            exact ⟨message, rfl⟩
    · cases served

theorem consume_eq (service : Service servers) (fd : Fd) (events : BitVec 32)
    (readn : ReadResult Byte) :
    ∃ conn, service.consume fd events readn = { service with conn := conn } := by
  simp only [consume]
  split
  · exact ⟨service.conn, rfl⟩
  · split
    · exact ⟨_, rfl⟩
    · exact ⟨service.conn, rfl⟩

theorem close_eq (service : Service servers) (fd : Fd) :
    ∃ conn, service.close fd = { service with
      opened := service.opened.erase fd
      client := Function.update service.client fd none
      conn := conn } := by
  simp only [close]
  split
  · exact ⟨service.conn, rfl⟩
  · exact ⟨_, rfl⟩

theorem foldl_perform_of_no_close (service : Service servers) {calls : List (Call Byte)}
    (stay : ∀ other, .close other ∉ calls) : calls.foldl perform service = service := by
  induction calls with
  | nil => rfl
  | cons call calls ih =>
      cases call with
      | write other data => exact ih fun other closed => stay other (List.mem_cons_of_mem _ closed)
      | close other => exact absurd List.mem_cons_self (stay other)

theorem Sound.with_conn (sound : service.Sound) (conn : ConnId → Client) (mess : Message Byte) :
    Sound { service with conn := conn, thread := { service.thread with mess := mess } } :=
  ⟨⟨sound.registered, sound.interest, sound.servers, sound.apart⟩, sound.running, sound.batch,
    sound.waiting⟩

theorem Sound.close (sound : service.Sound) (notServer : fd ∉ service.thread.serverFdSet)
    (other : ∀ entry ∈ service.events, entry.1 ≠ fd) :
    Sound (close { service with
      thread := { service.thread with interest := service.thread.interest.erase fd } } fd) := by
  rcases close_eq { service with
    thread := { service.thread with interest := service.thread.interest.erase fd } } fd with
    ⟨conn, closed⟩
  rw [closed]
  refine ⟨⟨?_, ?_, ?_, ?_⟩, sound.running, sound.batch, ?_⟩
  · intro fd' registered
    rcases Finset.mem_erase.mp registered with ⟨apart, old⟩
    change _ ∨ Function.update service.client fd none fd' ≠ none
    rw [Function.update_of_ne apart]
    exact sound.registered fd' old
  · exact Finset.erase_subset_erase _ sound.interest
  · intro server isServer
    refine Finset.mem_erase.mpr ⟨?_, sound.servers isServer⟩
    rintro rfl
    exact notServer isServer
  · intro fd' isClient
    change Function.update service.client fd none fd' ≠ none at isClient
    by_cases this : fd' = fd
    · subst this
      simp at isClient
    · rw [Function.update_of_ne this] at isClient
      exact sound.apart fd' isClient
  · intro entry entryMem
    exact Finset.mem_erase.mpr ⟨other entry entryMem, sound.waiting entry entryMem⟩

/-- A pass for another descriptor answers a client or closes its connection. -/
theorem Sound.serveReady (sound : service.Sound) (registered : fd ∈ service.thread.interest)
    (notListening : fd ≠ service.thread.listenFdOuter)
    (other : ∀ entry ∈ service.events, entry.1 ≠ fd)
    (served : service.serveReady fd events answers = some next) : next.Sound := by
  have notServer : fd ∉ service.thread.serverFdSet :=
    sound.apart fd ((sound.registered fd registered).resolve_left notListening)
  rcases consume_eq service fd events answers.readn with ⟨conn, consumed⟩
  have kept := sound.with_conn conn
  simp only [Service.serveReady, loopBody, if_neg notListening, if_pos notServer, consumed]
    at served
  split at served
  · split at served
    · rename_i halt failed
      split at failed
      · rcases requestBranch_registered registered with ⟨mess, calls, done, _⟩ | done
        · rw [done] at failed
          cases failed
        · rw [done] at failed
          cases failed
      · cases failed
    · rename_i thread calls body
      split at body
      · rcases requestBranch_registered registered with ⟨mess, calls, done, stay⟩ | done
        · rw [done] at body
          cases body
          cases served
          rw [foldl_perform_of_no_close _ stay]
          exact kept mess
        · rw [done] at body
          cases body
          cases served
          exact (kept service.thread.mess).close notServer other
      · cases body
        cases served
        exact kept service.thread.mess
  · cases served

end Passes

section Steps

variable {service next : Service servers} {event : Event servers}

/-- The loop takes an entry of `events_`, which is registered and comes only once. -/
theorem Sound.take (sound : service.Sound) {fd : Fd} {events : BitVec 32}
    {rest : List (Fd × BitVec 32)} (atEvents : service.events = (fd, events) :: rest) :
    Sound { service with events := rest } ∧ fd ∈ service.thread.interest ∧
      ∀ entry ∈ rest, entry.1 ≠ fd := by
  have batch := sound.batch
  have waiting := sound.waiting
  rw [atEvents, List.map_cons, List.nodup_cons] at batch
  rw [atEvents, List.forall_mem_cons] at waiting
  refine ⟨⟨⟨sound.registered, sound.interest, sound.servers, sound.apart⟩, sound.running, batch.2,
    waiting.2⟩, waiting.1, ?_⟩
  intro entry entryMem same
  exact batch.1 (List.mem_map.mpr ⟨entry, entryMem, same⟩)

theorem Sound.with_clients (sound : service.Sound) (conn : ConnId → Client)
    (backlog : List ConnId) : Sound { service with conn := conn, backlog := backlog } :=
  ⟨⟨sound.registered, sound.interest, sound.servers, sound.apart⟩, sound.running, sound.batch,
    sound.waiting⟩

theorem Sound.step (sound : service.Sound) (takes : service.TakesClients event)
    (stepped : service.step limit event = some next) : next.Sound := by
  simp only [Service.step] at stepped
  rw [if_neg (not_not.mpr sound.running)] at stepped
  cases event with
  | connect conn =>
      simp only at stepped
      split at stepped
      · cases stepped
        exact sound.with_clients _ _
      · cases stepped
  | send conn bytes =>
      simp only at stepped
      split at stepped
      · cases stepped
        exact sound.with_clients _ _
      · cases stepped
  | shutdown conn =>
      simp only at stepped
      split at stepped
      · cases stepped
        exact sound.with_clients _ _
      · cases stepped
  | reset conn =>
      simp only at stepped
      split at stepped
      · cases stepped
        exact sound.with_clients _ _
      · cases stepped
  | wait ready =>
      simp only at stepped
      split at stepped
      · rename_i possible
        cases stepped
        refine ⟨⟨sound.registered, sound.interest, sound.servers, sound.apart⟩, sound.running,
          possible.2.1, ?_⟩
        intro entry entryMem
        apply possible.2.2
        exact List.mem_toFinset.mpr (List.mem_map_of_mem entryMem)
      · cases stepped
  | serve answers clientAddrLen =>
      simp only at stepped
      split at stepped
      · cases stepped
      · rename_i fd events rest atEvents
        rcases sound.take atEvents with ⟨soundRest, registered, other⟩
        simp only [TakesClients, atEvents] at takes
        split at stepped
        · rename_i listening
          exact (soundRest.serveListen stepped).1 (takes listening)
        · rename_i notListening
          exact soundRest.serveReady registered notListening other stepped

theorem Sound.exit (sound : service.Sound) (failed : ¬service.TakesClients event)
    (stepped : service.step limit event = some next) :
    ∃ message, next.halted = some (.exit message) := by
  simp only [Service.step] at stepped
  rw [if_neg (not_not.mpr sound.running)] at stepped
  cases event with
  | serve answers clientAddrLen =>
      simp only at stepped
      split at stepped
      · cases stepped
      · rename_i fd events rest atEvents
        simp only [TakesClients, atEvents, not_forall] at failed
        rcases failed with ⟨listening, failed⟩
        rw [if_pos listening] at stepped
        exact ((sound.take atEvents).1.serveListen stepped).2 failed
  | connect conn => exact absurd trivial failed
  | send conn bytes => exact absurd trivial failed
  | shutdown conn => exact absurd trivial failed
  | reset conn => exact absurd trivial failed
  | wait ready => exact absurd trivial failed

/-- No waiting connection has been aborted, and every one of them can have a descriptor, with
one to spare. -/
def Roomy (limit : ℕ) (service : Service servers) : Prop :=
  (∀ conn ∈ service.backlog, (service.conn conn).sending ≠ .reset) ∧
    service.opened.card + service.backlog.length < limit

/-- The system lacks nothing: `accept` fails only for what the clients do, for the limit of
the process or for its arguments, and the other calls succeed. -/
def Unfailing (answers : Answers servers Byte) : Prop :=
  answers.acceptErrno ∈ [.eagain, .emfile, .econnaborted, .other einval] ∧
    ∀ entry ∈ answers.accepted, 0 ≤ entry.2.1 ∧ entry.2.2 = 0

theorem Roomy.takesClients (roomy : service.Roomy limit) {answers : Answers servers Byte}
    (unfailing : Unfailing answers) {clientAddrLen : ℤ} (known : 0 ≤ clientAddrLen)
    (stepped : service.step limit (.serve answers clientAddrLen) = some next) :
    service.TakesClients (.serve answers clientAddrLen) := by
  simp only [Service.step] at stepped
  split at stepped
  · cases stepped
  · split at stepped
    · cases stepped
    · rename_i fd events rest atEvents
      simp only [TakesClients, atEvents]
      intro listening
      refine ⟨?_, unfailing.2⟩
      simp only [if_pos listening, serveListen] at stepped
      split at stepped
      · cases stepped
      · rename_i accepted ran
        have accepts := accepts_of_run ran
        split at stepped
        · rename_i fails
          have room := accepts.room
          change _ = service.opened.card + service.backlog.length at room
          have few := roomy.2
          have reasons := unfailing.1
          simp only [List.mem_cons, List.not_mem_nil, or_false] at reasons
          rcases reasons with again | full | aborted | invalid
          · exact again
          · rw [full] at fails
            have atLimit : limit ≤ accepted.opened.card := fails
            omega
          · rw [aborted] at fails
            rcases fails with ⟨conn, connMem, reset⟩
            rw [accepts.sending] at reset
            exact absurd reset (roomy.1 conn (accepts.backlog connMem))
          · rw [invalid] at fails
            exact absurd known (not_le.mpr (fails rfl).2)
        · cases stepped

end Steps

/--
In every run in which `accept` fails only with `EAGAIN` and every new connection can be set up
and registered, the distributor neither exits nor fails an assertion, whatever the clients
do. A step in which another call of the accept loop fails ends it. While no waiting
connection is aborted, descriptors are left and the system lacks nothing, none can fail.
-/
theorem survives_of_takesClients {boot : Boot servers} {events : List (Event servers)}
    {final : Service servers}
    (guarded : Machine.RunsUnder (step limit) TakesClients (start boot) events final) :
    final.halted = none ∧
      (∀ event next, final.step limit event = some next → ¬final.TakesClients event →
        ∃ message, next.halted = some (.exit message)) ∧
      (final.Roomy limit → ∀ answers clientAddrLen next, Unfailing answers → 0 ≤ clientAddrLen →
        final.step limit (.serve answers clientAddrLen) = some next →
          final.TakesClients (.serve answers clientAddrLen)) := by
  have sound : final.Sound := by
    apply guarded.invariant Sound
    · exact fun kept takes stepped => kept.step takes stepped
    · exact sound_start boot
  refine ⟨sound.running, ?_, ?_⟩
  · exact fun _ _ stepped failed => sound.exit failed stepped
  · exact fun roomy _ _ _ unfailing known stepped => roomy.takesClients unfailing known stepped

def listenAnswers (accepted : List Fd) (acceptErrno : Errno) : Answers 1 Byte where
  accepted := accepted.map fun fd => (fd, 0, 0)
  acceptErrno := acceptErrno
  readn := .error .eagain
  index := Boot.server
  writen := 0

def clientAnswers (readn : ReadResult Byte) : Answers 1 Byte where
  accepted := []
  acceptErrno := .eagain
  readn := readn
  index := Boot.server
  writen := messLen

/-- A client sends a request and aborts when it is accepted as descriptor 8. -/
theorem survives_of_takesClients_sample :
    ∃ final, Machine.RunsUnder (step 1024) TakesClients (start Boot.single)
        [.connect 0, .wait [(6, EPOLLIN)], .serve (listenAnswers [8] .eagain) 16,
          .send 0 (List.replicate normalLen 0), .wait [(8, EPOLLIN)],
          .serve (clientAnswers (.data (List.replicate normalLen 0))) 16, .reset 0,
          .wait [(8, EPOLLIN)], .serve (clientAnswers (.error .econnreset)) 16] final ∧
      final.client 8 = none ∧ final.halted = none := by
  have ran := @Machine.RunsUnder.exists_of_any _ _ (step 1024) TakesClients _
    (start Boot.single)
    [.connect 0, .wait [(6, EPOLLIN)], .serve (listenAnswers [8] .eagain) 16,
      .send 0 (List.replicate normalLen 0), .wait [(8, EPOLLIN)],
      .serve (clientAnswers (.data (List.replicate normalLen 0))) 16, .reset 0,
      .wait [(8, EPOLLIN)], .serve (clientAnswers (.error .econnreset)) 16]
    (fun final => decide (final.client 8 = none)) (by decide +kernel)
  rcases ran with ⟨final, guarded, shown⟩
  exact ⟨final, guarded, of_decide_eq_true shown, (survives_of_takesClients guarded).1⟩

/-- The distributor ends when a client aborts before it is accepted, and when one more client
connects than there are descriptors. -/
theorem halted_of_aborted_or_full :
    (∃ final, Machine.run (step 1024) (start Boot.single)
        [.connect 0, .reset 0, .wait [(6, EPOLLIN)],
          .serve (listenAnswers [] .econnaborted) 16] = some final ∧
      final.halted = some (.exit "accept outer")) ∧
    ∃ final, Machine.run (step 9) (start Boot.single)
        [.connect 0, .connect 1, .wait [(6, EPOLLIN)],
          .serve (listenAnswers [8] .emfile) 16] = some final ∧
      final.halted = some (.exit "accept outer") := by
  have aborted := @Machine.exists_run_of_any _ _ (step 1024) (start Boot.single)
    [.connect 0, .reset 0, .wait [(6, EPOLLIN)], .serve (listenAnswers [] .econnaborted) 16]
    (fun final => decide (final.halted = some (.exit "accept outer"))) (by decide +kernel)
  have full := @Machine.exists_run_of_any _ _ (step 9) (start Boot.single)
    [.connect 0, .connect 1, .wait [(6, EPOLLIN)], .serve (listenAnswers [8] .emfile) 16]
    (fun final => decide (final.halted = some (.exit "accept outer"))) (by decide +kernel)
  rcases aborted with ⟨first, firstRan, firstShown⟩
  rcases full with ⟨second, secondRan, secondShown⟩
  exact ⟨⟨first, firstRan, of_decide_eq_true firstShown⟩,
    ⟨second, secondRan, of_decide_eq_true secondShown⟩⟩

end Service

end LoadBalance.Outer
