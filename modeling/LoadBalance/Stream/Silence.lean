import Mathlib.Algebra.Order.BigOperators.Group.Finset
import Mathlib.Data.Fintype.BigOperators
import LoadBalance.Stream.Blocking

/-!
# The echoes which nobody reads

The connections to the inner servers are not registered, so that what the inner servers write
back stays in the buffers. The buffers are finite, and so is the work which is ever done.
-/

namespace LoadBalance.Distributor

variable {servers : ℕ} {α : Type*} {thread next : Thread servers α} {fd : Fd}
  {events : BitVec 32} {answers : Answers servers α} {calls : List (Call α)}

theorem closeConnect_interest (closed : closeConnect thread fd = .ok (next, calls)) :
    next.interest ⊆ thread.interest := by
  unfold closeConnect at closed
  split at closed
  · cases closed
    exact Finset.erase_subset _ _
  · cases closed

variable [Cell α]

theorem requestBranch_interest (served : requestBranch thread fd answers = .ok (next, calls)) :
    next.interest ⊆ thread.interest := by
  unfold requestBranch at served
  split at served
  · split at served
    · exact closeConnect_interest served
    · cases served
      exact Finset.Subset.refl _
  · split at served
    · exact closeConnect_interest served
    · split at served
      · cases served
        exact Finset.Subset.refl _
      · cases served
        exact Finset.Subset.refl _

theorem replyBranch_interest (served : replyBranch thread answers = .ok (next, calls)) :
    next.interest ⊆ thread.interest := by
  unfold replyBranch at served
  split at served
  · cases served
  · split at served
    · cases served
    · simp only at served
      split at served
      · cases served
        exact Finset.Subset.refl _
      · cases served

/-- A pass registers what it has accepted and nothing else. -/
theorem mem_interest_of_loopBody (served : loopBody thread fd events answers = .ok (next, calls))
    {other : Fd} (registered : other ∈ next.interest) :
    other ∈ thread.interest ∨ ∃ entry ∈ answers.accepted, entry.1 = other := by
  unfold loopBody at served
  split at served
  · split at served
    · cases served
    · rename_i interest accepting
      cases served
      rw [(acceptLoop_eq_ok accepting).2, Finset.mem_union, List.mem_toFinset, List.mem_map]
        at registered
      exact registered
  · split at served
    · split at served
      · exact .inl (requestBranch_interest served registered)
      · exact .inl (replyBranch_interest served registered)
    · cases served
      exact .inl registered

end LoadBalance.Distributor

namespace LoadBalance.Stream.Blocking

open Relay (Boot)

variable {servers : ℕ}

/-- The inner server reads a whole message, and so works on one. -/
def Event.worksOn (server : Fin servers) : Event servers → Bool
  | .serverRead other count => other = server ∧ count = messLen
  | _ => false

/-- The bytes which the distributor's `write` moves. -/
def Event.pushed : Event servers → ℕ
  | .push count => count
  | _ => 0

/-- A `read` of an inner server moves a whole message. -/
def Event.ReadsWhole : Event servers → Prop
  | .serverRead _ count => count = messLen
  | _ => True

namespace Wires

variable {boot : Boot servers} {capacity : Capacity servers} {wires next : Wires servers}

/-- Only a registered descriptor is handed to the loop, and `accept` returns none which has
been open from the start. -/
def Reported (boot : Boot servers) (wires : Wires servers) : Event servers → Prop
  | .pass fd answers =>
      fd ∈ wires.thread.interest ∧ ∀ entry ∈ answers.accepted, boot.table entry.1 = none
  | .reply server _ => (boot.serversInner server).1 ∈ wires.thread.interest
  | .push _ | .serverRead _ _ | .serverPush _ _ => True

instance (boot : Boot servers) (wires : Wires servers) :
    ∀ event : Event servers, Decidable (wires.Reported boot event)
  | .pass _ _ => inferInstanceAs (Decidable (_ ∧ _))
  | .reply _ _ => inferInstanceAs (Decidable (_ ∈ _))
  | .push _ | .serverRead _ _ | .serverPush _ _ => inferInstanceAs (Decidable True)

/-- No connection to an inner server is registered. -/
def Deaf (boot : Boot servers) (wires : Wires servers) : Prop :=
  ∀ fd ∈ wires.thread.interest, fd = boot.listenFdOuter ∨ boot.table fd = none

theorem Deaf.not_reported (deaf : wires.Deaf boot) (server : Fin servers) (count : ℕ) :
    ¬wires.Reported boot (.reply server count) := by
  intro registered
  have isWork := boot.table_work server
  rcases deaf _ registered with listening | closed
  · rw [listening, boot.table_listenFdOuter] at isWork
    cases isWork
  · rw [closed] at isWork
    cases isWork

theorem Deaf.enter {fd : Fd} {answers : Distributor.Answers servers Byte}
    (deaf : wires.Deaf boot) (closed : ∀ entry ∈ answers.accepted, boot.table entry.1 = none) :
    (wires.enter boot (Distributor.loopBody wires.thread fd EPOLLIN answers)).Deaf boot := by
  cases served : Distributor.loopBody wires.thread fd EPOLLIN answers with
  | error halt => exact deaf
  | ok value =>
      intro other registered
      rcases Distributor.mem_interest_of_loopBody served registered with
        old | ⟨entry, entryMem, rfl⟩
      · exact deaf other old
      · exact .inr (closed entry entryMem)

/-- A pass leaves the buffers alone. -/
theorem exists_of_pass {fd : Fd} {answers : Distributor.Answers servers Byte}
    (stepped : wires.step boot capacity (.pass fd answers) = some next) :
    next = wires.enter boot (Distributor.loopBody wires.thread fd EPOLLIN answers) := by
  simp only [step] at stepped
  split at stepped
  · cases stepped
  · split at stepped
    · cases stepped
      rfl
    · cases stepped

/-- The steps which are possible with what `epoll_wait` reports: there is no reply. -/
inductive Quiet (boot : Boot servers) (capacity : Capacity servers) (wires : Wires servers) :
    Event servers → Wires servers → Prop where
  | pass (fd : Fd) (answers : Distributor.Answers servers Byte) (next : Wires servers)
      (lines : next.line = wires.line) (deaf : next.Deaf boot) :
      Quiet boot capacity wires (.pass fd answers) next
  | push (server : Fin servers) (rest : List Byte) (count : ℕ)
      (writing : Option (Fin servers × List Byte)) (inside : count ≤ rest.length)
      (fits : (wires.line server).toServer.length + count ≤ capacity.toServer server) :
      Quiet boot capacity wires (.push count) ({ wires with writing }.setLine server
        { wires.line server with toServer := (wires.line server).toServer ++ rest.take count })
  | read (server : Fin servers) (count : ℕ) (line : Line Byte)
      (served : (wires.line server).serve count = some line) :
      Quiet boot capacity wires (.serverRead server count) (wires.setLine server line)
  | echoed (server : Fin servers) (count : ℕ) (inside : count ≤ (wires.line server).echo.length)
      (fits : (wires.line server).fromServer.length + count ≤ capacity.fromServer server) :
      Quiet boot capacity wires (.serverPush server count) (wires.setLine server
        { wires.line server with
          echo := (wires.line server).echo.drop count
          fromServer := (wires.line server).fromServer ++ (wires.line server).echo.take count })

theorem quiet_of_step {event : Event servers} (deaf : wires.Deaf boot)
    (reported : wires.Reported boot event) (stepped : wires.step boot capacity event = some next) :
    Quiet boot capacity wires event next := by
  cases event with
  | pass fd answers =>
      rw [exists_of_pass stepped]
      exact .pass fd answers _ (enter_line _) (deaf.enter reported.2)
  | reply server count => exact absurd reported (deaf.not_reported server count)
  | push count =>
      simp only [step] at stepped
      split at stepped
      · cases stepped
      · split at stepped
        · cases stepped
        · rename_i server rest writing
          split at stepped
          · rename_i possible
            cases stepped
            exact .push server rest count _ possible.2.1 possible.2.2
          · cases stepped
  | serverRead server count =>
      simp only [step] at stepped
      split at stepped
      · cases stepped
      · rcases Option.map_eq_some_iff.mp stepped with ⟨line, served, rfl⟩
        exact .read server count line served
  | serverPush server count =>
      simp only [step] at stepped
      split at stepped
      · cases stepped
      · split at stepped
        · rename_i possible
          cases stepped
          exact .echoed server count possible.2.1 possible.2.2
        · cases stepped

/-- What has been worked on is in the second half of the connection, whatever the sizes of the
reads. -/
structure Unheard (boot : Boot servers) (capacity : Capacity servers) (past : List (Event servers))
    (wires : Wires servers) : Prop where
  deaf : wires.Deaf boot
  worked : ∀ server, messLen * past.countP (Event.worksOn server) =
    (wires.line server).echo.length + (wires.line server).fromServer.length
  short : ∀ server, (wires.line server).echo.length ≤ messLen
  toServer : ∀ server, (wires.line server).toServer.length ≤ capacity.toServer server
  fromServer : ∀ server, (wires.line server).fromServer.length ≤ capacity.fromServer server

theorem unheard_start (boot : Boot servers) (capacity : Capacity servers)
    (garbage : Fin servers → Message Byte) :
    Unheard boot capacity [] (start boot garbage) where
  deaf := fun _ registered => .inl (Finset.mem_singleton.mp registered)
  worked := fun _ => rfl
  short := fun _ => Nat.zero_le _
  toServer := fun _ => Nat.zero_le _
  fromServer := fun _ => Nat.zero_le _

theorem countP_concat {α : Type*} (test : α → Bool) (past : List α) (event : α) :
    (past ++ [event]).countP test = past.countP test + if test event then 1 else 0 := by
  rw [List.countP_append, List.countP_singleton]

/-- A step changes the line of one server. What is shown of the new line holds of all. -/
theorem Unheard.setLine {past : List (Event servers)} {event : Event servers}
    (unheard : Unheard boot capacity past wires) (server : Fin servers) (line : Line Byte)
    (others : ∀ other, other ≠ server → event.worksOn other = false)
    (worked : line.echo.length + line.fromServer.length = (wires.line server).echo.length +
      (wires.line server).fromServer.length + if event.worksOn server then messLen else 0)
    (short : line.echo.length ≤ messLen)
    (toServer : line.toServer.length ≤ capacity.toServer server)
    (fromServer : line.fromServer.length ≤ capacity.fromServer server) :
    Unheard boot capacity (past ++ [event]) (wires.setLine server line) where
  deaf := unheard.deaf
  worked := by
    intro other
    have before := unheard.worked other
    rw [countP_concat, Nat.mul_add]
    by_cases same : other = server
    · subst same
      simp only [setLine_line, Function.update_self, worked]
      split
      · omega
      · omega
    · simpa [same, others other same] using before
  short := Family.forall_update (fun _ (value : Line Byte) => value.echo.length ≤ messLen)
    unheard.short short
  toServer := Family.forall_update (fun other (value : Line Byte) =>
    value.toServer.length ≤ capacity.toServer other) unheard.toServer toServer
  fromServer := Family.forall_update (fun other (value : Line Byte) =>
    value.fromServer.length ≤ capacity.fromServer other) unheard.fromServer fromServer

theorem Unheard.quiet {past : List (Event servers)} {event : Event servers}
    (unheard : Unheard boot capacity past wires) (quiet : Quiet boot capacity wires event next) :
    Unheard boot capacity (past ++ [event]) next := by
  cases quiet with
  | pass fd answers _ lines deaf =>
      refine ⟨deaf, ?_, ?_, ?_, ?_⟩
      · intro server
        rw [lines, countP_concat]
        exact unheard.worked server
      · exact lines ▸ unheard.short
      · exact lines ▸ unheard.toServer
      · exact lines ▸ unheard.fromServer
  | push server rest count writing inside fits =>
      have before : Unheard boot capacity past { wires with writing } :=
        ⟨unheard.deaf, unheard.worked, unheard.short, unheard.toServer, unheard.fromServer⟩
      apply before.setLine server
      · exact fun _ _ => rfl
      · rfl
      · exact unheard.short server
      · rw [List.length_append, List.length_take]
        omega
      · exact unheard.fromServer server
  | read server count line served =>
      rcases Line.serve_eq_some served with ⟨idle, positive, bound, inside, rfl⟩
      have echoed : (if count = messLen then (wires.line server).toServer.take count
          else []).length = if count = messLen then messLen else 0 := by
        split
        · rw [List.length_take]
          omega
        · rfl
      apply unheard.setLine server
      · intro other different
        simp [Event.worksOn, different.symm]
      · simp only [echoed, idle, Event.worksOn, true_and, decide_eq_true_eq, List.length_nil]
        omega
      · simp only [echoed]
        split
        · exact le_rfl
        · exact Nat.zero_le _
      · exact (List.length_drop.trans_le (Nat.sub_le _ _)).trans (unheard.toServer server)
      · exact unheard.fromServer server
  | echoed server count inside fits =>
      apply unheard.setLine server
      · exact fun _ _ => rfl
      · simp only [List.length_append, List.length_take, List.length_drop, Event.worksOn,
          Bool.false_eq_true, if_false]
        omega
      · exact (List.length_drop.trans_le (Nat.sub_le _ _)).trans (unheard.short server)
      · exact unheard.toServer server
      · rw [List.length_append, List.length_take]
        omega

/-- The bytes on both halves of a connection, and those which the server is writing. -/
def load (line : Line Byte) : ℕ :=
  line.toServer.length + line.echo.length + line.fromServer.length

theorem sum_load_setLine (wires : Wires servers) {server : Fin servers} {line : Line Byte}
    {count : ℕ} (loaded : load line = load (wires.line server) + count) :
    ∑ other, load ((wires.setLine server line).line other) =
      (∑ other, load (wires.line other)) + count := by
  have sums := Family.sum_update_add load wires.line server line
  simp only [setLine_line]
  omega

/-- With whole reads, every byte which was moved to an inner server is still there. -/
theorem Quiet.sum_load {event : Event servers} (quiet : Quiet boot capacity wires event next)
    (whole : event.ReadsWhole) :
    ∑ server, load (next.line server) = (∑ server, load (wires.line server)) + event.pushed := by
  cases quiet with
  | pass fd answers _ lines deaf =>
      rw [lines]
      rfl
  | push server rest count writing inside fits =>
      apply sum_load_setLine { wires with writing }
      simp only [load, Event.pushed, List.length_append, List.length_take]
      omega
  | read server count line served =>
      rcases Line.serve_eq_some served with ⟨idle, positive, bound, inside, rfl⟩
      apply sum_load_setLine
      have isWhole : count = messLen := whole
      simp only [load, Event.pushed, if_pos isWhole, List.length_take, List.length_drop, idle,
        List.length_nil]
      omega
  | echoed server count inside fits =>
      apply sum_load_setLine
      simp only [load, Event.pushed, List.length_append, List.length_take, List.length_drop]
      omega

/--
When the loop is run with the descriptors which `epoll_wait` reports, an inner server works
on no more messages than one and those which fit into the buffer behind it, whatever the
clients send. If the reads of the inner servers are whole, the distributor writes no more
than fits into all buffers and one message more for each server.
-/
theorem works_le_of_reported {garbage : Fin servers → Message Byte} {events : List (Event servers)}
    (guarded : Machine.RunsUnder (step boot capacity) (Reported boot) (start boot garbage)
      events wires) :
    (∀ server, events.countP (Event.worksOn server) ≤
        capacity.fromServer server / messLen + 1) ∧
      ((∀ event ∈ events, event.ReadsWhole) → (events.map Event.pushed).sum ≤
        ∑ server, (capacity.toServer server + messLen + capacity.fromServer server)) := by
  have both := guarded.history_invariant (fun past state => Unheard boot capacity past state ∧
      ((∀ event ∈ past, event.ReadsWhole) →
        ∑ server, load (state.line server) = (past.map Event.pushed).sum))
    (fun {past state event next} before reported stepped => by
      have quiet := quiet_of_step before.1.deaf reported stepped
      refine ⟨before.1.quiet quiet, ?_⟩
      intro whole
      rw [List.forall_mem_append, List.forall_mem_singleton] at whole
      rw [quiet.sum_load whole.2, before.2 whole.1, List.map_append, List.sum_append,
        List.map_singleton, List.sum_singleton])
    ⟨unheard_start boot capacity garbage, fun _ => by simp [load, start]⟩
  rcases both with ⟨unheard, loads⟩
  constructor
  · intro server
    have worked := unheard.worked server
    have short := unheard.short server
    have fromServer := unheard.fromServer server
    have positive : 0 < messLen := by decide
    rw [← Nat.add_div_right _ positive, Nat.le_div_iff_mul_le positive, Nat.mul_comm]
    omega
  · intro whole
    rw [← loads whole]
    apply Finset.sum_le_sum
    intro server _
    have toServer := unheard.toServer server
    have short := unheard.short server
    have fromServer := unheard.fromServer server
    rw [load]
    omega

/-- The requests of the burst, of which two are worked on. -/
theorem works_le_of_reported_burst :
    (∃ wires, Machine.RunsUnder (step Boot.single oneMessage) (Reported Boot.single)
        (start Boot.single fun _ => .zero) burst wires) ∧
      burst.countP (Event.worksOn Boot.server) = 2 ∧
      (burst.map Event.pushed).sum = 3 * messLen ∧
      burst.countP (Event.worksOn Boot.server) ≤
        oneMessage.fromServer Boot.server / messLen + 1 := by
  rcases Machine.RunsUnder.exists_of_any burst
    (show (Machine.run (Machine.RunsUnder.guarded (step Boot.single oneMessage)
      (Reported Boot.single)) (start Boot.single fun _ => .zero) burst).any
        (fun _ => true) = true by decide +kernel) with ⟨wires, guarded, _⟩
  exact ⟨⟨wires, guarded⟩, by decide, by decide, (works_le_of_reported guarded).1 Boot.server⟩

end Wires

end LoadBalance.Stream.Blocking
