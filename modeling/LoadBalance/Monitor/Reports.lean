import LoadBalance.Lib.Family
import LoadBalance.Lib.Machine
import LoadBalance.Monitor.Polls

/-!
# One report is one tick's

What the distributor charges a server with has been published by one tick of this
server's `Procmon`, and is the answer to the request of the same round. The bytes which
are on their way to the distributor are always the answers which it has not read, and
there is at most one of them.
-/

universe u

namespace LoadBalance.Monitor

open Layout (Image)
open Machine (Reachable)

variable {R : Type u} {servers : ℕ}

namespace Link

/-- The answer which is in `send_for_mon` and not yet written. -/
def unwritten (link : Link R) : List Byte :=
  match link.servePc with
  | .answering => link.sendForMon
  | .reading | .asked | .exited _ => []

def inFlight (link : Link R) : List Byte := link.toDistributor ++ link.unwritten

def unanswered (link : Link R) : ℕ :=
  link.toServer.length + if link.servePc = .asked then 1 else 0

section Move

variable [Double R] [Image R Byte]

/-- What a step of a server can do. -/
inductive Move (link : Link R) : Link R → Prop where
  /-- The background thread works out usages or keeps its readings. -/
  | ticks (pm : Procmon R) (tickPc : TickPc R) (same : pm.current = link.pm.current) :
      Move link { link with pm, tickPc }
  | publishes (usage : Usage R) (tickPc : TickPc R) :
      Move link { link with
        pm := link.pm.publish usage
        tickPc
        published := link.published ++ [usage] }
  | takes (byte : Byte) (rest : List Byte) (reading : link.servePc = .reading)
      (arrived : link.toServer = byte :: rest) :
      Move link { link with servePc := .asked, toServer := rest }
  | answers (asked : link.servePc = .asked) :
      Move link { link with
        servePc := .answering
        sendForMon := pack link.sendForMon link.pm.getStat
        answers := link.answers ++ [link.pm.current] }
  | writes (answering : link.servePc = .answering) :
      Move link { link with
        servePc := .reading
        toDistributor := link.toDistributor ++ link.sendForMon.take (reportLen R) }
  /-- The server ends itself, and may have written a part of its answer. -/
  | leaves (halt : Halt) (part : List Byte) (unasked : link.servePc ≠ .asked)
      (fits : part <+: link.unwritten) :
      Move link { link with
        servePc := .exited halt
        toDistributor := link.toDistributor ++ part }

omit [Double R] in
/-- The server ends itself without a `write`. -/
theorem Move.ends {link : Link R} (halt : Halt) (unasked : link.servePc ≠ .asked) :
    link.Move { link with servePc := .exited halt } := by
  have left : link.Move { link with
      servePc := .exited halt
      toDistributor := link.toDistributor ++ [] } :=
    .leaves halt [] unasked List.nil_prefix
  rwa [List.append_nil] at left

theorem move_of_step {link next : Link R} {event : LinkEvent R}
    (stepped : link.step event = some next) : link.Move next := by
  cases event with
  | tick snapshot =>
      simp only [step] at stepped
      split at stepped
      · split at stepped
        · cases stepped
          exact .ticks link.pm link.tickPc rfl
        · split at stepped
          · cases stepped
            exact .ticks _ _ rfl
          · cases stepped
            exact .ticks link.pm _ rfl
      · cases stepped
      · cases stepped
  | publish =>
      simp only [step] at stepped
      split at stepped
      · cases stepped
        exact .publishes _ _
      · cases stepped
      · cases stepped
  | keep =>
      simp only [step] at stepped
      split at stepped
      · cases stepped
        exact .ticks _ _ rfl
      · cases stepped
      · cases stepped
  | read readn =>
      simp only [step] at stepped
      have leaving : link.servePc = .reading → ∀ halt,
          link.Move { link with servePc := .exited halt } := by
        intro reading halt
        exact .ends halt (by simp [reading])
      split at stepped
      · rename_i reading
        cases stepped
        exact leaving reading _
      · rename_i bytes reading
        split at stepped
        · cases stepped
          exact leaving reading _
        · rename_i first rest arrived
          split at stepped
          · cases stepped
            exact .takes _ _ reading arrived
          · cases stepped
        · cases stepped
      · cases stepped
  | getStat =>
      simp only [step] at stepped
      split at stepped
      · rename_i asked
        cases stepped
        exact .answers asked
      · cases stepped
      · cases stepped
      · cases stepped
  | write writen =>
      simp only [step] at stepped
      split at stepped
      · rename_i answering
        cases stepped
        exact .ends _ (by simp [answering])
      · rename_i count answering
        split at stepped
        · cases stepped
        · by_cases full : count = reportLen R
          · simp only [full, if_true] at stepped
            cases stepped
            exact .writes answering
          · simp only [full, if_false] at stepped
            cases stepped
            apply Move.leaves
            · simp [answering]
            · simp only [unwritten, answering]
              exact List.take_prefix _ _
      · cases stepped

/-- What holds of a server whatever the distributor does. -/
structure Kept (link : Link R) : Prop where
  current : link.pm.current ∈ Usage.zero :: link.published
  answers : ∀ usage ∈ link.answers, usage ∈ Usage.zero :: link.published
  buffer : link.sendForMon.length = reportLen R
  requests : link.sent = link.answers.length + link.unanswered

theorem kept_start (kClockTicksPerSecond : ℤ) (lastUpData : UpData R) :
    (start kClockTicksPerSecond lastUpData).Kept where
  current := List.mem_singleton_self _
  answers := by simp [start]
  buffer := List.length_replicate
  requests := rfl

theorem Kept.move {link next : Link R} (kept : link.Kept) (moved : link.Move next) :
    next.Kept := by
  cases moved with
  | ticks pm tickPc same => exact ⟨same ▸ kept.current, kept.answers, kept.buffer, kept.requests⟩
  | publishes usage tickPc =>
      refine ⟨by simp, ?_, kept.buffer, kept.requests⟩
      intro answer answerMem
      have before := kept.answers answer answerMem
      rw [List.mem_cons] at before ⊢
      exact before.imp_right (List.mem_append_left _)
  | takes byte rest reading arrived =>
      refine ⟨kept.current, kept.answers, kept.buffer, ?_⟩
      have before := kept.requests
      simp only [unanswered, reading, arrived, List.length_cons] at before ⊢
      simpa using before
  | answers asked =>
      refine ⟨kept.current, ?_, ?_, ?_⟩
      · intro answer answerMem
        rw [List.mem_append, List.mem_singleton] at answerMem
        rcases answerMem with old | rfl
        · exact kept.answers answer old
        · exact kept.current
      · change (pack _ _).length = _
        rw [pack_getStat link.pm kept.buffer, Usage.length_bytes]
      · have before := kept.requests
        simp only [unanswered, asked, if_true] at before
        simp only [unanswered, List.length_append, List.length_singleton, reduceCtorEq, if_false]
        omega
  | writes answering =>
      refine ⟨kept.current, kept.answers, kept.buffer, ?_⟩
      have before := kept.requests
      simp only [unanswered, answering, reduceCtorEq, if_false] at before ⊢
      exact before
  | leaves halt part unasked fits =>
      refine ⟨kept.current, kept.answers, kept.buffer, ?_⟩
      have before := kept.requests
      simp only [unanswered, unasked, reduceCtorEq, if_false] at before ⊢
      exact before

/-- The bytes of the answers which the distributor has not used. -/
def unread (link : Link R) (used : List (Usage R)) : List Byte :=
  (link.answers.drop used.length).flatMap Usage.bytes

/-- The stream to the distributor carries the answers which it has not used, and there is
room for at most this many. A server which has ended may not have written all of it. -/
structure Aligned (link : Link R) (used : List (Usage R)) (room : ℕ) : Prop where
  fits : link.inFlight <+: link.unread used
  whole : (∀ halt, link.servePc ≠ .exited halt) → link.inFlight = link.unread used
  sent : link.sent ≤ used.length + room

theorem aligned_start (kClockTicksPerSecond : ℤ) (lastUpData : UpData R) :
    (start kClockTicksPerSecond lastUpData).Aligned [] 0 where
  fits := List.nil_prefix
  whole _ := rfl
  sent := Nat.zero_le _

omit [Double R] in
theorem Aligned.of_whole {link : Link R} {used : List (Usage R)} {room : ℕ}
    (whole : link.inFlight = link.unread used) (sent : link.sent ≤ used.length + room) :
    link.Aligned used room where
  fits := whole ▸ List.prefix_rfl
  whole _ := whole
  sent := sent

theorem Aligned.move {link next : Link R} {used : List (Usage R)} {room : ℕ}
    (aligned : link.Aligned used room) (kept : link.Kept) (answered : used <+: link.answers)
    (moved : link.Move next) : next.Aligned used room := by
  cases moved with
  | ticks pm tickPc same => exact ⟨aligned.fits, aligned.whole, aligned.sent⟩
  | publishes usage tickPc => exact ⟨aligned.fits, aligned.whole, aligned.sent⟩
  | takes byte rest reading arrived =>
      have before := aligned.whole (by simp [reading])
      simp only [inFlight, unwritten, reading] at before
      exact .of_whole before aligned.sent
  | answers asked =>
      have before := aligned.whole (by simp [asked])
      simp only [inFlight, unwritten, asked, List.append_nil] at before
      apply Aligned.of_whole
      · change link.toDistributor ++ pack link.sendForMon link.pm.getStat = _
        rw [before, pack_getStat link.pm kept.buffer]
        simp [unread, List.drop_append_of_le_length answered.length_le]
      · exact aligned.sent
  | writes answering =>
      have before := aligned.whole (by simp [answering])
      simp only [inFlight, unwritten, answering] at before
      apply Aligned.of_whole
      · change link.toDistributor ++ link.sendForMon.take (reportLen R) ++ [] = _
        rw [← kept.buffer, List.take_length, List.append_nil, before]
        rfl
      · exact aligned.sent
  | leaves halt part unasked fits =>
      refine ⟨?_, ?_, aligned.sent⟩
      · change link.toDistributor ++ part ++ [] <+: link.unread used
        rw [List.append_nil]
        exact ((List.prefix_append_right_inj _).mpr fits).trans aligned.fits
      · intro running
        exact absurd rfl (running halt)

theorem Kept.request {link : Link R} (kept : link.Kept) (byte : Byte) :
    Kept { link with toServer := link.toServer ++ [byte], sent := link.sent + 1 } where
  current := kept.current
  answers := kept.answers
  buffer := kept.buffer
  requests := by
    have before := kept.requests
    simp only [unanswered, List.length_append, List.length_singleton] at before ⊢
    omega

omit [Double R] in
theorem Aligned.request {link : Link R} {used : List (Usage R)} (aligned : link.Aligned used 0)
    (byte : Byte) :
    Aligned { link with toServer := link.toServer ++ [byte], sent := link.sent + 1 } used 1 where
  fits := aligned.fits
  whole := aligned.whole
  sent := Nat.succ_le_succ aligned.sent

/-- The distributor reads a report: it is the one answer which it has not used, and the
stream is empty behind it. -/
theorem Aligned.read {link : Link R} {used : List (Usage R)} {bytes : List Byte}
    (aligned : link.Aligned used 1) (kept : link.Kept) (answered : used <+: link.answers)
    (arrived : bytes <+: link.toDistributor) (full : bytes.length = reportLen R) :
    ∃ usage, bytes = usage.bytes ∧ used ++ [usage] = link.answers ∧
      Aligned { link with toDistributor := link.toDistributor.drop bytes.length }
        (used ++ [usage]) 0 := by
  have positive : 0 < reportLen R := Nat.mul_pos (by decide) Image.size_pos
  rcases answered with ⟨rest, split⟩
  have few : rest.length ≤ 1 := by
    have lengths := congrArg List.length split
    have sent := aligned.sent
    have requests := kept.requests
    rw [List.length_append] at lengths
    omega
  have fits : link.toDistributor ++ link.unwritten <+: rest.flatMap Usage.bytes := by
    have before := aligned.fits
    rwa [unread, ← split, List.drop_left] at before
  have lengths := fits.length_le
  have inside := arrived.length_le
  rw [List.length_append] at lengths
  match rest, split, few, fits, lengths with
  | [], _, _, _, lengths =>
      simp only [List.flatMap_nil, List.length_nil] at lengths
      omega
  | [usage], split, _, fits, lengths =>
      simp only [List.flatMap_cons, List.flatMap_nil, List.append_nil, Usage.length_bytes]
        at fits lengths
      have whole : link.toDistributor = usage.bytes := by
        apply ((List.prefix_append _ _).trans fits).eq_of_length
        rw [Usage.length_bytes]
        omega
      have same : bytes = usage.bytes := by
        rw [whole] at arrived
        exact arrived.eq_of_length (full.trans (Usage.length_bytes usage).symm)
      have nothing : link.unwritten = [] := by
        apply List.eq_nil_of_length_eq_zero
        omega
      refine ⟨usage, same, split, Aligned.of_whole ?_ ?_⟩
      · change link.toDistributor.drop bytes.length ++ link.unwritten =
          (link.answers.drop (used ++ [usage]).length).flatMap Usage.bytes
        rw [nothing, List.append_nil, ← split, List.drop_length, List.drop_eq_nil_of_le]
        · rfl
        · rw [whole, same]
      · have sent := aligned.sent
        rwa [List.length_append, List.length_singleton]
  | _ :: _ :: _, _, few, _, _ =>
      simp only [List.length_cons] at few
      omega

end Move

end Link

namespace Pc

/-- The server at which the loop is. -/
def index? : Pc → Option ℕ
  | .asking i | .waiting i => some i
  | .writing => some 0
  | .exited _ => none

/-- The requests to a server which may be without their answer. -/
def room (pc : Pc) (i : ℕ) : ℕ := if pc = .waiting i then 1 else 0

@[simp]
theorem room_asking (index i : ℕ) : (asking index).room i = 0 := if_neg nofun

@[simp]
theorem room_waiting_self (i : ℕ) : (waiting i).room i = 1 := if_pos rfl

theorem room_waiting_of_ne {index i : ℕ} (apart : i ≠ index) : (waiting index).room i = 0 := by
  apply if_neg
  intro same
  exact apart (waiting.inj same).symm

end Pc

namespace Polls

section Reports

variable [Double R]

/-- Every server has been charged `k` times, those before `i` once more. -/
def Rounds (state : Polls servers R) (k i : ℕ) : Prop :=
  ∀ j : Fin servers, (state.used j).length = k + if (j : ℕ) < i then 1 else 0

/-- The variables which the distributor has for a server come from the triples which it has
used, the weight from the last one. -/
def Charged (state : Polls servers R) (i : Fin servers) : Prop :=
  state.cpuUsage i = (state.used i).map Usage.cpu ∧
    state.memoryUsage i = (state.used i).map Usage.memory ∧
    state.ioUsage i = (state.used i).map Usage.io ∧
    state.p i = ((state.used i).getLast?.map Usage.weight).getD (uniform servers)

/--
The triple which is charged to a server in a round is its answer to the request of this
round, and each of its answers is what one tick has published, or the zeros before.
-/
structure Reported (state : Polls servers R) : Prop where
  answered : ∀ i, state.used i <+: (state.link i).answers
  single : ∀ i, ∀ usage ∈ (state.link i).answers,
    usage ∈ Usage.zero :: (state.link i).published
  requests : ∀ i, (state.link i).answers.length + (state.link i).unanswered = (state.link i).sent
  outstanding : ∀ i, (state.link i).sent ≤ (state.used i).length + 1
  charged : ∀ i, state.Charged i
  rounds : ∃ k i, state.Rounds k i

end Reports

section Moves

variable [Double R] [Image R Byte]

/-- What a step of a server or of the distributor can do. -/
inductive Move [NeZero servers] (state : Polls servers R) : Polls servers R → Prop where
  | server (i : Fin servers) (link : Link R) (moved : (state.link i).Move link) :
      Move state { state with link := Function.update state.link i link }
  | asks (i : Fin servers) (written : Bool) (atPc : state.pc = .asking i) :
      Move state (state.ask i written)
  | fails (index : ℕ) (atPc : state.pc = .waiting index) :
      Move state { state with pc := .exited (.exit "mon read <> 3*sizeof(double)") }
  | receives (i : Fin servers) (bytes : List Byte) (atPc : state.pc = .waiting i)
      (short : bytes.length ≤ reportLen R) (arrived : bytes <+: (state.link i).toDistributor) :
      Move state (state.receive i bytes)
  | sets (index : ℕ) (atPc : state.pc = .asking index) (asked : servers ≤ index) :
      Move state { state with d := state.p }.nextPass
  | writes (atPc : state.pc = .writing) :
      Move state { state with pc := .exited (.exit "finished!!") }

theorem move_of_step [NeZero servers] {state next : Polls servers R} {event : Event servers R}
    (stepped : state.step event = some next) : state.Move next := by
  cases event with
  | server i event =>
      simp only [Polls.step, Option.map_eq_some_iff] at stepped
      rcases stepped with ⟨link, stepped, rfl⟩
      exact .server i link (Link.move_of_step stepped)
  | ask written =>
      simp only [Polls.step] at stepped
      split at stepped
      · rename_i index atPc
        split at stepped
        · rename_i bound
          cases stepped
          exact .asks ⟨index, bound⟩ written atPc
        · cases stepped
      all_goals cases stepped
  | receive readn =>
      simp only [Polls.step] at stepped
      split at stepped
      · rename_i index errno atPc
        cases stepped
        exact .fails index atPc
      · rename_i index bytes atPc
        split at stepped
        · rename_i bound
          split at stepped
          · rename_i possible
            cases stepped
            exact .receives ⟨index, bound⟩ bytes atPc possible.1 possible.2
          · cases stepped
        · cases stepped
      · cases stepped
  | setDistribution =>
      simp only [Polls.step] at stepped
      split at stepped
      · rename_i index atPc
        split at stepped
        · cases stepped
        · rename_i asked
          cases stepped
          exact .sets index atPc (not_lt.mp asked)
      all_goals cases stepped
  | writeUsage =>
      simp only [Polls.step] at stepped
      split at stepped
      · rename_i atPc
        cases stepped
        exact .writes atPc
      all_goals cases stepped

end Moves

section Invariant

variable [Double R] [Image R Byte]

structure Sound (state : Polls servers R) : Prop where
  kept : ∀ i, (state.link i).Kept
  answered : ∀ i, state.used i <+: (state.link i).answers
  outstanding : ∀ i, (state.link i).sent ≤ (state.used i).length + 1
  charged : ∀ i, state.Charged i
  rounds : ∃ k i, state.Rounds k i ∧ ∀ j, state.pc.index? = some j → i = j
  aligned : (∀ halt, state.pc ≠ .exited halt) →
    ∀ i, (state.link i).Aligned (state.used i) (state.pc.room i)
  received : state.received.length = reportLen R

theorem Sound.reported {state : Polls servers R} (sound : state.Sound) : state.Reported where
  answered := sound.answered
  single i := (sound.kept i).answers
  requests i := (sound.kept i).requests.symm
  outstanding := sound.outstanding
  charged := sound.charged
  rounds := by
    rcases sound.rounds with ⟨k, i, rounds, _⟩
    exact ⟨k, i, rounds⟩

theorem sound_start (clock : Fin servers → ℤ) (lastUpData : Fin servers → UpData R) :
    (start fun i => Link.start (clock i) (lastUpData i) : Polls servers R).Sound where
  kept i := Link.kept_start _ _
  answered i := List.prefix_rfl
  outstanding i := Nat.zero_le _
  charged i := ⟨rfl, rfl, rfl, rfl⟩
  rounds := by
    refine ⟨0, 0, ?_, ?_⟩
    · intro j
      simp [start]
    · intro j here
      exact Option.some.inj here
  aligned _ i := Link.aligned_start _ _
  received := List.length_replicate

section Step

variable {state : Polls servers R} {i : Fin servers}

theorem Sound.server (sound : state.Sound) {next : Link R} (moved : (state.link i).Move next) :
    Sound { state with link := Function.update state.link i next } := by
  have more : (state.link i).answers <+: next.answers := by
    cases moved with
    | answers asked => exact List.prefix_append _ _
    | ticks | publishes | takes | writes | leaves => exact List.prefix_rfl
  have sameSent : next.sent = (state.link i).sent := by
    cases moved <;> rfl
  refine ⟨?_, ?_, ?_, sound.charged, sound.rounds, ?_, sound.received⟩
  · exact Family.forall_update (fun _ (link : Link R) => link.Kept) sound.kept
      ((sound.kept i).move moved)
  · exact Family.forall_update (fun j (link : Link R) => state.used j <+: link.answers)
      sound.answered ((sound.answered i).trans more)
  · exact Family.forall_update
      (fun j (link : Link R) => link.sent ≤ (state.used j).length + 1) sound.outstanding
      (sameSent ▸ sound.outstanding i)
  · intro running
    have before := sound.aligned running
    exact Family.forall_update
      (fun j (link : Link R) => link.Aligned (state.used j) (state.pc.room j)) before
      ((before i).move (sound.kept i) (sound.answered i) moved)

theorem Sound.exit (sound : state.Sound) {halt : Halt} {link : Fin servers → Link R}
    {received : List Byte} (kept : ∀ j, (link j).Kept)
    (sameAnswers : ∀ j, (link j).answers = (state.link j).answers)
    (sameSent : ∀ j, (link j).sent = (state.link j).sent)
    (full : received.length = reportLen R) :
    Sound { state with link, received, pc := .exited halt } := by
  refine ⟨kept, ?_, ?_, sound.charged, ?_, ?_, full⟩
  · intro j
    rw [sameAnswers]
    exact sound.answered j
  · intro j
    rw [sameSent]
    exact sound.outstanding j
  · rcases sound.rounds with ⟨k, at', rounds, _⟩
    exact ⟨k, at', rounds, fun j impossible => by cases impossible⟩
  · intro running
    exact absurd rfl (running halt)

theorem Sound.aligned_of_pc (sound : state.Sound) {pc : Pc} (atPc : state.pc = pc)
    (running : ∀ halt, pc ≠ .exited halt) (j : Fin servers) :
    (state.link j).Aligned (state.used j) (pc.room j) := by
  subst atPc
  exact sound.aligned running j

theorem Sound.ask (sound : state.Sound) (atPc : state.pc = .asking i) (written : Bool) :
    (state.ask i written).Sound := by
  have aligned := sound.aligned_of_pc atPc nofun
  simp only [Pc.room_asking] at aligned
  have rounds : ∃ k i', state.Rounds k i' ∧ ∀ j, (Pc.waiting i).index? = some j → i' = j := by
    rcases sound.rounds with ⟨k, i', rounds, here⟩
    exact ⟨k, i', rounds, fun j atIndex => here j (by rw [atPc]; exact atIndex)⟩
  have waiting : ∀ j : Fin servers,
      (state.link j).Aligned (state.used j) ((Pc.waiting i).room j) := by
    intro j
    exact ⟨(aligned j).fits, (aligned j).whole, (aligned j).sent.trans (Nat.le_add_right _ _)⟩
  cases written with
  | false =>
      exact ⟨sound.kept, sound.answered, sound.outstanding, sound.charged, rounds,
        fun _ => waiting, sound.received⟩
  | true =>
      refine ⟨?_, ?_, ?_, sound.charged, rounds, ?_, sound.received⟩
      · exact Family.forall_update (fun _ (link : Link R) => link.Kept) sound.kept
          ((sound.kept i).request 71)
      · exact Family.forall_update (fun j (link : Link R) => state.used j <+: link.answers)
          sound.answered (sound.answered i)
      · exact Family.forall_update
          (fun j (link : Link R) => link.sent ≤ (state.used j).length + 1) sound.outstanding
          (Nat.succ_le_succ (aligned i).sent)
      · intro _
        apply Family.forall_update
          (fun j (link : Link R) => link.Aligned (state.used j) ((Pc.waiting i).room j))
        · exact waiting
        · rw [Pc.room_waiting_self]
          exact (aligned i).request 71

omit [Image R Byte] in
/-- What is charged is counted in the round under way. -/
theorem Rounds.charge {k : ℕ} (rounds : state.Rounds k i) (usage : Usage R) :
    (state.charge i usage).Rounds k (i + 1) := by
  intro j
  have before := rounds j
  by_cases this : j = i
  · subst this
    change (Function.update state.used j _ j).length = _
    rw [Function.update_self, List.length_append, List.length_singleton, before]
    simp
  · change (Function.update state.used i _ j).length = _
    rw [Function.update_of_ne this, before]
    have apart : (j : ℕ) ≠ i := fun same => this (Fin.ext same)
    have same : (j : ℕ) < i + 1 ↔ (j : ℕ) < i := by omega
    simp only [same]

omit [Image R Byte] in
theorem charged_charge (charged : ∀ j, state.Charged j) (usage : Usage R) :
    ∀ j, (state.charge i usage).Charged j := by
  intro j
  by_cases this : j = i
  · subst this
    rcases charged j with ⟨cpu, memory, io, _⟩
    refine ⟨?_, ?_, ?_, ?_⟩
    · simp [charge, cpu]
    · simp [charge, memory]
    · simp [charge, io]
    · simp [charge]
  · rcases charged j with ⟨cpu, memory, io, weight⟩
    refine ⟨?_, ?_, ?_, ?_⟩
    · simpa [charge, this] using cpu
    · simpa [charge, this] using memory
    · simpa [charge, this] using io
    · simpa [charge, this] using weight

theorem Sound.receive (sound : state.Sound) (atPc : state.pc = .waiting i) {bytes : List Byte}
    (short : bytes.length ≤ reportLen R) (arrived : bytes <+: (state.link i).toDistributor) :
    (state.receive i bytes).Sound := by
  have aligned := sound.aligned_of_pc atPc nofun
  have kept : ∀ j, (Function.update state.link i { state.link i with
      toDistributor := (state.link i).toDistributor.drop bytes.length } j).Kept := by
    apply Family.forall_update (fun _ (link : Link R) => link.Kept) sound.kept
    exact ⟨(sound.kept i).current, (sound.kept i).answers, (sound.kept i).buffer,
      (sound.kept i).requests⟩
  have size : (bytes ++ state.received.drop bytes.length).length = reportLen R := by
    rw [List.length_append, List.length_drop, sound.received]
    omega
  by_cases full : bytes.length = reportLen R
  · have here := aligned i
    rw [Pc.room_waiting_self] at here
    rcases here.read (sound.kept i) (sound.answered i) arrived full with
      ⟨usage, same, answered, alignedNext⟩
    have decoded : unpack (bytes ++ state.received.drop bytes.length) = usage := by
      rw [full, ← sound.received, List.drop_length, List.append_nil, same, unpack_bytes]
    rw [Polls.receive, if_pos full, decoded]
    have sent : (state.link i).sent ≤ (state.used i).length + 1 := sound.outstanding i
    refine ⟨kept, ?_, ?_, ?_, ?_, ?_, size⟩
    · intro j
      by_cases this : j = i
      · subst this
        simp only [charge, Function.update_self]
        exact answered ▸ List.prefix_rfl
      · simp only [charge, Function.update_of_ne this]
        exact sound.answered j
    · intro j
      by_cases this : j = i
      · subst this
        simp only [charge, Function.update_self, List.length_append, List.length_singleton]
        omega
      · simp only [charge, Function.update_of_ne this]
        exact sound.outstanding j
    · exact charged_charge sound.charged usage
    · rcases sound.rounds with ⟨k, i', rounds, at'⟩
      obtain rfl : i' = i := at' i (by rw [atPc]; rfl)
      exact ⟨k, i + 1, Rounds.charge rounds usage, fun j here => Option.some.inj here⟩
    · intro _ j
      change (Function.update state.link i _ j).Aligned (Function.update state.used i _ j)
        ((Pc.asking (i + 1)).room j)
      rw [Pc.room_asking]
      by_cases this : j = i
      · subst this
        rw [Function.update_self, Function.update_self]
        exact alignedNext
      · rw [Function.update_of_ne this, Function.update_of_ne this]
        have other := aligned j
        rwa [Pc.room_waiting_of_ne (Fin.val_ne_of_ne this)] at other
  · rw [Polls.receive, if_neg full]
    apply sound.exit kept
    · intro j
      by_cases this : j = i
      · subst this
        simp
      · simp [this]
    · intro j
      by_cases this : j = i
      · subst this
        simp
      · simp [this]
    · exact size

theorem Sound.setDistribution [NeZero servers] (sound : state.Sound) {index : ℕ}
    (atPc : state.pc = .asking index) (asked : servers ≤ index) :
    Sound { state with d := state.p }.nextPass := by
  have aligned := sound.aligned_of_pc atPc nofun
  have rounds : ∃ k, state.Rounds k 0 := by
    rcases sound.rounds with ⟨k, i', rounds, here⟩
    obtain rfl : i' = index := here index (by rw [atPc]; rfl)
    refine ⟨k + 1, ?_⟩
    intro j
    have inside : (j : ℕ) < i' := j.isLt.trans_le asked
    have before := rounds j
    rw [if_pos inside] at before
    simpa using before
  refine ⟨sound.kept, sound.answered, sound.outstanding, sound.charged, ?_, ?_, sound.received⟩
  · rcases rounds with ⟨k, rounds⟩
    refine ⟨k, 0, rounds, ?_⟩
    intro j here
    simp only [nextPass] at here
    split at here
    · exact Option.some.inj here
    · exact Option.some.inj here
  · intro _ j
    have before := aligned j
    rw [Pc.room_asking] at before
    simp only [nextPass]
    split
    · exact before
    · exact before

theorem Sound.step [NeZero servers] (sound : state.Sound) {event : Event servers R}
    {next : Polls servers R} (stepped : state.step event = some next) : next.Sound := by
  cases move_of_step stepped with
  | server i link moved => exact sound.server moved
  | asks i written atPc => exact sound.ask atPc written
  | fails index atPc => exact sound.exit sound.kept (fun _ => rfl) (fun _ => rfl) sound.received
  | receives i bytes atPc short arrived => exact sound.receive atPc short arrived
  | sets index atPc asked => exact sound.setDistribution atPc asked
  | writes atPc => exact sound.exit sound.kept (fun _ => rfl) (fun _ => rfl) sound.received

end Step

/--
In every reachable state the triples with which the distributor has charged a server are
the first answers of this server, in the order of the rounds and one for each request,
every answer is what one single tick has published or the zeros before, and the weight
is computed from the last one of them.
-/
theorem reported_of_reachable [NeZero servers] (clock : Fin servers → ℤ)
    (lastUpData : Fin servers → UpData R) {state : Polls servers R}
    (reachable : Reachable step (start fun i => Link.start (clock i) (lastUpData i)) state) :
    state.Reported := by
  have sound : state.Sound := by
    apply reachable.invariant Sound
    · exact fun kept stepped => kept.step stepped
    · exact sound_start clock lastUpData
  exact sound.reported

/-- The files at a tick, where the memory has a quarter left. -/
def sampleSnapshot (time : ℚ) (busy ioRun : ℤ) : Snapshot Float where
  meminfo := some { memIdle := 1, allMem := 4 }
  uptime := some { allTimes := Double.ofRat time }
  diskstats := some { ioRun }
  stat := some { idle0 := 0, utime := busy, systime := 0, allTime := 0 }

/-- What the second tick of the sample publishes. -/
def sampleUsage : Usage Float := ⟨Double.ofRat 25, Double.ofRat 75, Double.ofRat 50⟩

/-- Two ticks of the only server. -/
def sampleTicks : List (Event 1 Float) :=
  [.server (Fin.last 0) (.tick (sampleSnapshot 10 100 500)), .server (Fin.last 0) .keep,
    .server (Fin.last 0) (.tick (sampleSnapshot 12 200 1500)), .server (Fin.last 0) .publish]

/-- A round in which the server answers with what it has published. -/
def sampleRound : List (Event 1 Float) :=
  [.ask true, .server (Fin.last 0) (.read (.data [71])), .server (Fin.last 0) .getStat,
    .server (Fin.last 0) (.write (some 24)), .receive (.data sampleUsage.bytes), .setDistribution]

/-- One server whose second tick publishes what the first round is charged with. -/
theorem reported_of_reachable_sample :
    ∃ final : Polls 1 Float,
      Reachable step (start fun _ => Link.start 100 ⟨Double.ofRat 0⟩) final ∧
        final.used (Fin.last 0) = [⟨Double.ofRat 25, Double.ofRat 75, Double.ofRat 50⟩] ∧
        final.Reported := by
  have ran := @Machine.exists_reachable_of_any _ _ step
    (start fun _ => Link.start 100 ⟨Double.ofRat 0⟩ : Polls 1 Float)
    (sampleTicks ++ sampleRound)
    (fun final => decide (final.used (Fin.last 0) = [sampleUsage])) (by decide +kernel)
  rcases ran with ⟨final, reached, shown⟩
  exact ⟨final, reached, of_decide_eq_true shown, reported_of_reachable _ _ reached⟩

end Invariant

end Polls

end LoadBalance.Monitor
