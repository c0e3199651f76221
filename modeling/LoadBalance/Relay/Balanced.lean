import LoadBalance.Balancer.Selection
import LoadBalance.Relay.Invariant

/-!
# Both threads of the distributor

The service thread with its clients and inner servers on one side, the main thread with the
monitors on the other. They share the distribution, which the mutex lets only one of them
use at a time, and the process, which ends for both when one of them calls `exit`. A request
is sent to the server which was drawn for it, and the draw is from the weights of the round
which the main thread has completed last.
-/

universe u

namespace LoadBalance.Relay

open Balancer (Report Current IsLastRound NeverZero Tracks)

variable {servers : ℕ} {Engine : Type u}

namespace World

/-- The server which `get_curSelectedServer_fd` draws in a step, if the step is a pass of the
loop which reads a request. -/
def draws (world : World servers) : Event servers → Option (Fin servers)
  | .ready fd index _ =>
      match world.clientAt fd with
      | some conn => if isRequest (world.conn conn).read.1 then some index else none
      | none => none
  | _ => none

variable {boot : Boot servers} {world next : World servers}

theorem draws_client {fd : Fd} {conn : ConnId} (isClient : world.table fd = some (.client conn))
    (index : Fin servers) (moved : Bool) :
    world.draws (.ready fd index moved) =
      if isRequest (world.conn conn).read.1 then some index else none := by
  simp [draws, clientAt, isClient]

theorem draws_request (wellformed : world.Wellformed boot) {fd : Fd} {conn : ConnId}
    (isClient : world.table fd = some (.client conn)) {request : List Byte}
    {rest : List (List Byte)} (waiting : (world.conn conn).inbound = request :: rest)
    (index : Fin servers) (moved : Bool) :
    world.draws (.ready fd index moved) = some index := by
  have size := wellformed.inbound conn request (by simp [waiting])
  simp [draws_client isClient, Conn.read, waiting, isRequest, size]

/-- A list of forwards only grows by the request which the step has read, and only for the
server which the step has drawn. -/
theorem forwarded_of_move (wellformed : world.Wellformed boot) {event : Event servers}
    (move : Move world event next) {server : Fin servers} {serial : ℕ}
    (forwarded : serial ∈ (next.link server).forwarded) :
    serial ∈ (world.link server).forwarded ∨
      serial = world.requests.length ∧ world.draws event = some server := by
  have kept : ∀ {other : Fin servers} {value : Link},
      serial ∈ (Function.update world.link other value server).forwarded →
        value.forwarded = (world.link other).forwarded →
          serial ∈ (world.link server).forwarded :=
    fun updated same => Family.forall_update
      (fun server (value : Link) => serial ∈ value.forwarded →
        serial ∈ (world.link server).forwarded)
      (fun _ => id) (fun old => same ▸ old) server updated
  cases move with
  | connect conn unborn => exact .inl forwarded
  | client conn value acts => exact .inl forwarded
  | listen answers _ enrolled _ =>
      have same := Machine.run_invariant (fun state : World servers => state.link = world.link)
        (fun before step => (enroll_link step).trans before) rfl enrolled
      exact .inl (same ▸ forwarded)
  | listenHalt answers halt => exact .inl forwarded
  | forward fd conn index request rest mess isClient waiting =>
      rw [draws_request wellformed isClient waiting]
      by_cases same : server = index
      · subst same
        simp only [enqueue_link, Function.update_self, List.mem_append, List.mem_singleton,
          took_link] at forwarded
        exact forwarded.imp_right fun last => ⟨last, rfl⟩
      · simp only [enqueue_link, Function.update_of_ne same, took_link] at forwarded
        exact .inl forwarded
  | refuse fd conn index request rest mess isClient waiting => exact .inl forwarded
  | again fd conn index moved isClient nothing going => exact .inl forwarded
  | close fd conn index moved isClient nothing ended => exact .inl forwarded
  | reply fd other index moved packet rest mess isWork waiting =>
      rw [deliver_link] at forwarded
      exact .inl (kept forwarded rfl)
  | serverRead other packet rest mess free waiting =>
      exact .inl (kept forwarded rfl)
  | serverWrite other packet holding => exact .inl (kept forwarded rfl)

end World

/-- The start with two inner servers, where the system hands out the lowest numbers. -/
def Boot.double : Boot 2 where
  listenFdInner := 3
  serversInner server := if server = Fin.last 1 then (6, 7) else (4, 5)
  listenFdOuter := 8
  epollFd := 9
  distinct := by decide

/-- The two threads of the process, and the parties around it. -/
structure System (servers : ℕ) (Engine : Type u) where
  world : World servers
  balancer : Balancer.State servers Engine

/-- A step of the main thread, or one of the service thread and the other parties. -/
inductive Input (servers : ℕ) where
  | poll (answer : Option Report)
  | setDistribution
  | writeUsage
  | party (event : Event servers)

/-- What the main thread has done. -/
def Input.monitored? : Input servers → Option (Balancer.Event servers)
  | .poll answer => some (.poll answer)
  | .setDistribution => some .setDistribution
  | .writeUsage => some .writeUsage
  | .party _ => none

def monitored (inputs : List (Input servers)) : List (Balancer.Event servers) :=
  inputs.filterMap Input.monitored?

section Monitored

variable (past : List (Input servers))

theorem monitored_of_some {input : Input servers} {event : Balancer.Event servers}
    (isEvent : input.monitored? = some event) :
    monitored (past ++ [input]) = monitored past ++ [event] := by
  simp [monitored, isEvent]

theorem monitored_party (event : Event servers) :
    monitored (past ++ [.party event]) = monitored past := by
  simp [monitored, Input.monitored?]

end Monitored

namespace System

variable [NeZero servers]

/-- The threads at their loops: `threadFunc` has been started after the first rebuild. -/
def start (boot : Boot servers) (garbage : Fin servers → Message Byte) (engine : Engine) :
    System servers Engine :=
  ⟨boot.world garbage, Balancer.start engine⟩

/-- How the main thread has ended the process, if it has. -/
def exited? : Balancer.Phase → Option Halt
  | .exited halt => some halt
  | .polling _ | .writing => none

/-- Neither thread has ended the process. -/
def Running (system : System servers Engine) : Prop :=
  system.world.halted = none ∧ exited? system.balancer.phase = none

instance (system : System servers Engine) : Decidable system.Running :=
  inferInstanceAs (Decidable (_ ∧ _))

/-- A step of the main thread, or a draw of the service thread. -/
def balance (sample : (Fin servers → ℚ) → Engine → Fin servers × Engine)
    (system : System servers Engine) (event : Balancer.Event servers) :
    Option (System servers Engine) :=
  (Balancer.step sample system.balancer event).map fun next => { system with balancer := next }

/-- One step of one of the threads or of another party. -/
def step (sample : (Fin servers → ℚ) → Engine → Fin servers × Engine)
    (system : System servers Engine) (input : Input servers) : Option (System servers Engine) :=
  if ¬system.Running then none
  else
    match input with
    | .poll answer => system.balance sample (.poll answer)
    | .setDistribution => system.balance sample .setDistribution
    | .writeUsage => system.balance sample .writeUsage
    | .party event =>
        (system.world.step event).bind fun next =>
          match system.world.draws event with
          | none => some { system with world := next }
          | some index => { system with world := next }.balance sample (.select index)

/-- What a step does to both sides. -/
inductive Joint (sample : (Fin servers → ℚ) → Engine → Fin servers × Engine)
    (system : System servers Engine) : Input servers → System servers Engine → Prop where
  | main (input : Input servers) (event : Balancer.Event servers)
      (next : Balancer.State servers Engine) (isEvent : input.monitored? = some event)
      (stepped : Balancer.step sample system.balancer event = some next) :
      Joint sample system input { system with balancer := next }
  | pass (event : Event servers) (next : World servers)
      (stepped : system.world.step event = some next)
      (drawsNone : system.world.draws event = none) :
      Joint sample system (.party event) { system with world := next }
  | draw (event : Event servers) (next : World servers) (index : Fin servers)
      (drawn : Balancer.State servers Engine) (stepped : system.world.step event = some next)
      (draws : system.world.draws event = some index)
      (selected : Balancer.step sample system.balancer (.select index) = some drawn) :
      Joint sample system (.party event) ⟨next, drawn⟩

variable {sample : (Fin servers → ℚ) → Engine → Fin servers × Engine}
  {system next : System servers Engine} {input : Input servers}

theorem Joint.of_balance {event : Balancer.Event servers}
    (isEvent : input.monitored? = some event)
    (balanced : system.balance sample event = some next) : Joint sample system input next := by
  rcases Option.map_eq_some_iff.mp balanced with ⟨state, stepped, rfl⟩
  exact .main input event state isEvent stepped

theorem Joint.of_step (stepped : system.step sample input = some next) :
    Joint sample system input next := by
  simp only [step] at stepped
  split at stepped
  · cases stepped
  · cases input with
    | poll answer => exact .of_balance rfl stepped
    | setDistribution => exact .of_balance rfl stepped
    | writeUsage => exact .of_balance rfl stepped
    | party event =>
        rcases Option.bind_eq_some_iff.mp stepped with ⟨world, worldStepped, rest⟩
        split at rest
        · rename_i drawsNone
          cases rest
          exact .pass event world worldStepped drawsNone
        · rename_i index draws
          rcases Option.map_eq_some_iff.mp rest with ⟨drawn, selected, rfl⟩
          exact .draw event world index drawn worldStepped draws selected

/-- A step of both threads is a step of the parties, or leaves them where they are. -/
theorem Joint.reachable {initial : World servers} (joint : Joint sample system input next)
    (reachable : Machine.Reachable World.step initial system.world) :
    Machine.Reachable World.step initial next.world := by
  cases joint with
  | main _ event state isEvent stepped => exact reachable
  | pass event world stepped drawsNone => exact reachable.next stepped
  | draw event world index drawn stepped draws selected => exact reachable.next stepped

/-- The draws are no events of the main thread, and leave both families of weights alone. -/
theorem Joint.tracks {past : List (Input servers)} (joint : Joint sample system input next)
    (tracks : Tracks (monitored past) system.balancer) :
    Tracks (monitored (past ++ [input])) next.balancer := by
  cases joint with
  | main _ event state isEvent stepped =>
      rw [monitored_of_some past isEvent]
      exact tracks.step stepped
  | pass event world stepped drawsNone =>
      rw [monitored_party]
      exact tracks
  | draw event world index drawn stepped draws selected =>
      rcases Balancer.step_select_eq_some.mp selected with ⟨_, _, rfl⟩
      rw [monitored_party]
      exact ⟨tracks.current, tracks.complete, tracks.filled⟩

/-- A new forward is the one for which the step has drawn the server. -/
theorem Joint.forwarded {boot : Boot servers} (joint : Joint sample system input next)
    (wellformed : system.world.Wellformed boot) {server : Fin servers} {serial : ℕ}
    (forwarded : serial ∈ (next.world.link server).forwarded) :
    serial ∈ (system.world.link server).forwarded ∨
      ∃ event, input = .party event ∧ serial = system.world.requests.length ∧
        system.world.draws event = some server ∧
        (sample system.balancer.d system.balancer.e).1 = server := by
  cases joint with
  | main _ event state isEvent stepped => exact .inl forwarded
  | pass event world stepped drawsNone =>
      rcases World.forwarded_of_move wellformed (World.move_of_step wellformed stepped) forwarded
        with old | ⟨_, drawsServer⟩
      · exact .inl old
      · rw [drawsNone] at drawsServer
        cases drawsServer
  | draw event world index drawn stepped draws selected =>
      rcases World.forwarded_of_move wellformed (World.move_of_step wellformed stepped) forwarded
        with old | ⟨last, drawsServer⟩
      · exact .inl old
      · rcases Balancer.step_select_eq_some.mp selected with ⟨_, sampled, _⟩
        obtain rfl : index = server := Option.some.inj (draws.symm.trans drawsServer)
        exact .inr ⟨event, rfl, last, draws, sampled⟩

section Run

variable {boot : Boot servers} {garbage : Fin servers → Message Byte} {engine : Engine}
  {inputs : List (Input servers)}

/-- What holds whenever only the service thread runs, holds beside the main thread too. -/
theorem reachable_of_run
    (ran : Machine.run (step sample) (start boot garbage engine) inputs = some system) :
    Machine.Reachable World.step (boot.world garbage) system.world :=
  Machine.run_invariant
    (fun state => Machine.Reachable World.step (boot.world garbage) state.world)
    (fun reachable stepped => (Joint.of_step stepped).reachable reachable) (.refl _) ran

theorem tracks_of_run
    (ran : Machine.run (step sample) (start boot garbage engine) inputs = some system) :
    Tracks (monitored inputs) system.balancer := by
  have initially : Tracks (monitored []) (start boot garbage engine).balancer :=
    Balancer.tracks_start engine
  exact Machine.run_history_invariant
    (fun past (state : System servers Engine) => Tracks (monitored past) state.balancer)
    (fun tracks stepped => (Joint.of_step stepped).tracks tracks) initially ran

/-- The step of the run in which a request was read, and in which its server was drawn. -/
def DrawnAt (sample : (Fin servers → ℚ) → Engine → Fin servers × Engine)
    (initial : System servers Engine) (inputs : List (Input servers)) (server : Fin servers)
    (serial : ℕ) : Prop :=
  ∃ before event after middle, inputs = before ++ .party event :: after ∧
    Machine.run (step sample) initial before = some middle ∧
    middle.world.requests.length = serial ∧ middle.world.draws event = some server ∧
    (sample middle.balancer.d middle.balancer.e).1 = server

theorem DrawnAt.append {initial : System servers Engine} {server : Fin servers} {serial : ℕ}
    (drawn : DrawnAt sample initial inputs server serial) (input : Input servers) :
    DrawnAt sample initial (inputs ++ [input]) server serial := by
  rcases drawn with ⟨before, event, after, middle, rfl, ran, facts⟩
  exact ⟨before, event, after ++ [input], middle, by simp, ran, facts⟩

theorem drawnAt_of_run
    (ran : Machine.run (step sample) (start boot garbage engine) inputs = some system)
    {server : Fin servers} {serial : ℕ}
    (forwarded : serial ∈ (system.world.link server).forwarded) :
    DrawnAt sample (start boot garbage engine) inputs server serial := by
  induction inputs using List.reverseRecOn generalizing system with
  | nil =>
      simp only [Machine.run_nil, Option.some.injEq] at ran
      subst ran
      cases forwarded
  | append_singleton past input ih =>
      rcases Machine.run_concat_eq_some.mp ran with ⟨middle, ranBefore, stepped⟩
      have wellformed := World.Wellformed.of_reachable (reachable_of_run ranBefore)
      rcases (Joint.of_step stepped).forwarded wellformed forwarded with
        old | ⟨event, rfl, last, draws, sampled⟩
      · exact (ih ranBefore old).append input
      · exact ⟨past, event, [], middle, rfl, ranBefore, last.symm, draws, sampled⟩

/--
Whatever an inner server was sent was read in a step which drew this server, from the weights
of the last round which the main thread had completed before. If one server had room in that
round, then so had the server drawn.
-/
theorem forwarded_of_run (neverZero : NeverZero sample)
    (ran : Machine.run (step sample) (start boot garbage engine) inputs = some system)
    {server : Fin servers} {serial : ℕ}
    (forwarded : serial ∈ (system.world.link server).forwarded) :
    ∃ before event after middle, inputs = before ++ .party event :: after ∧
      Machine.run (step sample) (start boot garbage engine) before = some middle ∧
      middle.world.requests.length = serial ∧ middle.world.draws event = some server ∧
      (∃ weights, Current (monitored before) weights ∧
        (sample weights middle.balancer.e).1 = server) ∧
      ∀ round, IsLastRound (monitored before) round →
        (∃ other, ¬(round other).Overloaded) → ¬(round server).Overloaded := by
  rcases drawnAt_of_run ran forwarded with
    ⟨before, event, after, middle, split, ranBefore, read, draws, sampled⟩
  have current := (tracks_of_run ranBefore).current
  refine ⟨before, event, after, middle, split, ranBefore, read, draws, ⟨_, current, sampled⟩, ?_⟩
  intro round isLast room overloaded
  rw [current.eq_weight isLast] at sampled
  have nonzero := neverZero (Balancer.valid_weights_iff.mpr room) middle.balancer.e
  rw [sampled] at nonzero
  exact nonzero (Report.weight_of_overloaded overloaded)

end Run

/-- Two inner servers, the first of them overloaded, and one request. -/
def roomAtSecond : List (Input 2) :=
  [.party (.connect 0), .poll (some ⟨97, 40, 10⟩),
    .party (.listen ⟨[(10, 0, 0)], .eagain, .error .eagain, Fin.last 1, 0⟩),
    .poll (some ⟨50, 40, 10⟩), .party (.send 0 (List.replicate normalLen 0)), .setDistribution,
    .party (.ready 10 (Fin.last 1) true)]

theorem forwarded_of_run_roomAtSecond :
    ∃ before event after middle, roomAtSecond = before ++ .party event :: after ∧
      Machine.run (step Balancer.weightedSample) (start Boot.double (fun _ => .zero) 1) before =
        some middle ∧
      middle.world.draws event = some (Fin.last 1) ∧
      ∀ round, IsLastRound (monitored before) round →
        (∃ other, ¬(round other).Overloaded) → ¬(round (Fin.last 1)).Overloaded := by
  rcases Machine.exists_run_of_any
    (show (Machine.run (step Balancer.weightedSample) (start Boot.double (fun _ => .zero) 1)
      roomAtSecond).any (fun final => (final.world.link (Fin.last 1)).forwarded = [0]) = true by
        decide +kernel) with ⟨final, ran, shown⟩
  have forwarded : 0 ∈ (final.world.link (Fin.last 1)).forwarded := by
    rw [of_decide_eq_true shown]
    exact List.mem_singleton_self 0
  rcases forwarded_of_run Balancer.neverZero_weightedSample ran forwarded with
    ⟨before, event, after, middle, split, ranBefore, _, draws, _, room⟩
  exact ⟨before, event, after, middle, split, ranBefore, draws, room⟩

end System

end LoadBalance.Relay
