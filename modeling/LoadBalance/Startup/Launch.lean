import Mathlib.Data.Fintype.Card
import LoadBalance.Lib.Family
import LoadBalance.Lib.Machine
import LoadBalance.Posix

/-!
# The start of the distributor and its servers

`init_inner_mon` of `algorithm_distributor.cc` and the two threads of every
`inner_server.cc`, each server on its own host. A connection to a port needs a listener
on this port. The listener on `INNER_PORT` is there from the start; the one on
`MON_PORT` is made by the main thread of the server, while its other thread already
connects to the distributor.

Descriptors are represented by what they are connected to. `accept` stores as much of
the peer's address as the value of its length argument allows, which
`init_inner_mon` does not initialise.
-/

namespace LoadBalance.Startup

/-- Where `mainThreadFunc` of a server is. -/
inductive MonPc where
  /-- In `GetListenFd`, before `listen`. -/
  | binding
  | accepting
  | serving
deriving DecidableEq, Repr

/-- A process of `inner_server.cc`: before `thread(threadFunc)`, or with both threads. -/
inductive Host where
  | spawning
  | running (mon : MonPc) (connected : Bool)
deriving DecidableEq, Repr

/-- There is a listener on `MON_PORT`. -/
def Host.Listens : Host → Prop
  | .running .accepting _ | .running .serving _ => True
  | .running .binding _ | .spawning => False

instance (host : Host) : Decidable host.Listens :=
  match host with
  | .running .accepting _ | .running .serving _ => instDecidableTrue
  | .running .binding _ | .spawning => instDecidableFalse

/-- `threadFunc` of the server has connected to `INNER_PORT`. -/
def Host.Connected : Host → Prop
  | .running _ connected => connected = true
  | .spawning => False

/-- The steps of a server other than its connect. -/
inductive Host.Goes : Host → Host → Prop where
  | spawns : Goes .spawning (.running .binding false)
  | listens (connected : Bool) : Goes (.running .binding connected) (.running .accepting connected)
  | serves (connected : Bool) : Goes (.running .accepting connected) (.running .serving connected)

theorem Host.Goes.connected {host next : Host} (goes : host.Goes next) :
    next.Connected ↔ host.Connected := by
  cases goes with
  | spawns => exact iff_of_false (fun impossible => by cases impossible) id
  | listens connected => exact Iff.rfl
  | serves connected => exact Iff.rfl

/-- Where `init_inner_mon` is. -/
inductive Pc (servers : ℕ) where
  | accepting
  /-- Behind `accept`; the address is the one in `client_addr_inner`, if it is a server's. -/
  | dialing (work : Fin servers) (address : Option (Fin servers))
  | storing (work mon : Fin servers)
  | finished
  | halted (halt : Halt)
deriving DecidableEq

structure Launch (servers : ℕ) where
  host : Fin servers → Host
  /-- The connections to `INNER_PORT` which are not accepted yet. -/
  backlog : List (Fin servers)
  /-- The connections which the distributor has made to `MON_PORT`. -/
  dialed : List (Fin servers)
  pc : Pc servers
  serversInner : List (Fin servers × Fin servers)

inductive Event (servers : ℕ) where
  | spawn (server : Fin servers)
  | listen (server : Fin servers)
  | connect (server : Fin servers)
  | acceptMon (server : Fin servers)
  /-- `accept` of the distributor: the value of `client_addr_inner_len`, and what
  `client_addr_inner` holds before. -/
  | accept (length : ℤ) (stale : Option (Fin servers))
  /-- `socket_connect_mon` -/
  | dial
  /-- The options are set, and the descriptors go into `servers_inner`. -/
  | store
deriving DecidableEq

/-- The bytes of a `sockaddr_in` up to the end of `sin_addr`. -/
def addressEnd : ℤ := 8

/-- What is in `client_addr_inner` after `accept`. -/
def storedAddress {servers : ℕ} (length : ℤ) (peer : Fin servers) (stale : Option (Fin servers)) :
    Option (Fin servers) :=
  if addressEnd ≤ length then some peer else stale

namespace Launch

variable {servers : ℕ}

def start (servers : ℕ) : Launch servers where
  host _ := .spawning
  backlog := []
  dialed := []
  pc := .accepting
  serversInner := []

def setHost (launch : Launch servers) (server : Fin servers) (host : Host) : Launch servers :=
  { launch with host := Function.update launch.host server host }

def step (launch : Launch servers) (event : Event servers) : Option (Launch servers) :=
  match event with
  | .spawn server =>
      match launch.host server with
      | .spawning => some (launch.setHost server (.running .binding false))
      | .running _ _ => none
  | .listen server =>
      match launch.host server with
      | .running .binding connected => some (launch.setHost server (.running .accepting connected))
      | _ => none
  | .connect server =>
      match launch.host server with
      | .running mon false =>
          some { launch.setHost server (.running mon true) with
            backlog := launch.backlog ++ [server] }
      | _ => none
  | .acceptMon server =>
      match launch.host server with
      | .running .accepting connected =>
          if server ∈ launch.dialed then some (launch.setHost server (.running .serving connected))
          else none
      | _ => none
  | .accept length stale =>
      match launch.pc, launch.backlog with
      | .accepting, peer :: backlog =>
          if length < 0 then some { launch with pc := .halted (.exit "inner connnect!") }
          else some { launch with
            backlog := backlog
            pc := .dialing peer (storedAddress length peer stale) }
      | _, _ => none
  | .dial =>
      match launch.pc with
      | .dialing work address =>
          match address with
          | none => some { launch with pc := .halted (.exit "mon connnect") }
          | some mon =>
              if (launch.host mon).Listens then
                some { launch with pc := .storing work mon, dialed := launch.dialed ++ [mon] }
              else some { launch with pc := .halted (.exit "mon connnect") }
      | _ => none
  | .store =>
      match launch.pc with
      | .storing work mon =>
          let serversInner := launch.serversInner ++ [(work, mon)]
          some { launch with
            serversInner := serversInner
            pc := if serversInner.length = servers then .finished else .accepting }
      | _ => none

/-- `init_inner_mon` has not ended the process, and every entry it has made is one server's. -/
structure Paired (launch : Launch servers) : Prop where
  running : ∀ halt, launch.pc ≠ .halted halt
  paired : ∀ entry ∈ launch.serversInner, entry.1 = entry.2

/-- `init_inner_mon` is done, with one entry for every server. -/
structure Complete (launch : Launch servers) : Prop where
  finished : launch.pc = .finished
  entries : launch.serversInner.length = servers
  all : ∀ server, (server, server) ∈ launch.serversInner

/-- After `accept` the address of the peer is in `client_addr_inner`, and a server which is
dialed listens. -/
def ListensFirst (launch : Launch servers) : Event servers → Prop
  | .accept length stale =>
      0 ≤ length ∧
        match launch.backlog with
        | [] => True
        | peer :: _ => storedAddress length peer stale = some peer
  | .dial =>
      match launch.pc with
      | .dialing work _ => (launch.host work).Listens
      | _ => True
  | .spawn _ | .listen _ | .connect _ | .acceptMon _ | .store => True

instance (launch : Launch servers) (event : Event servers) :
    Decidable (launch.ListensFirst event) :=
  match event with
  | .accept length stale =>
      match atBacklog : launch.backlog with
      | [] => decidable_of_iff (0 ≤ length) (by simp [ListensFirst, atBacklog])
      | peer :: _ => decidable_of_iff (0 ≤ length ∧ storedAddress length peer stale = some peer)
          (by simp [ListensFirst, atBacklog])
  | .dial =>
      match atPc : launch.pc with
      | .dialing work _ =>
          decidable_of_iff (launch.host work).Listens (by simp [ListensFirst, atPc])
      | .accepting | .storing _ _ | .finished | .halted _ =>
          decidable_of_iff True (by simp [ListensFirst, atPc])
  | .spawn _ | .listen _ | .connect _ | .acceptMon _ | .store => instDecidableTrue

/-- The server which is being registered. -/
def atWork (launch : Launch servers) : List (Fin servers) :=
  match launch.pc with
  | .dialing work _ | .storing work _ => [work]
  | .accepting | .finished | .halted _ => []

/-- The servers which have connected to the distributor, in order. -/
def joined (launch : Launch servers) : List (Fin servers) :=
  launch.serversInner.map Prod.fst ++ launch.atWork ++ launch.backlog

/-- The distributor dials and stores the server which it has accepted. -/
def OnTarget (launch : Launch servers) : Prop :=
  match launch.pc with
  | .dialing work address => address = some work
  | .storing work mon => mon = work
  | .accepting | .finished => True
  | .halted _ => False

/-- Every server which has connected is on its way into `servers_inner`, once. -/
structure Sound (launch : Launch servers) : Prop where
  onTarget : launch.OnTarget
  paired : ∀ entry ∈ launch.serversInner, entry.1 = entry.2
  connected : ∀ server, (launch.host server).Connected ↔ server ∈ launch.joined
  nodup : launch.joined.Nodup
  room : launch.pc ≠ .finished → launch.serversInner.length < servers
  full : launch.pc = .finished → launch.serversInner.length = servers

theorem sound_start (positive : 0 < servers) : (start servers).Sound where
  onTarget := trivial
  paired := by simp [start]
  connected := by simp [start, joined, atWork, Host.Connected]
  nodup := List.nodup_nil
  room _ := positive
  full impossible := by cases impossible

/-- What a permitted step can do while the distributor is on target. -/
inductive Move (launch : Launch servers) : Launch servers → Prop where
  | goes (server : Fin servers) (host : Host) (goes : (launch.host server).Goes host) :
      Move launch (launch.setHost server host)
  | connects (server : Fin servers) (mon : MonPc)
      (running : launch.host server = .running mon false) :
      Move launch { launch.setHost server (.running mon true) with
        backlog := launch.backlog ++ [server] }
  | accepts (peer : Fin servers) (backlog : List (Fin servers)) (atPc : launch.pc = .accepting)
      (atBacklog : launch.backlog = peer :: backlog) :
      Move launch { launch with backlog := backlog, pc := .dialing peer (some peer) }
  | dials (work : Fin servers) (atPc : launch.pc = .dialing work (some work)) :
      Move launch { launch with pc := .storing work work, dialed := launch.dialed ++ [work] }
  | stores (work : Fin servers) (atPc : launch.pc = .storing work work)
      (notLast : (launch.serversInner ++ [(work, work)]).length ≠ servers) :
      Move launch { launch with
        serversInner := launch.serversInner ++ [(work, work)]
        pc := .accepting }
  | storesLast (work : Fin servers) (atPc : launch.pc = .storing work work)
      (last : (launch.serversInner ++ [(work, work)]).length = servers) :
      Move launch { launch with
        serversInner := launch.serversInner ++ [(work, work)]
        pc := .finished }

section Preservation

variable {launch next : Launch servers} {server : Fin servers}

theorem Sound.setHost (sound : launch.Sound) {host : Host}
    (same : host.Connected ↔ (launch.host server).Connected) :
    (launch.setHost server host).Sound where
  onTarget := sound.onTarget
  paired := sound.paired
  connected := by
    intro other
    change (Function.update launch.host server host other).Connected ↔ other ∈ launch.joined
    by_cases this : other = server
    · subst this
      rw [Function.update_self, same]
      exact sound.connected other
    · rw [Function.update_of_ne this]
      exact sound.connected other
  nodup := sound.nodup
  room := sound.room
  full := sound.full

theorem Sound.connect (sound : launch.Sound) {mon : MonPc}
    (running : launch.host server = .running mon false) :
    Sound { launch.setHost server (.running mon true) with
      backlog := launch.backlog ++ [server] } := by
  have fresh : server ∉ launch.joined := by
    intro already
    have connected := (sound.connected server).mpr already
    rw [running] at connected
    cases connected
  have grown : joined { launch.setHost server (.running mon true) with
      backlog := launch.backlog ++ [server] } = launch.joined ++ [server] :=
    (List.append_assoc _ _ _).symm
  refine ⟨sound.onTarget, sound.paired, ?_, ?_, sound.room, sound.full⟩
  · intro other
    rw [grown, List.mem_append, List.mem_singleton]
    change (Function.update launch.host server _ other).Connected ↔ _
    by_cases this : other = server
    · subst this
      rw [Function.update_self]
      exact iff_of_true rfl (Or.inr rfl)
    · rw [Function.update_of_ne this]
      exact (sound.connected other).trans (or_iff_left this).symm
  · rw [grown, List.nodup_append]
    refine ⟨sound.nodup, List.nodup_singleton server, ?_⟩
    intro other otherMem last lastMem
    rw [List.mem_singleton] at lastMem
    rintro rfl
    exact fresh (lastMem ▸ otherMem)

/-- A step of the distributor which moves a server on, from one stage to the next. -/
theorem Sound.moves (sound : launch.Sound) (hosts : next.host = launch.host)
    (sameJoined : next.joined = launch.joined) (onTarget : next.OnTarget)
    (paired : ∀ entry ∈ next.serversInner, entry.1 = entry.2)
    (room : next.pc ≠ .finished → next.serversInner.length < servers)
    (full : next.pc = .finished → next.serversInner.length = servers) : next.Sound where
  onTarget := onTarget
  paired := paired
  connected := by
    intro other
    rw [hosts, sameJoined]
    exact sound.connected other
  nodup := by
    rw [sameJoined]
    exact sound.nodup
  room := room
  full := full

theorem Sound.move_of_step (sound : launch.Sound) {event : Event servers}
    (listens : launch.ListensFirst event) (stepped : launch.step event = some next) :
    launch.Move next := by
  cases event with
  | spawn server =>
      simp only [Launch.step] at stepped
      split at stepped
      · rename_i spawning
        cases stepped
        apply Move.goes
        rw [spawning]
        exact .spawns
      · cases stepped
  | listen server =>
      simp only [Launch.step] at stepped
      split at stepped
      · rename_i connected running
        cases stepped
        apply Move.goes
        rw [running]
        exact .listens connected
      · cases stepped
  | connect server =>
      simp only [Launch.step] at stepped
      split at stepped
      · rename_i mon running
        cases stepped
        exact .connects server mon running
      · cases stepped
  | acceptMon server =>
      simp only [Launch.step] at stepped
      split at stepped
      · rename_i connected running
        split at stepped
        · cases stepped
          apply Move.goes
          rw [running]
          exact .serves connected
        · cases stepped
      · cases stepped
  | accept length stale =>
      simp only [Launch.step] at stepped
      split at stepped
      · rename_i peer backlog atPc atBacklog
        simp only [ListensFirst, atBacklog] at listens
        split at stepped
        · omega
        · cases stepped
          rw [listens.2]
          exact .accepts peer backlog atPc atBacklog
      · cases stepped
  | dial =>
      simp only [Launch.step] at stepped
      split at stepped
      · rename_i work address atPc
        have target := sound.onTarget
        simp only [OnTarget, atPc] at target
        simp only [ListensFirst, atPc] at listens
        subst target
        simp only [listens, if_true] at stepped
        cases stepped
        exact .dials work atPc
      · cases stepped
  | store =>
      simp only [Launch.step] at stepped
      split at stepped
      · rename_i work mon atPc
        have target := sound.onTarget
        simp only [OnTarget, atPc] at target
        subst target
        split at stepped
        · rename_i last
          cases stepped
          exact .storesLast mon atPc last
        · rename_i notLast
          cases stepped
          exact .stores mon atPc notLast
      · cases stepped

theorem Sound.paired_append (sound : launch.Sound) (work : Fin servers) :
    ∀ entry ∈ launch.serversInner ++ [(work, work)], entry.1 = entry.2 := by
  intro entry entryMem
  rw [List.mem_append, List.mem_singleton] at entryMem
  rcases entryMem with old | rfl
  · exact sound.paired entry old
  · rfl

theorem Sound.unfinished (sound : launch.Sound) {pc : Pc servers} (atPc : launch.pc = pc)
    (running : pc ≠ .finished) : launch.serversInner.length < servers := by
  apply sound.room
  rwa [atPc]

theorem Sound.move (sound : launch.Sound) (move : launch.Move next) : next.Sound := by
  cases move with
  | goes server host goes => exact sound.setHost goes.connected
  | connects server mon running => exact sound.connect running
  | accepts peer backlog atPc atBacklog =>
      have inside := sound.unfinished atPc nofun
      apply sound.moves
      · rfl
      · simp [joined, atWork, atPc, atBacklog]
      · rfl
      · exact sound.paired
      · exact fun _ => inside
      · exact nofun
  | dials work atPc =>
      have inside := sound.unfinished atPc nofun
      apply sound.moves
      · rfl
      · simp [joined, atWork, atPc]
      · rfl
      · exact sound.paired
      · exact fun _ => inside
      · exact nofun
  | stores work atPc notLast =>
      have inside := sound.unfinished atPc nofun
      apply sound.moves
      · rfl
      · simp [joined, atWork, atPc]
      · trivial
      · exact sound.paired_append work
      · intro _
        simp only [List.length_append, List.length_singleton] at notLast ⊢
        omega
      · exact nofun
  | storesLast work atPc last =>
      apply sound.moves
      · rfl
      · simp [joined, atWork, atPc]
      · trivial
      · exact sound.paired_append work
      · exact fun unfinishedNext => absurd rfl unfinishedNext
      · exact fun _ => last

theorem Sound.step (sound : launch.Sound) {event : Event servers}
    (listens : launch.ListensFirst event) (stepped : launch.step event = some next) :
    next.Sound :=
  sound.move (sound.move_of_step listens stepped)

end Preservation

end Launch

end LoadBalance.Startup
