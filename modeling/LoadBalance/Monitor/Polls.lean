import LoadBalance.Balancer.Polling
import LoadBalance.Monitor.Procmon

/-!
# Usage reports on their way to the distributor

Every server with the two threads around its `Procmon`, the main thread of
`algorithm_distributor`, and the byte streams of the monitor connections between them. A
thread is stopped between any two steps which another thread can tell apart. A critical
section is one step.

`published`, `answers`, `sent` and `used` are no variables of the programs: they record
what has happened.
-/

universe u

namespace LoadBalance.Monitor

open Layout (Image load store)
open Balancer (usageLimit)

/-- Where the background thread of a `Procmon` is. -/
inductive TickPc (R : Type u) where
  | idle
  /-- Before the critical section of `tick`. -/
  | measured (reading : Reading R) (usage : Usage R)
  /-- Before the end of `tick`. -/
  | keeping (reading : Reading R)

/-- Where `mainThreadFunc` of a server is. -/
inductive ServePc where
  | reading
  | asked
  | answering
  | exited (halt : Halt)
deriving DecidableEq

/-- A server with its monitor connection. -/
structure Link (R : Type u) where
  pm : Procmon R
  tickPc : TickPc R
  servePc : ServePc
  sendForMon : List Byte
  /-- The bytes on their way to the server. -/
  toServer : List Byte
  /-- The bytes on their way to the distributor. -/
  toDistributor : List Byte
  /-- The number of requests which `write` of the distributor has taken. -/
  sent : ℕ
  /-- What the ticks have published, in order. -/
  published : List (Usage R)
  /-- What `getStat` has returned, once for each request which was read. -/
  answers : List (Usage R)

inductive LinkEvent (R : Type u) where
  /-- `tick` up to its critical section. -/
  | tick (snapshot : Snapshot R)
  | publish
  | keep
  /-- `read` of the server -/
  | read (readn : ReadResult Byte)
  /-- `getStat`, and its tuple into `send_for_mon`. -/
  | getStat
  /-- `write` of the server, with what it returns. -/
  | write (writen : Option ℕ)

variable {R : Type u} {servers : ℕ}

/-- `3*sizeof(double)` -/
def reportLen (R : Type u) [Image R Byte] : ℕ := 3 * Image.size R

section Report

variable [Image R Byte]

/-- `send_for_mon` after the three assignments of `mainThreadFunc`. -/
def pack (buffer : List Byte) (usage : R × R × R) : List Byte :=
  store (store (store buffer 0 usage.1) 1 usage.2.1) 2 usage.2.2

/-- `cpu`, `memory` and `io` as the distributor takes them from `rec`. -/
def unpack (buffer : List Byte) : Usage R where
  cpu := load buffer 0
  memory := load buffer 1
  io := load buffer 2

def Usage.bytes (usage : Usage R) : List Byte :=
  Layout.images [usage.cpu, usage.memory, usage.io]

@[simp]
theorem Usage.length_bytes (usage : Usage R) : usage.bytes.length = reportLen R :=
  Layout.length_images _

theorem pack_getStat (pm : Procmon R) {buffer : List Byte} (full : buffer.length = reportLen R) :
    pack buffer pm.getStat = pm.current.bytes := by
  have first := Layout.store_images ([] : List R) pm.curCpuUsage buffer
  have second := Layout.store_images [pm.curCpuUsage] pm.curMemUsage
    (buffer.drop (Image.size R))
  have third := Layout.store_images [pm.curCpuUsage, pm.curMemUsage] pm.curIoUsage
    ((buffer.drop (Image.size R)).drop (Image.size R))
  have nothing : ((buffer.drop (Image.size R)).drop (Image.size R)).drop (Image.size R) = [] := by
    apply List.drop_eq_nil_of_le
    simp only [List.length_drop, full, reportLen]
    omega
  rw [nothing, List.append_nil] at third
  exact (congrArg (fun bytes => store (store bytes 1 _) 2 _) first).trans
    ((congrArg (fun bytes => store bytes 2 _) second).trans third)

theorem unpack_bytes (usage : Usage R) : unpack usage.bytes = usage := by
  have cpu : load usage.bytes 0 = usage.cpu := Layout.load_images rfl
  have memory : load usage.bytes 1 = usage.memory := Layout.load_images rfl
  have io : load usage.bytes 2 = usage.io := Layout.load_images rfl
  rw [unpack, cpu, memory, io]

end Report

section Server

variable [Double R] [Image R Byte]

namespace Link

/-- A server which has just accepted the connection of the distributor. -/
def start (kClockTicksPerSecond : ℤ) (lastUpData : UpData R) : Link R where
  pm := Procmon.new kClockTicksPerSecond lastUpData
  tickPc := .idle
  servePc := .reading
  sendForMon := List.replicate (reportLen R) 0
  toServer := []
  toDistributor := []
  sent := 0
  published := []
  answers := []

def step (link : Link R) : LinkEvent R → Option (Link R)
  | .tick snapshot =>
      match link.tickPc with
      | .idle =>
          match snapshot.reading with
          | none => some link
          | some reading =>
              if link.pm.ticked then
                let pm := link.pm.elapse reading
                some { link with pm, tickPc := .measured reading (pm.measure reading) }
              else some { link with tickPc := .keeping reading }
      | .measured _ _ | .keeping _ => none
  | .publish =>
      match link.tickPc with
      | .measured reading usage =>
          some { link with
            pm := link.pm.publish usage
            tickPc := .keeping reading
            published := link.published ++ [usage] }
      | .idle | .keeping _ => none
  | .keep =>
      match link.tickPc with
      | .keeping reading => some { link with pm := link.pm.keep reading, tickPc := .idle }
      | .idle | .measured _ _ => none
  | .read readn =>
      match link.servePc, readn with
      | .reading, .error _ => some { link with servePc := .exited (.exit "monFd read!") }
      | .reading, .data bytes =>
          match bytes, link.toServer with
          | [], _ => some { link with servePc := .exited (.exit "monFd read!") }
          | [byte], first :: rest =>
              if byte = first then some { link with servePc := .asked, toServer := rest } else none
          | _, _ => none
      | _, _ => none
  | .getStat =>
      match link.servePc with
      | .asked =>
          some { link with
            servePc := .answering
            sendForMon := pack link.sendForMon link.pm.getStat
            answers := link.answers ++ [link.pm.current] }
      | .reading | .answering | .exited _ => none
  | .write writen =>
      match link.servePc, writen with
      | .answering, none => some { link with servePc := .exited (.exit "monFd writen <> 24") }
      | .answering, some count =>
          if reportLen R < count then none
          else some { link with
            servePc := if count = reportLen R then .reading
              else .exited (.exit "monFd writen <> 24")
            toDistributor := link.toDistributor ++ link.sendForMon.take count }
      | _, _ => none

/-- The steps of the background thread, with nothing in between, are `tick`. -/
theorem exists_run_tick {link : Link R} (idle : link.tickPc = .idle) (snapshot : Snapshot R) :
    ∃ events final, Machine.run step link events = some final ∧
      final.pm = link.pm.tick snapshot ∧ final.tickPc = .idle := by
  cases read : snapshot.reading with
  | none =>
      refine ⟨[.tick snapshot], link, ?_, ?_, idle⟩
      · simp [Machine.run_cons, step, idle, read]
      · simp [Procmon.tick, read]
  | some reading =>
      by_cases ticked : link.pm.ticked
      · refine ⟨[.tick snapshot, .publish, .keep], { link with
          pm := link.pm.tick snapshot
          published := link.published ++ [(link.pm.elapse reading).measure reading] },
          ?_, rfl, idle⟩
        simp [Machine.run_cons, step, idle, read, ticked, Procmon.tick]
      · refine ⟨[.tick snapshot, .keep], { link with pm := link.pm.tick snapshot }, ?_, rfl, idle⟩
        simp [Machine.run_cons, step, idle, read, ticked, Procmon.tick]

end Link

end Server

/-- Where `mainThreadFunc` of the distributor is. -/
inductive Pc where
  /-- In the loop over the servers, before `write` to server `i` if there is one. -/
  | asking (i : ℕ)
  /-- Before `read` from server `i`. -/
  | waiting (i : ℕ)
  /-- Behind the last `set_distribution`, writing the usages to files. -/
  | writing
  | exited (halt : Halt)
deriving DecidableEq

structure Polls (servers : ℕ) (R : Type u) where
  link : Fin servers → Link R
  p : Fin servers → R
  /-- The weights from which the distribution was built. -/
  d : Fin servers → R
  /-- The buffer `rec`. -/
  received : List Byte
  cpuUsage : Fin servers → List R
  memoryUsage : Fin servers → List R
  ioUsage : Fin servers → List R
  pc : Pc
  /-- The triples from which weights were computed. -/
  used : Fin servers → List (Usage R)

inductive Event (servers : ℕ) (R : Type u) where
  | server (i : Fin servers) (event : LinkEvent R)
  /-- `write` of the byte to the next server; only a write which succeeds sends it. -/
  | ask (written : Bool)
  /-- `read` of the answer, and the rest of the body of the loop. -/
  | receive (readn : ReadResult Byte)
  | setDistribution
  /-- Write the usages and leave the process. -/
  | writeUsage

section Distributor

variable [Double R]

def Usage.Overloaded (usage : Usage R) : Prop :=
  Double.ofRat 95 ≤ usage.cpu ∨ Double.ofRat 95 ≤ usage.memory ∨ Double.ofRat 95 ≤ usage.io

instance (usage : Usage R) : Decidable usage.Overloaded :=
  inferInstanceAs (Decidable (_ ∨ _ ∨ _))

/-- What `mainThreadFunc` stores in `p[i]`. -/
def Usage.weight (usage : Usage R) : R :=
  if usage.Overloaded then Double.ofRat 0
  else Double.ofRat (6 / 10) * (Double.ofRat 100 - usage.cpu) +
    Double.ofRat (3 / 10) * (Double.ofRat 100 - usage.memory) +
    Double.ofRat (1 / 10) * (Double.ofRat 100 - usage.io)

/-- The weight of every server before the first round. -/
def uniform (servers : ℕ) : R := Double.ofRat 100 / Double.ofInt servers

variable [Image R Byte]

namespace Polls

/-- The state in which `mainThreadFunc` begins. -/
def start (link : Fin servers → Link R) : Polls servers R where
  link := link
  p _ := uniform servers
  d _ := uniform servers
  received := List.replicate (reportLen R) 0
  cpuUsage _ := []
  memoryUsage _ := []
  ioUsage _ := []
  pc := .asking 0
  used _ := []

/-- `write(mon_fd, &send_for_mon, 1)` with the byte `'G'` -/
def ask (state : Polls servers R) (i : Fin servers) (written : Bool) : Polls servers R :=
  { state with
    link := if written then
        Function.update state.link i { state.link i with
          toServer := (state.link i).toServer ++ [71]
          sent := (state.link i).sent + 1 }
      else state.link
    pc := .waiting i }

/-- What follows a complete `read`. -/
def charge (state : Polls servers R) (i : Fin servers) (usage : Usage R) : Polls servers R :=
  { state with
    p := Function.update state.p i usage.weight
    cpuUsage := Function.update state.cpuUsage i (state.cpuUsage i ++ [usage.cpu])
    memoryUsage := Function.update state.memoryUsage i (state.memoryUsage i ++ [usage.memory])
    ioUsage := Function.update state.ioUsage i (state.ioUsage i ++ [usage.io])
    pc := .asking (i + 1)
    used := Function.update state.used i (state.used i ++ [usage]) }

/-- `read(mon_fd, rec, 3*sizeof(double))` when it has moved these bytes. -/
def receive (state : Polls servers R) (i : Fin servers) (bytes : List Byte) : Polls servers R :=
  let read := { state with
    link := Function.update state.link i { state.link i with
      toDistributor := (state.link i).toDistributor.drop bytes.length }
    received := bytes ++ state.received.drop bytes.length }
  if bytes.length = reportLen R then read.charge i (unpack read.received)
  else { read with pc := .exited (.exit "mon read <> 3*sizeof(double)") }

def nextPass [NeZero servers] (state : Polls servers R) : Polls servers R :=
  { state with pc := if usageLimit ≤ (state.cpuUsage 0).length then .writing else .asking 0 }

def step [NeZero servers] (state : Polls servers R) : Event servers R → Option (Polls servers R)
  | .server i event =>
      ((state.link i).step event).map fun link =>
        { state with link := Function.update state.link i link }
  | .ask written =>
      match state.pc with
      | .asking i => if bound : i < servers then some (state.ask ⟨i, bound⟩ written) else none
      | .waiting _ | .writing | .exited _ => none
  | .receive readn =>
      match state.pc, readn with
      | .waiting _, .error _ =>
          some { state with pc := .exited (.exit "mon read <> 3*sizeof(double)") }
      | .waiting i, .data bytes =>
          if bound : i < servers then
            if bytes.length ≤ reportLen R ∧ bytes <+: (state.link ⟨i, bound⟩).toDistributor then
              some (state.receive ⟨i, bound⟩ bytes)
            else none
          else none
      | _, _ => none
  | .setDistribution =>
      match state.pc with
      | .asking i => if i < servers then none else some { state with d := state.p }.nextPass
      | .waiting _ | .writing | .exited _ => none
  | .writeUsage =>
      match state.pc with
      | .writing => some { state with pc := .exited (.exit "finished!!") }
      | .asking _ | .waiting _ | .exited _ => none

end Polls

end Distributor

end LoadBalance.Monitor
