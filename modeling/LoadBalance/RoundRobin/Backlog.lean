import Mathlib.Algebra.Order.BigOperators.Group.Finset
import Mathlib.Data.Fintype.BigOperators
import LoadBalance.Lib.Family
import LoadBalance.Lib.Machine
import LoadBalance.RoundRobin.LoopBody
import LoadBalance.Stream.Line

/-!
# The replies which nobody reads

Each inner server writes every message back, and the round-robin distributor never reads
from an inner server. What the servers write stays in the buffers of the connections, which
hold only so many bytes. All `write`s between the programs block, so that a server with a
full buffer stops reading, and then the distributor stops inside of a pass.
-/

namespace LoadBalance.RoundRobin

open LoadBalance.Stream (Line)

/-- How many bytes the two buffers of the connection to each inner server hold. -/
structure Buffers (servers : ℕ) where
  toServer : Fin servers → ℕ
  fromServer : Fin servers → ℕ

/-- The service thread and the inner servers, as long as `main` has not returned. -/
structure Backlog (servers : ℕ) where
  thread : Thread servers
  /-- What is left of a pass. The call in front is under way. -/
  calls : List (Call servers Byte)
  /-- How many bytes the `write` to an inner server has moved so far. -/
  moved : ℕ
  /-- The calls which have returned. -/
  made : List (Call servers Byte)
  line : Fin servers → Line Byte
  /-- The calls of `do_something` on each server. -/
  worked : Fin servers → ℕ
  stopped : Option Stop

inductive BacklogEvent (servers : ℕ) where
  /-- A descriptor is handed to the loop. -/
  | pass (fd : Fd) (events : BitVec 32) (answers : Answers Byte)
  /-- The `write` to an inner server moves so many bytes. -/
  | push (count : ℕ)
  /-- A call for a client returns; none of them waits. -/
  | clientCall
  | serverRead (server : Fin servers) (count : ℕ)
  | serverPush (server : Fin servers) (count : ℕ)

namespace Backlog

variable {servers : ℕ}

/-- The variable `mess` of a server holds anything. -/
def start (listenFdOuter : Fd) (serversInner : Fin servers → Fd × Fd)
    (garbage : Fin servers → Message Byte) : Backlog servers where
  thread := .start listenFdOuter serversInner
  calls := []
  moved := 0
  made := []
  line server := { toServer := [], mess := garbage server, echo := [], fromServer := [] }
  worked _ := 0
  stopped := none

/-- A blocking `write` returns when it has moved everything. -/
def Possible (answers : Answers Byte) : Prop :=
  ∀ buf, answers.readn = .data buf → answers.writen = buf.length

instance (answers : Answers Byte) : Decidable (Possible answers) :=
  match readn : answers.readn with
  | .data buf => decidable_of_iff (answers.writen = buf.length) (by simp [Possible, readn])
  | .error _ => isTrue (by simp [Possible, readn])

def setLine (backlog : Backlog servers) (server : Fin servers) (value : Line Byte) :
    Backlog servers :=
  { backlog with line := Function.update backlog.line server value }

/-- The `write` in front goes on, or it has moved everything and returns. -/
def push (backlog : Backlog servers) (call : Call servers Byte) (rest : List (Call servers Byte))
    (length count : ℕ) : Backlog servers :=
  if backlog.moved + count = length then
    { backlog with calls := rest, moved := 0, made := backlog.made ++ [call] }
  else { backlog with moved := backlog.moved + count }

def step (buffers : Buffers servers) (backlog : Backlog servers) (event : BacklogEvent servers) :
    Option (Backlog servers) :=
  if backlog.stopped ≠ none then none
  else
    match event with
    | .pass fd events answers =>
        if backlog.calls = [] ∧ Possible answers then
          match loopBody backlog.thread fd events answers with
          | .error stop => some { backlog with stopped := some stop }
          | .ok (thread, calls) => some { backlog with thread, calls }
        else none
    | .push count =>
        match backlog.calls with
        | .forward server fd data :: rest =>
            let line := backlog.line server
            if 0 < count ∧ backlog.moved + count ≤ data.length ∧
                line.toServer.length + count ≤ buffers.toServer server then
              some ((backlog.push (.forward server fd data) rest data.length count).setLine server
                { line with
                  toServer := line.toServer ++ (data.drop backlog.moved).take count })
            else none
        | _ => none
    | .clientCall =>
        match backlog.calls with
        | .reply fd data :: rest =>
            some { backlog with calls := rest, made := backlog.made ++ [.reply fd data] }
        | .close fd :: rest =>
            some { backlog with calls := rest, made := backlog.made ++ [.close fd] }
        | _ => none
    | .serverRead server count =>
        ((backlog.line server).serve count).map fun line =>
          { backlog.setLine server line with
            worked := Function.update backlog.worked server
              (backlog.worked server + ((backlog.line server).works count).length) }
    | .serverPush server count =>
        let line := backlog.line server
        if 0 < count ∧ count ≤ line.echo.length ∧
            line.fromServer.length + count ≤ buffers.fromServer server then
          some (backlog.setLine server { line with
            echo := line.echo.drop count
            fromServer := line.fromServer ++ line.echo.take count })
        else none

/-- What the calls have written to one of the servers. -/
def forwardedTo (server : Fin servers) (calls : List (Call servers Byte)) : List Byte :=
  calls.flatMap fun call => match call with
    | .forward other _ data => if other = server then data else []
    | .reply _ _ => []
    | .close _ => []

/-- What the call under way has written to the server. -/
def underWay (backlog : Backlog servers) (server : Fin servers) : ℕ :=
  match backlog.calls with
  | .forward other _ _ :: _ => if other = server then backlog.moved else 0
  | _ => 0

/-- The `read` of an inner server moves a whole message. -/
def ReadsWhole (_ : Backlog servers) : BacklogEvent servers → Prop
  | .serverRead _ count => count = messLen
  | _ => True

instance (backlog : Backlog servers) (event : BacklogEvent servers) :
    Decidable (backlog.ReadsWhole event) :=
  match event with
  | .serverRead _ _ => inferInstanceAs (Decidable (_ = _))
  | .pass _ _ _ | .push _ | .clientCall | .serverPush _ _ => instDecidableTrue

/-- The distributor waits for room in the buffer of a server, which itself waits for room
in the other buffer. -/
def Starved (buffers : Buffers servers) (backlog : Backlog servers) (server : Fin servers) :
    Prop :=
  (∃ fd data rest, backlog.calls = .forward server fd data :: rest ∧
      backlog.moved < data.length) ∧
    (backlog.line server).toServer.length = buffers.toServer server ∧
    (backlog.line server).echo ≠ [] ∧
    (backlog.line server).fromServer.length = buffers.fromServer server

/-- What a step does. -/
inductive Moves (buffers : Buffers servers) (backlog : Backlog servers) :
    BacklogEvent servers → Backlog servers → Prop where
  | halts (event : BacklogEvent servers) (idle : backlog.calls = []) (stop : Stop) :
      Moves buffers backlog event { backlog with stopped := some stop }
  | forwards (event : BacklogEvent servers) (idle : backlog.calls = []) (thread : Thread servers)
      (server : Fin servers) (inner fd : Fd) (buf reply : List Byte) (nonempty : buf ≠ []) :
      Moves buffers backlog event
        { backlog with thread, calls := [.forward server inner buf, .reply fd reply] }
  | passes (event : BacklogEvent servers) (idle : backlog.calls = []) (thread : Thread servers)
      (fd : Fd) (calls : List (Call servers Byte)) (shape : calls = [] ∨ calls = [.close fd]) :
      Moves buffers backlog event { backlog with thread, calls }
  | pushes (server : Fin servers) (fd : Fd) (data : List Byte) (rest : List (Call servers Byte))
      (count : ℕ) (front : backlog.calls = .forward server fd data :: rest)
      (positive : 0 < count) (inside : backlog.moved + count ≤ data.length)
      (fits : (backlog.line server).toServer.length + count ≤ buffers.toServer server) :
      Moves buffers backlog (.push count)
        ((backlog.push (.forward server fd data) rest data.length count).setLine server
          { backlog.line server with
            toServer := (backlog.line server).toServer ++ (data.drop backlog.moved).take count })
  | calls (call : Call servers Byte) (rest : List (Call servers Byte))
      (front : backlog.calls = call :: rest)
      (toClient : (∃ fd data, call = .reply fd data) ∨ ∃ fd, call = .close fd) :
      Moves buffers backlog .clientCall
        { backlog with calls := rest, made := backlog.made ++ [call] }
  | reads (server : Fin servers) (count : ℕ) (line : Line Byte)
      (served : (backlog.line server).serve count = some line) :
      Moves buffers backlog (.serverRead server count) { backlog.setLine server line with
        worked := Function.update backlog.worked server
          (backlog.worked server + if count = messLen then 1 else 0) }
  | echoes (server : Fin servers) (count : ℕ) (positive : 0 < count)
      (inside : count ≤ (backlog.line server).echo.length)
      (fits : (backlog.line server).fromServer.length + count ≤ buffers.fromServer server) :
      Moves buffers backlog (.serverPush server count) (backlog.setLine server
        { backlog.line server with
          echo := (backlog.line server).echo.drop count
          fromServer := (backlog.line server).fromServer ++
            (backlog.line server).echo.take count })

variable {buffers : Buffers servers} {backlog next : Backlog servers}

theorem moves_of_step {event : BacklogEvent servers}
    (stepped : backlog.step buffers event = some next) : Moves buffers backlog event next := by
  simp only [step] at stepped
  split at stepped
  · cases stepped
  · cases event with
    | pass fd events answers =>
        simp only at stepped
        split at stepped
        · rename_i possible
          split at stepped
          · cases stepped
            exact .halts _ possible.1 _
          · rename_i thread calls served
            cases stepped
            rcases loopBody_cases served with
              ⟨server, buf, _, nonempty, _, made⟩ | ⟨_, _, made⟩
            · rw [made]
              exact .forwards _ possible.1 _ _ _ _ _ _ nonempty
            · exact .passes _ possible.1 _ fd _ made
        · cases stepped
    | push count =>
        simp only at stepped
        split at stepped
        · rename_i server fd data rest front
          split at stepped
          · rename_i possible
            cases stepped
            exact .pushes _ _ _ _ _ front possible.1 possible.2.1 possible.2.2
          · cases stepped
        · cases stepped
    | clientCall =>
        simp only at stepped
        split at stepped
        · rename_i fd data rest front
          cases stepped
          exact .calls _ _ front (.inl ⟨fd, data, rfl⟩)
        · rename_i fd rest front
          cases stepped
          exact .calls _ _ front (.inr ⟨fd, rfl⟩)
        · cases stepped
    | serverRead server count =>
        rcases Option.map_eq_some_iff.mp stepped with ⟨line, served, rfl⟩
        rcases Line.serve_eq_some served with ⟨_, positive, _, inside, _⟩
        have worked : ((backlog.line server).works count).length =
            if count = messLen then 1 else 0 := by
          rw [Line.works_eq positive inside]
          split <;> rfl
        rw [worked]
        exact .reads _ _ _ served
    | serverPush server count =>
        simp only at stepped
        split at stepped
        · rename_i possible
          cases stepped
          exact .echoes _ _ possible.1 possible.2.1 possible.2.2
        · cases stepped

@[simp]
theorem push_line (call : Call servers Byte) (rest : List (Call servers Byte))
    (length count : ℕ) : (backlog.push call rest length count).line = backlog.line := by
  rw [push]
  split <;> rfl

@[simp]
theorem push_worked (call : Call servers Byte) (rest : List (Call servers Byte))
    (length count : ℕ) : (backlog.push call rest length count).worked = backlog.worked := by
  rw [push]
  split <;> rfl

/-- Everything a server has echoed is still there. -/
structure Hoards (buffers : Buffers servers) (backlog : Backlog servers) : Prop where
  kept : ∀ server, (backlog.line server).fromServer.length + (backlog.line server).echo.length =
    messLen * backlog.worked server
  short : ∀ server, (backlog.line server).echo.length ≤ messLen
  toServer : ∀ server, (backlog.line server).toServer.length ≤ buffers.toServer server
  fromServer : ∀ server, (backlog.line server).fromServer.length ≤ buffers.fromServer server

theorem hoards_start (listenFdOuter : Fd) (serversInner : Fin servers → Fd × Fd)
    (garbage : Fin servers → Message Byte) :
    (start listenFdOuter serversInner garbage).Hoards buffers := by
  constructor <;> simp [start]

/-- A step which changes one connection. -/
theorem Hoards.update (hoards : backlog.Hoards buffers) {server : Fin servers} {line : Line Byte}
    {worked : ℕ} (lines : next.line = Function.update backlog.line server line)
    (workedOn : next.worked = Function.update backlog.worked server worked)
    (kept : line.fromServer.length + line.echo.length = messLen * worked)
    (short : line.echo.length ≤ messLen)
    (toServer : line.toServer.length ≤ buffers.toServer server)
    (fromServer : line.fromServer.length ≤ buffers.fromServer server) :
    next.Hoards buffers := by
  constructor
  case kept =>
    intro other
    by_cases same : other = server
    · subst same
      simpa [lines, workedOn] using kept
    · simpa [lines, workedOn, same] using hoards.kept other
  all_goals rw [lines]
  case short =>
    exact Family.forall_update (fun _ (value : Line Byte) => value.echo.length ≤ messLen)
      hoards.short short
  case toServer =>
    exact Family.forall_update (fun other (value : Line Byte) =>
      value.toServer.length ≤ buffers.toServer other) hoards.toServer toServer
  case fromServer =>
    exact Family.forall_update (fun other (value : Line Byte) =>
      value.fromServer.length ≤ buffers.fromServer other) hoards.fromServer fromServer

theorem Hoards.moves (hoards : backlog.Hoards buffers) {event : BacklogEvent servers}
    (moves : Moves buffers backlog event next) : next.Hoards buffers := by
  have same : ∀ server, Function.update backlog.worked server (backlog.worked server) =
      backlog.worked := fun server => Function.update_eq_self server backlog.worked
  cases moves with
  | halts => exact ⟨hoards.kept, hoards.short, hoards.toServer, hoards.fromServer⟩
  | forwards => exact ⟨hoards.kept, hoards.short, hoards.toServer, hoards.fromServer⟩
  | passes => exact ⟨hoards.kept, hoards.short, hoards.toServer, hoards.fromServer⟩
  | calls => exact ⟨hoards.kept, hoards.short, hoards.toServer, hoards.fromServer⟩
  | pushes server fd data rest count front positive inside fits =>
      apply hoards.update
      · simp only [setLine, push_line]
        rfl
      · simp only [setLine, push_worked]
        exact (same server).symm
      · exact hoards.kept server
      · exact hoards.short server
      · simp only [List.length_append, List.length_take, List.length_drop]
        omega
      · exact hoards.fromServer server
  | reads server count line served =>
      rcases Line.serve_eq_some served with ⟨quiet, _, _, inside, rfl⟩
      have kept := hoards.kept server
      have bound := hoards.toServer server
      rw [quiet, List.length_nil, Nat.add_zero] at kept
      apply hoards.update rfl rfl
      · by_cases whole : count = messLen
        · subst whole
          simp only [if_true]
          rw [List.length_take_of_le inside, Nat.mul_succ]
          omega
        · simp only [whole, if_false, List.length_nil]
          omega
      · split
        · exact (List.length_take_le _ _).trans (by omega)
        · exact Nat.zero_le _
      · simp only [List.length_drop]
        omega
      · exact hoards.fromServer server
  | echoes server count positive inside fits =>
      have kept := hoards.kept server
      have short := hoards.short server
      apply hoards.update
      · rfl
      · exact (same server).symm
      · simp only [List.length_append, List.length_take, List.length_drop]
        omega
      · simp only [List.length_drop]
        omega
      · exact hoards.toServer server
      · simp only [List.length_append, List.length_take]
        omega

variable {listenFdOuter : Fd} {serversInner : Fin servers → Fd × Fd}
  {garbage : Fin servers → Message Byte}

theorem hoards_of_reachable (reachable : Machine.Reachable (step buffers)
    (start listenFdOuter serversInner garbage) backlog) : backlog.Hoards buffers :=
  reachable.invariant (fun state => state.Hoards buffers)
    (fun hoards stepped => hoards.moves (moves_of_step stepped))
    (hoards_start listenFdOuter serversInner garbage)

/--
However the transport cuts the streams and whatever the clients send, an inner server works
on no more messages than fit into the buffer of its replies, and on one more.
-/
theorem worked_le (reachable : Machine.Reachable (step buffers)
    (start listenFdOuter serversInner garbage) backlog) (server : Fin servers) :
    backlog.worked server ≤ buffers.fromServer server / messLen + 1 := by
  have hoards := hoards_of_reachable reachable
  have kept := hoards.kept server
  have short := hoards.short server
  have bound := hoards.fromServer server
  have product : messLen * (backlog.worked server - 1) ≤ buffers.fromServer server := by
    rw [Nat.mul_sub, Nat.mul_one]
    omega
  have quotient := (Nat.le_div_iff_mul_le (by decide)).mpr ((Nat.mul_comm _ _).trans_le product)
  omega

/-- Buffers for one message each. -/
def oneMessage : Buffers 1 where
  toServer _ := messLen
  fromServer _ := messLen

/-- A client sends a chunk which is as long as a message. -/
def chunk : BacklogEvent 1 :=
  .pass 8 EPOLLIN ⟨[], .eagain, .data (List.replicate messLen 0), messLen⟩

/-- Three chunks are forwarded and acknowledged, and a fourth one is read. -/
def sampleEvents : List (BacklogEvent 1) :=
  [.pass 6 EPOLLIN ⟨[(8, 0, 0)], .eagain, .error .eagain, 0⟩,
    chunk, .push messLen, .clientCall, .serverRead (Fin.last 0) messLen,
    .serverPush (Fin.last 0) messLen,
    chunk, .push messLen, .clientCall, .serverRead (Fin.last 0) messLen,
    chunk, .push messLen, .clientCall, chunk]

def sampleStart : Backlog 1 := start 6 (fun _ => (10, 20)) fun _ => .zero

theorem worked_le_sampleEvents :
    ∃ backlog, Machine.Reachable (step oneMessage) sampleStart backlog ∧ backlog.worked 0 = 2 ∧
      backlog.worked 0 ≤ oneMessage.fromServer 0 / messLen + 1 := by
  rcases Machine.exists_reachable_of_any sampleEvents
    (show (Machine.run (step oneMessage) sampleStart sampleEvents).any
      (fun backlog => backlog.worked 0 = 2) = true by decide +kernel)
    with ⟨backlog, reachable, shown⟩
  exact ⟨backlog, reachable, of_decide_eq_true shown, worked_le reachable 0⟩

/-- The calls which a pass can still have to make. -/
inductive Rest : ℕ → List (Call servers Byte) → Prop where
  | nothing : Rest 0 []
  | closing (fd : Fd) : Rest 0 [.close fd]
  | replying (fd : Fd) (reply : List Byte) : Rest 0 [.reply fd reply]
  | forwarding (server : Fin servers) (inner fd : Fd) (data reply : List Byte) (moved : ℕ)
      (unfinished : moved < data.length) :
      Rest moved [.forward server inner data, .reply fd reply]

section Rest

variable {moved : ℕ} {fd : Fd} {data : List Byte} {rest : List (Call servers Byte)}

theorem Rest.of_nil (shape : Rest moved ([] : List (Call servers Byte))) : moved = 0 := by
  cases shape
  rfl

theorem Rest.of_reply (shape : Rest moved (.reply fd data :: rest)) : moved = 0 ∧ rest = [] := by
  cases shape
  exact ⟨rfl, rfl⟩

theorem Rest.of_close (shape : Rest moved (.close fd :: rest)) : moved = 0 ∧ rest = [] := by
  cases shape
  exact ⟨rfl, rfl⟩

theorem Rest.of_forward {server : Fin servers}
    (shape : Rest moved (.forward server fd data :: rest)) :
    moved < data.length ∧ ∃ client reply, rest = [.reply client reply] := by
  cases shape with
  | forwarding _ _ client _ reply _ unfinished => exact ⟨unfinished, client, reply, rfl⟩

end Rest

/-- A reply follows each chunk which was forwarded, and no chunk is empty. -/
structure Orderly (backlog : Backlog servers) : Prop where
  rest : Rest backlog.moved backlog.calls
  paired : (repliedTo (backlog.made ++ backlog.calls)).length =
    (forwards (backlog.made ++ backlog.calls)).length
  nonempty : ∀ server fd data, .forward server fd data ∈ backlog.made → data ≠ []

theorem orderly_start : (start listenFdOuter serversInner garbage).Orderly where
  rest := .nothing
  paired := rfl
  nonempty := by simp [start]

/-- A call which returns takes its place behind the others. -/
theorem Orderly.returns (orderly : backlog.Orderly) {call : Call servers Byte}
    {rest : List (Call servers Byte)} (front : backlog.calls = call :: rest)
    (made : next.made = backlog.made ++ [call]) (calls : next.calls = rest)
    (shape : Rest next.moved rest)
    (some : ∀ server fd data, call = .forward server fd data → data ≠ []) : next.Orderly where
  rest := calls ▸ shape
  paired := by
    have paired := orderly.paired
    rw [front] at paired
    rw [made, calls, List.append_assoc]
    exact paired
  nonempty := by
    intro server fd data callMem
    rw [made, List.mem_append, List.mem_singleton] at callMem
    rcases callMem with before | last
    · exact orderly.nonempty server fd data before
    · exact some server fd data last.symm

theorem Orderly.moves (orderly : backlog.Orderly) {event : BacklogEvent servers}
    (moves : Moves buffers backlog event next) : next.Orderly := by
  have shape := orderly.rest
  have paired := orderly.paired
  cases moves with
  | halts => exact ⟨shape, paired, orderly.nonempty⟩
  | reads => exact ⟨shape, paired, orderly.nonempty⟩
  | echoes => exact ⟨shape, paired, orderly.nonempty⟩
  | forwards _ idle thread server inner fd buf reply nonempty =>
      rw [idle] at shape paired
      refine ⟨?_, ?_, orderly.nonempty⟩
      · refine .forwarding server inner fd buf reply backlog.moved ?_
        rw [shape.of_nil]
        exact List.length_pos_iff.mpr nonempty
      · rw [List.append_nil] at paired
        simp only [repliedTo_append, forwards_append, List.length_append, paired]
        rfl
  | passes _ idle thread fd calls isShort =>
      rw [idle] at shape paired
      rcases isShort with rfl | rfl
      · exact ⟨shape, paired, orderly.nonempty⟩
      · refine ⟨?_, ?_, orderly.nonempty⟩
        · simp only [shape.of_nil]
          exact .closing fd
        · rw [List.append_nil] at paired
          simp only [repliedTo_append, forwards_append, List.length_append, paired]
          rfl
  | calls call rest front toClient =>
      rw [front] at shape
      apply orderly.returns front rfl rfl
      · rcases toClient with ⟨fd, data, rfl⟩ | ⟨fd, rfl⟩
        · simp only [shape.of_reply]
          exact .nothing
        · simp only [shape.of_close]
          exact .nothing
      · rintro server fd data rfl
        rcases toClient with ⟨_, _, impossible⟩ | ⟨_, impossible⟩
        · cases impossible
        · cases impossible
  | pushes server fd data rest count front positive inside fits =>
      rw [front] at shape
      rcases shape.of_forward with ⟨unfinished, client, reply, rfl⟩
      by_cases whole : backlog.moved + count = data.length
      · apply orderly.returns front
        · simp [setLine, push, whole]
        · simp [setLine, push, whole]
        · simp only [setLine, push, whole, if_true]
          exact .replying client reply
        · rintro _ _ _ ⟨⟩
          exact List.length_pos_iff.mp (by omega)
      · refine ⟨?_, ?_, ?_⟩
        · simp only [setLine, push, whole, if_false, front]
          exact .forwarding server fd client data reply _ (by omega)
        · simpa only [setLine, push, whole, if_false] using paired
        · simpa only [setLine, push, whole, if_false] using orderly.nonempty

theorem Orderly.replies_le_forwards (orderly : backlog.Orderly) :
    (repliedTo backlog.made).length ≤ (forwards backlog.made).length := by
  have shape := orderly.rest
  have paired := orderly.paired
  rw [repliedTo_append, forwards_append, List.length_append, List.length_append] at paired
  generalize backlog.moved = moved, backlog.calls = calls at shape paired
  cases shape with
  | nothing => exact paired.le
  | closing fd => exact paired.le
  | replying fd reply =>
      simp only [repliedTo, forwards, List.filterMap_cons, List.filterMap_nil, List.length_cons,
        List.length_nil] at paired ⊢
      omega
  | forwarding server inner fd data reply moved unfinished =>
      simp only [repliedTo, forwards, List.filterMap_cons, List.filterMap_nil, List.length_cons,
        List.length_nil] at paired ⊢
      omega

theorem forwardedTo_append (server : Fin servers) (first second : List (Call servers Byte)) :
    forwardedTo server (first ++ second) = forwardedTo server first ++ forwardedTo server second :=
  List.flatMap_append

/-- A chunk which is not empty goes to one of the servers. -/
theorem forwards_le_sum {calls : List (Call servers Byte)}
    (nonempty : ∀ server fd data, .forward server fd data ∈ calls → data ≠ []) :
    (forwards calls).length ≤ ∑ server, (forwardedTo server calls).length := by
  induction calls with
  | nil => simp [forwards]
  | cons call calls ih =>
      have later := ih fun server fd data callMem => nonempty server fd data (.tail _ callMem)
      cases call with
      | reply fd data => exact later
      | close fd => exact later
      | forward server fd data =>
          have positive := List.length_pos_iff.mpr (nonempty server fd data List.mem_cons_self)
          have split : ∀ other, (forwardedTo other (.forward server fd data :: calls)).length =
              (if server = other then data.length else 0) + (forwardedTo other calls).length := by
            intro other
            by_cases same : server = other
            · simp [forwardedTo, same]
            · simp [forwardedTo, same]
          simp only [split, Finset.sum_add_distrib, Finset.sum_ite_eq, Finset.mem_univ, if_true]
          change (forwards calls).length + 1 ≤ _
          omega

/-- What was written to a server is in front of it, or it has worked on it. -/
def Balanced (backlog : Backlog servers) : Prop :=
  ∀ server, (forwardedTo server backlog.made).length + backlog.underWay server =
    (backlog.line server).toServer.length + messLen * backlog.worked server

theorem balanced_start :
    (start listenFdOuter serversInner garbage).Balanced := by
  intro server
  simp [start, forwardedTo, underWay]

/-- A step which does not touch the connections, and neither ends nor begins to write. -/
theorem Balanced.frame (balanced : backlog.Balanced)
    (made : ∀ server, forwardedTo server next.made = forwardedTo server backlog.made)
    (underWay : ∀ server, next.underWay server = backlog.underWay server)
    (line : next.line = backlog.line) (worked : next.worked = backlog.worked) :
    next.Balanced := by
  intro server
  rw [made, underWay, line, worked]
  exact balanced server

theorem Balanced.moves (balanced : backlog.Balanced) (orderly : backlog.Orderly)
    {event : BacklogEvent servers} (permitted : backlog.ReadsWhole event)
    (moves : Moves buffers backlog event next) : next.Balanced := by
  have shape := orderly.rest
  cases moves with
  | halts => exact balanced
  | forwards _ idle thread server inner fd buf reply nonempty =>
      rw [idle] at shape
      refine balanced.frame (fun _ => rfl) (fun other => ?_) rfl rfl
      simp [underWay, idle, shape.of_nil]
  | passes _ idle thread fd calls isShort =>
      refine balanced.frame (fun _ => rfl) (fun other => ?_) rfl rfl
      rcases isShort with rfl | rfl
      · simp [underWay, idle]
      · simp [underWay, idle]
  | calls call rest front toClient =>
      rw [front] at shape
      rcases toClient with ⟨fd, data, rfl⟩ | ⟨fd, rfl⟩
      · refine balanced.frame (fun other => ?_) (fun other => ?_) rfl rfl
        · simp [forwardedTo]
        · simp [underWay, front, shape.of_reply]
      · refine balanced.frame (fun other => ?_) (fun other => ?_) rfl rfl
        · simp [forwardedTo]
        · simp [underWay, front, shape.of_close]
  | pushes server fd data rest count front positive inside fits =>
      rw [front] at shape
      rcases shape.of_forward with ⟨_, client, reply, rfl⟩
      intro other
      have before := balanced other
      simp only [underWay, front] at before
      have size : ((data.drop backlog.moved).take count).length = count :=
        List.length_take_of_le (by rw [List.length_drop]; omega)
      by_cases whole : backlog.moved + count = data.length
      · by_cases same : server = other
        · subst same
          simp only [if_true] at before
          simp [underWay, setLine, push, whole, forwardedTo, size] at before ⊢
          omega
        · simpa [underWay, setLine, push, whole, forwardedTo_append, forwardedTo, same,
            Ne.symm same] using before
      · by_cases same : server = other
        · subst same
          simp only [if_true] at before
          simp [underWay, setLine, push, whole, front, size]
          omega
        · simpa [underWay, setLine, push, whole, front, same, Ne.symm same] using before
  | reads server count line served =>
      rcases Line.serve_eq_some served with ⟨_, _, _, inside, rfl⟩
      have whole : count = messLen := permitted
      subst whole
      intro other
      have before := balanced other
      by_cases same : other = server
      · subst same
        simp only [underWay, setLine, Function.update_self, List.length_drop, if_true,
          Nat.mul_succ] at before ⊢
        omega
      · simpa [underWay, setLine, same] using before
  | echoes server count positive inside fits =>
      intro other
      have before := balanced other
      by_cases same : other = server
      · subst same
        simpa [underWay, setLine] using before
      · simpa [underWay, setLine, same] using before

/--
When the inner servers read whole messages, what is written to a server in the whole run fits
into the two buffers of its connection and one message more. So the clients get at most so
many replies, however many requests they send.
-/
theorem replies_le {events : List (BacklogEvent servers)}
    (whole : Machine.RunsUnder (step buffers) ReadsWhole
      (start listenFdOuter serversInner garbage) events backlog) :
    (∀ server, (forwardedTo server backlog.made).length ≤
        buffers.toServer server + buffers.fromServer server + messLen) ∧
      (repliedTo backlog.made).length ≤
        ∑ server, (buffers.toServer server + buffers.fromServer server + messLen) := by
  have both := whole.invariant
    (fun state => state.Hoards buffers ∧ state.Orderly ∧ state.Balanced)
    (fun before permitted stepped =>
      ⟨before.1.moves (moves_of_step stepped), before.2.1.moves (moves_of_step stepped),
        before.2.2.moves before.2.1 permitted (moves_of_step stepped)⟩)
    ⟨hoards_start listenFdOuter serversInner garbage, orderly_start, balanced_start⟩
  rcases both with ⟨hoards, orderly, balanced⟩
  have bound : ∀ server, (forwardedTo server backlog.made).length ≤
      buffers.toServer server + buffers.fromServer server + messLen := by
    intro server
    have written := balanced server
    have kept := hoards.kept server
    have short := hoards.short server
    have toServer := hoards.toServer server
    have fromServer := hoards.fromServer server
    omega
  refine ⟨bound, ?_⟩
  calc (repliedTo backlog.made).length ≤ (forwards backlog.made).length :=
        orderly.replies_le_forwards
    _ ≤ ∑ server, (forwardedTo server backlog.made).length := forwards_le_sum orderly.nonempty
    _ ≤ _ := Finset.sum_le_sum fun server _ => bound server

theorem replies_le_sampleEvents :
    ∃ backlog, Machine.RunsUnder (step oneMessage) ReadsWhole sampleStart sampleEvents backlog ∧
      (repliedTo backlog.made).length = 3 ∧
        (forwardedTo 0 backlog.made).length ≤
          oneMessage.toServer 0 + oneMessage.fromServer 0 + messLen := by
  rcases Machine.RunsUnder.exists_of_any sampleEvents
    (show (Machine.run (Machine.RunsUnder.guarded (step oneMessage) ReadsWhole) sampleStart
      sampleEvents).any (fun backlog => (repliedTo backlog.made).length = 3) = true by
        decide +kernel)
    with ⟨backlog, whole, shown⟩
  exact ⟨backlog, whole, of_decide_eq_true shown, (replies_le whole).1 0⟩

/-- A server which waits for room stays as it is, and so does the distributor. -/
theorem Starved.moves {server : Fin servers} (starved : backlog.Starved buffers server)
    {event : BacklogEvent servers} (moves : Moves buffers backlog event next) :
    next.Starved buffers server ∧ next.calls = backlog.calls ∧ next.made = backlog.made ∧
      next.worked server = backlog.worked server := by
  rcases starved with ⟨⟨fd, data, rest, front, unfinished⟩, full, unechoed, replyFull⟩
  cases moves with
  | halts _ idle _ =>
      rw [front] at idle
      cases idle
  | forwards _ idle =>
      rw [front] at idle
      cases idle
  | passes _ idle =>
      rw [front] at idle
      cases idle
  | calls call others frontCall toClient =>
      rw [front, List.cons.injEq] at frontCall
      rcases toClient with ⟨_, _, isReply⟩ | ⟨_, isClose⟩
      · rw [← frontCall.1] at isReply
        cases isReply
      · rw [← frontCall.1] at isClose
        cases isClose
  | pushes other otherFd otherData others count frontPush positive inside fits =>
      rw [front, List.cons.injEq] at frontPush
      cases frontPush.1
      omega
  | reads other count line served =>
      have different : server ≠ other := by
        rintro rfl
        exact unechoed (Line.serve_eq_some served).1
      refine ⟨⟨⟨fd, data, rest, front, unfinished⟩, ?_⟩, rfl, rfl, ?_⟩
      · simpa [setLine, different] using ⟨full, unechoed, replyFull⟩
      · simp [different]
  | echoes other count positive inside fits =>
      have different : server ≠ other := by
        rintro rfl
        omega
      refine ⟨⟨⟨fd, data, rest, front, unfinished⟩, ?_⟩, rfl, rfl, rfl⟩
      simpa [setLine, different] using ⟨full, unechoed, replyFull⟩

/--
As soon as neither the `write` to an inner server nor this server can go on, both wait for
each other for good: nobody gets an answer any more, whatever the others do.
-/
theorem starved_forever {server : Fin servers} {fd : Fd} {data : List Byte}
    {rest : List (Call servers Byte)} (room : 0 < buffers.toServer server)
    (reachable : Machine.Reachable (step buffers)
      (start listenFdOuter serversInner garbage) backlog)
    (running : backlog.stopped = none) (front : backlog.calls = .forward server fd data :: rest)
    (stuck : ∀ count, backlog.step buffers (.push count) = none ∧
      backlog.step buffers (.serverRead server count) = none ∧
      backlog.step buffers (.serverPush server count) = none) :
    ∀ final, Machine.Reachable (step buffers) backlog final →
      final.Starved buffers server ∧ final.made = backlog.made ∧
        final.worked server = backlog.worked server := by
  have hoards := hoards_of_reachable reachable
  have orderly := reachable.invariant Orderly
    (fun orderly stepped => orderly.moves (moves_of_step stepped)) orderly_start
  have shape := orderly.rest
  rw [front] at shape
  have unfinished := shape.of_forward.1
  have full : (backlog.line server).toServer.length = buffers.toServer server := by
    by_contra notFull
    have bound := hoards.toServer server
    have blocked := (stuck 1).1
    simp only [step, running, front] at blocked
    rw [if_neg (by simp), if_pos ⟨by omega, by omega, by omega⟩] at blocked
    cases blocked
  have unechoed : (backlog.line server).echo ≠ [] := by
    intro quiet
    have blocked := (stuck 1).2.1
    simp only [step, running] at blocked
    rw [if_neg (by simp), Line.serve_eq quiet (by omega) (by decide) (by omega)] at blocked
    cases blocked
  have replyFull : (backlog.line server).fromServer.length = buffers.fromServer server := by
    by_contra notFull
    have bound := hoards.fromServer server
    have positive := List.length_pos_iff.mpr unechoed
    have blocked := (stuck 1).2.2
    simp only [step, running] at blocked
    rw [if_neg (by simp), if_pos ⟨by omega, by omega, by omega⟩] at blocked
    cases blocked
  intro final reached
  have kept := reached.invariant
    (fun state => state.Starved buffers server ∧ state.made = backlog.made ∧
      state.worked server = backlog.worked server)
    (fun before stepped => by
      rcases before.1.moves (moves_of_step stepped) with ⟨starved, _, made, worked⟩
      exact ⟨starved, made.trans before.2.1, worked.trans before.2.2⟩)
    ⟨⟨⟨fd, data, rest, front, unfinished⟩, full, unechoed, replyFull⟩, rfl, rfl⟩
  exact kept

/-- At the end of the sample the distributor and its server are stuck. -/
theorem starved_forever_sampleEvents :
    ∃ backlog, Machine.Reachable (step oneMessage) sampleStart backlog ∧
      ∀ final, Machine.Reachable (step oneMessage) backlog final →
        final.made = backlog.made := by
  rcases Machine.exists_reachable_of_any sampleEvents
    (show (Machine.run (step oneMessage) sampleStart sampleEvents).any (fun backlog =>
      backlog.stopped = none ∧ backlog.calls = [.forward 0 10 (List.replicate messLen 0),
          .reply 8 correctRes] ∧
        (backlog.line 0).toServer.length = messLen ∧ (backlog.line 0).echo ≠ [] ∧
        (backlog.line 0).fromServer.length = messLen) = true by decide +kernel)
    with ⟨backlog, reachable, shown⟩
  rcases of_decide_eq_true shown with ⟨running, front, full, unechoed, replyFull⟩
  refine ⟨backlog, reachable, fun final reached => ?_⟩
  refine (starved_forever (by decide) reachable running front ?_ final reached).2.1
  intro count
  refine ⟨?_, ?_, ?_⟩
  · simp only [step, running, front]
    rw [if_neg (by simp), if_neg]
    rintro ⟨positive, _, fits⟩
    rw [full] at fits
    change messLen + count ≤ messLen at fits
    omega
  · simp [step, running, Line.serve, unechoed]
  · simp only [step, running]
    rw [if_neg (by simp), if_neg]
    rintro ⟨positive, _, fits⟩
    rw [replyFull] at fits
    change messLen + count ≤ messLen at fits
    omega

end Backlog

end LoadBalance.RoundRobin
