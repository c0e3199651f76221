import LoadBalance.Lib.Machine
import LoadBalance.RoundRobin.LoopBody
import LoadBalance.Stream.Line

/-!
# Clients, round-robin distributor and inner servers

The loop of the round-robin distributor and the loops of the inner servers, joined by
byte streams. A `read` or a `write` moves any part of what it was asked to move. Every
byte of a request carries the number of the request, so that it can be said where the
requests have gone; the programs do not see the numbers.
-/

namespace LoadBalance.RoundRobin

open LoadBalance.Stream (Line)

/-- A byte, with the number of the request it belongs to. -/
structure Tagged where
  byte : Byte
  request : Option ℕ
deriving DecidableEq

/-- What the programs store belongs to no request. -/
instance : Cell Tagged where
  ofByte byte := ⟨byte, none⟩
  toByte cell := cell.byte
  toByte_ofByte _ := rfl

/-- `BUFSIZ` -/
def bufsiz : ℕ := 8192

/-- A request, and the connection on which it was sent. -/
structure Request where
  fd : Fd
  cells : List Tagged
deriving DecidableEq

/-- A reply, and the chunk which it answers. -/
structure Handled where
  chunk : List Tagged
  reply : List Tagged
deriving DecidableEq

/-- An inner server with its connection, and the messages it has worked on. -/
structure Server where
  line : Line Tagged
  worked : List (List Tagged)

structure Exchange (servers : ℕ) where
  thread : Thread servers
  server : Fin servers → Server
  /-- What the distributor has not read yet of a connection. -/
  unread : Fd → List Tagged
  /-- The connections whose sending side the client has shut down. -/
  shut : Finset Fd
  requests : List Request
  handled : List Handled

inductive ExchangeEvent (servers : ℕ) where
  /-- The listening socket is handed to the loop. -/
  | accept (accepted : List Fd)
  | send (fd : Fd) (data : List Byte)
  | shutdown (fd : Fd)
  /-- A client is handed to the loop: its `read` moves `count` bytes, and the `write` to the
  inner server returns `writen`. -/
  | read (fd : Fd) (count : ℕ) (writen : ℤ)
  | again (fd : Fd)
  | eof (fd : Fd)
  | serverRead (server : Fin servers) (count : ℕ)
  /-- The server's `write` moves `count` bytes, and the loop does not look at the result. -/
  | serverWrite (server : Fin servers) (count : ℕ)

/-- Some byte belongs to the given request. -/
def Touches (number : ℕ) (cells : List Tagged) : Prop := ∃ cell ∈ cells, cell.request = some number

instance (number : ℕ) (cells : List Tagged) : Decidable (Touches number cells) :=
  inferInstanceAs (Decidable (∃ cell ∈ cells, _))

/-- The messages on which an iteration of the server's loop works. -/
def worksOn (line : Line Tagged) (count : ℕ) : List (List Tagged) :=
  match InnerServer.loopBody line.mess (.data (line.toServer.take count)) with
  | .error _ => []
  | .ok (_, actions) => InnerServer.echoes actions

namespace Exchange

variable {servers : ℕ}

def start (listenFdOuter : Fd) (serversInner : Fin servers → Fd × Fd)
    (garbage : Fin servers → Message Byte) : Exchange servers where
  thread := .start listenFdOuter serversInner
  server index := { line := ⟨[], .ofBytes (garbage index), [], []⟩, worked := [] }
  unread _ := []
  shut := ∅
  requests := []
  handled := []

/-- A call of the loop body, in the pass which has read `chunk`. Of a write to an inner server
`moved` bytes arrive. -/
def perform (chunk : List Tagged) (moved : ℕ) (exchange : Exchange servers) :
    Call servers Tagged → Exchange servers
  | .forward server _ data =>
      let this := exchange.server server
      { exchange with
        server := Function.update exchange.server server { this with
          line := { this.line with toServer := this.line.toServer ++ data.take moved } } }
  | .reply _ data => { exchange with handled := exchange.handled ++ [⟨chunk, data⟩] }
  | .close fd => { exchange with shut := exchange.shut.erase fd }

/-- A pass of the loop, for the chunk which is read in it. -/
def pass (exchange : Exchange servers) (fd : Fd) (chunk : List Tagged) (answers : Answers Tagged) :
    Option (Exchange servers) :=
  match loopBody exchange.thread fd EPOLLIN answers with
  | .error _ => none
  | .ok (thread, calls) =>
      some (calls.foldl (perform chunk answers.writen.toNat) { exchange with thread := thread })

/-- A client connection which the loop serves. -/
def Connected (exchange : Exchange servers) (fd : Fd) : Prop :=
  fd ∈ exchange.thread.interest ∧ fd ≠ exchange.thread.listenFdOuter

instance (exchange : Exchange servers) (fd : Fd) : Decidable (exchange.Connected fd) :=
  inferInstanceAs (Decidable (_ ∧ _))

/-- The answers to a pass which accepts nothing. -/
def reading (readn : ReadResult Tagged) (writen : ℤ) : Answers Tagged where
  accepted := []
  acceptErrno := .eagain
  readn := readn
  writen := writen

def step (exchange : Exchange servers) (event : ExchangeEvent servers) :
    Option (Exchange servers) :=
  match event with
  | .accept accepted =>
      exchange.pass exchange.thread.listenFdOuter [] {
        reading (.error .eagain) 0 with
        accepted := accepted.map fun fd => (fd, 0, 0) }
  | .send fd data =>
      if exchange.Connected fd ∧ fd ∉ exchange.shut ∧ data.length = normalLen then
        let cells := data.map fun byte => ⟨byte, some exchange.requests.length⟩
        some { exchange with
          unread := Function.update exchange.unread fd (exchange.unread fd ++ cells)
          requests := exchange.requests ++ [⟨fd, cells⟩] }
      else none
  | .shutdown fd =>
      if exchange.Connected fd then some { exchange with shut := insert fd exchange.shut } else none
  | .read fd count writen =>
      if exchange.Connected fd ∧ (0 < count ∧ count ≤ bufsiz ∧
          count ≤ (exchange.unread fd).length) ∧ (-1 ≤ writen ∧ writen ≤ count) then
        pass { exchange with
            unread := Function.update exchange.unread fd ((exchange.unread fd).drop count) }
          fd ((exchange.unread fd).take count)
          (reading (.data ((exchange.unread fd).take count)) writen)
      else none
  | .again fd =>
      if exchange.Connected fd then exchange.pass fd [] (reading (.error .eagain) 0) else none
  | .eof fd =>
      if exchange.Connected fd ∧ exchange.unread fd = [] ∧ fd ∈ exchange.shut then
        exchange.pass fd [] (reading (.data []) 0)
      else none
  | .serverRead server count =>
      let this := exchange.server server
      (this.line.serve count).map fun line =>
        { exchange with
          server := Function.update exchange.server server
            ⟨line, this.worked ++ worksOn this.line count⟩ }
  | .serverWrite server count =>
      let this := exchange.server server
      if 0 < count ∧ count ≤ this.line.echo.length then
        some { exchange with
          server := Function.update exchange.server server { this with
            line := { this.line with
              echo := []
              fromServer := this.line.fromServer ++ this.line.echo.take count } } }
      else none

/-- The message of exactly one execution contains the request undivided, and no other
execution has to do with it. -/
def ExecutedOnce (exchange : Exchange servers) (number : ℕ) (request : Request) : Prop :=
  ∃ server message,
    (exchange.server server).worked.filter (fun message => Touches number message) = [message] ∧
      request.cells <:+: message ∧
      ∀ other, other ≠ server → ∀ message ∈ (exchange.server other).worked, ¬Touches number message

/-- The request is still as a whole on its way to an inner server. -/
def UnderWay (exchange : Exchange servers) (request : Request) : Prop :=
  ∃ server, request.cells <:+: (exchange.server server).line.toServer

/-- Exactly one reply has been sent for the request, and for nothing else; and if it is
`correct_res`, the request is executed exactly once. -/
def AnsweredOnce (exchange : Exchange servers) (number : ℕ) (request : Request) : Prop :=
  ∃ reply, exchange.handled.filter (fun entry => Touches number entry.chunk) =
      [⟨request.cells, reply⟩] ∧
    reply.length = normalLen ∧
    (reply = correctRes → exchange.UnderWay request ∨ exchange.ExecutedOnce number request)

/-- Every request which the distributor has begun to read is answered once, and executed once
if this is acknowledged. -/
def ExactlyOnce (exchange : Exchange servers) : Prop :=
  ∀ number request, exchange.requests[number]? = some request →
    request.cells <:+: exchange.unread request.fd ∨ exchange.AnsweredOnce number request

end Exchange

end LoadBalance.RoundRobin
