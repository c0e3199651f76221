import Mathlib.Tactic.Simps.Basic
import LoadBalance.Lib.Machine
import LoadBalance.InnerServer
import LoadBalance.Distributor.LoopBody

/-!
# Distributor, inner servers and clients

The distributor's loop and the loops of the inner servers, joined by a transport which
moves whole messages: each `write` puts one packet into the stream and each `read` takes
one out. Any descriptor may be handed to the loop at any time, any inner server may be
drawn, and every write to an inner server may fail without moving anything.

The serial number of a packet and the logs of requests, forwards and replies are not
data of the programs. They only record which request a packet carries. A connection is
one result of `accept`: its number is never used again, while the number of its
descriptor may be.
-/

namespace LoadBalance.Relay

open Distributor (Thread Answers Call loopBody)

/-- The number of a connection, unlike a descriptor given out only once. -/
abbrev ConnId := ℕ

/-- What a descriptor of the distributor's process stands for. -/
inductive Obj (servers : ℕ) where
  | std
  | listenInner
  | listenOuter
  | epoll
  | work (server : Fin servers)
  | mon (server : Fin servers)
  | client (conn : ConnId)
deriving DecidableEq

inductive Phase where
  | unborn
  | backlog
  | accepted
  | closed
deriving DecidableEq

/-- The client's sending direction: `ended` after `shutdown` or `close`. -/
inductive Sending where
  | going
  | ended
  | reset
deriving DecidableEq

/-- A client's connection, with both of its streams. -/
structure Conn where
  phase : Phase
  sending : Sending
  /-- How many requests the client has sent. -/
  sent : ℕ
  /-- The requests which the distributor has not read yet. -/
  inbound : List (List Byte)
  /-- All replies which the distributor has written. -/
  outbound : List (List Byte)
  /-- How many of them the client has read. -/
  received : ℕ
  sawEof : Bool
deriving DecidableEq

structure Packet where
  data : List Byte
  serial : ℕ
deriving DecidableEq

/-- A write of the reply branch, and the connection which its descriptor stood for. -/
structure Reply where
  serial : ℕ
  data : List Byte
  target : Option ConnId
deriving DecidableEq

/-- The connection to an inner server, with the thread at its other end. -/
structure Link where
  toServer : List Packet
  mess : Message Byte
  /-- What the server is about to write, between its `read` and its `write`. -/
  held : Option Packet
  fromServer : List Packet
  /-- The requests forwarded so far. -/
  forwarded : List ℕ
  replies : List Reply
deriving DecidableEq

structure World (servers : ℕ) where
  thread : Thread servers Byte
  table : Fd → Option (Obj servers)
  backlog : List ConnId
  conn : ConnId → Conn
  link : Fin servers → Link
  /-- The connections from which requests were read; a serial number is a position here. -/
  requests : List ConnId
  halted : Option Halt

inductive Event (servers : ℕ) where
  | connect (conn : ConnId)
  | send (conn : ConnId) (request : List Byte)
  | shutdown (conn : ConnId)
  | reset (conn : ConnId)
  /-- The client reads a reply, or the end of file. -/
  | receive (conn : ConnId)
  /-- The listening socket is handed to the loop. -/
  | listen (answers : Answers servers Byte)
  /-- Another descriptor is handed to the loop; `moved` is whether the write to the
  selected inner server, if there is one, goes through. -/
  | ready (fd : Fd) (index : Fin servers) (moved : Bool)
  | serverRead (server : Fin servers)
  | serverWrite (server : Fin servers)

/-- The descriptor which an event hands to the loop, other than the listening socket. -/
def Event.readyFd {servers : ℕ} : Event servers → Option Fd
  | .ready fd _ _ => some fd
  | _ => none

def Conn.unborn : Conn where
  phase := .unborn
  sending := .going
  sent := 0
  inbound := []
  outbound := []
  received := 0
  sawEof := false

/-- A `read` on the distributor's side of the connection. -/
def Conn.read (conn : Conn) : ReadResult Byte × Conn :=
  match conn.inbound, conn.sending with
  | request :: rest, _ => (.data request, { conn with inbound := rest })
  | [], .going => (.error .eagain, conn)
  | [], .ended => (.data [], conn)
  | [], .reset => (.error .econnreset, conn)

/-- Everything on its way to the inner server and back, in the order of the forwards. -/
def Link.packets (link : Link) : List Packet :=
  link.fromServer ++ link.held.toList ++ link.toServer

def Packet.fd (packet : Packet) : Fd := loadFd packet.data

namespace World

variable {servers : ℕ}

@[simps]
def setConn (world : World servers) (conn : ConnId) (value : Conn) : World servers :=
  { world with conn := Function.update world.conn conn value }

@[simps]
def setLink (world : World servers) (server : Fin servers) (value : Link) : World servers :=
  { world with link := Function.update world.link server value }

@[simps]
def setTable (world : World servers) (fd : Fd) (value : Option (Obj servers)) : World servers :=
  { world with table := Function.update world.table fd value }

def clientAt (world : World servers) (fd : Fd) : Option ConnId :=
  match world.table fd with
  | some (.client conn) => some conn
  | _ => none

/-- One successful `accept`, which returns a descriptor that is not open. -/
def acceptOne (world : World servers) (fd : Fd) : Option (World servers) :=
  match world.backlog with
  | [] => none
  | conn :: backlog =>
      if world.table fd = none ∧ 0 ≤ fd.toInt then
        some (({ world with backlog := backlog }.setTable fd (some (.client conn))).setConn conn
          { world.conn conn with phase := .accepted })
      else none

@[simps!]
def answer (world : World servers) (conn : ConnId) (data : List Byte) : World servers :=
  world.setConn conn { world.conn conn with outbound := (world.conn conn).outbound ++ [data] }

@[simps!]
def enqueue (world : World servers) (server : Fin servers) (packet : Packet) : World servers :=
  world.setLink server { world.link server with
    toServer := (world.link server).toServer ++ [packet]
    forwarded := (world.link server).forwarded ++ [packet.serial] }

/-- The effect of a `write`. On a descriptor which is not open it has none. -/
def write (world : World servers) (serial : ℕ) (moved : Bool) (fd : Fd) (data : List Byte) :
    World servers :=
  match world.table fd with
  | some (.client conn) => world.answer conn data
  | some (.work server) => if moved then world.enqueue server ⟨data, serial⟩ else world
  | _ => world

def close (world : World servers) (fd : Fd) : World servers :=
  match world.table fd with
  | some (.client conn) =>
      (world.setTable fd none).setConn conn { world.conn conn with phase := .closed }
  | _ => world.setTable fd none

def perform (serial : ℕ) (moved : Bool) (world : World servers) : Call Byte → World servers
  | .write fd data => world.write serial moved fd data
  | .close fd => world.close fd

/-- The accept loop, which ends with `EAGAIN` only if nobody is left to accept. -/
def serveListen (world : World servers) (answers : Answers servers Byte) :
    Option (World servers) :=
  match Machine.run acceptOne world (answers.accepted.map Prod.fst) with
  | none => none
  | some accepted =>
      if answers.acceptErrno = .eagain ∧ accepted.backlog ≠ [] then none
      else
        match loopBody world.thread world.thread.listenFdOuter EPOLLIN answers with
        | .error halt => some { world with halted := some halt }
        | .ok (thread, _) => some { accepted with thread := thread }

def isRequest : ReadResult Byte → Bool
  | .data buf => buf.length = normalLen
  | .error _ => false

/-- The answers to the calls of a pass for a client descriptor. -/
def clientAnswers (readn : ReadResult Byte) (index : Fin servers) (moved : Bool) :
    Answers servers Byte where
  accepted := []
  acceptErrno := .eagain
  readn := readn
  index := index
  writen := if moved then messLen else -1

/-- The answers to the calls of a pass for a work descriptor, which draws no server. -/
def serverAnswers (data : List Byte) (server : Fin servers) : Answers servers Byte where
  accepted := []
  acceptErrno := .eagain
  readn := .data data
  index := server
  writen := 0

/-- A pass of the loop for a client descriptor. -/
def serveClient (world : World servers) (fd : Fd) (conn : ConnId) (index : Fin servers)
    (moved : Bool) : World servers :=
  let (readn, rest) := (world.conn conn).read
  match loopBody world.thread fd EPOLLIN (clientAnswers readn index moved) with
  | .error halt => { world with halted := some halt }
  | .ok (thread, calls) =>
      calls.foldl (perform world.requests.length moved)
        ({ world with
            thread := thread
            requests := world.requests ++ if isRequest readn then [conn] else []
          }.setConn conn rest)

def recordReply (world : World servers) (serial : ℕ) : Call Byte → Option Reply
  | .write fd data => some ⟨serial, data, world.clientAt fd⟩
  | .close _ => none

/-- A pass of the loop for a work descriptor. A `read` with nothing to read would block,
and `epoll_wait` does not report the descriptor then. -/
def serveServer (world : World servers) (fd : Fd) (server : Fin servers) :
    Option (World servers) :=
  match (world.link server).fromServer with
  | [] => none
  | packet :: rest =>
      match loopBody world.thread fd EPOLLIN (serverAnswers packet.data server) with
      | .error halt => some { world with halted := some halt }
      | .ok (thread, calls) =>
          some (calls.foldl (perform packet.serial false)
            ({ world with thread := thread }.setLink server { world.link server with
              fromServer := rest
              replies := (world.link server).replies ++
                calls.filterMap (world.recordReply packet.serial) }))

/-- The inner server reads, works on the message and is about to write it back. -/
def serverRead (world : World servers) (server : Fin servers) : Option (World servers) :=
  match (world.link server).held, (world.link server).toServer with
  | none, packet :: rest =>
      match InnerServer.loopBody (world.link server).mess (.data packet.data) with
      | .error _ => none
      | .ok (mess, actions) =>
          some (world.setLink server { world.link server with
            toServer := rest
            mess := mess
            held := (InnerServer.echoes actions).head?.map fun data => ⟨data, packet.serial⟩ })
  | _, _ => none

def serverWrite (world : World servers) (server : Fin servers) : Option (World servers) :=
  match (world.link server).held with
  | none => none
  | some packet =>
      some (world.setLink server { world.link server with
        held := none
        fromServer := (world.link server).fromServer ++ [packet] })

def clientStep (world : World servers) (conn : ConnId) (next : Conn) (enabled : Prop)
    [Decidable enabled] : Option (World servers) :=
  if (world.conn conn).phase ≠ .unborn ∧ enabled then some (world.setConn conn next) else none

/-- One step of one of the parties, while the distributor is running. -/
def step (world : World servers) (event : Event servers) : Option (World servers) :=
  if world.halted ≠ none then none
  else
    match event with
    | .connect conn =>
        if (world.conn conn).phase = .unborn then
          some ({ world with backlog := world.backlog ++ [conn] }.setConn conn
            { world.conn conn with phase := .backlog })
        else none
    | .send conn request =>
        world.clientStep conn { world.conn conn with
            sent := (world.conn conn).sent + 1
            inbound := (world.conn conn).inbound ++ [request] }
          ((world.conn conn).sending = .going ∧ request.length = normalLen)
    | .shutdown conn =>
        world.clientStep conn { world.conn conn with sending := .ended }
          ((world.conn conn).sending = .going)
    | .reset conn =>
        world.clientStep conn { world.conn conn with sending := .reset, inbound := [] } True
    | .receive conn =>
        if (world.conn conn).received < (world.conn conn).outbound.length then
          world.clientStep conn
            { world.conn conn with received := (world.conn conn).received + 1 } True
        else
          world.clientStep conn { world.conn conn with sawEof := true }
            ((world.conn conn).phase = .closed)
    | .listen answers => world.serveListen answers
    | .ready fd index moved =>
        match world.table fd with
        | some (.client conn) => some (world.serveClient fd conn index moved)
        | some (.work server) => world.serveServer fd server
        | _ => none
    | .serverRead server => world.serverRead server
    | .serverWrite server => world.serverWrite server

end World

end LoadBalance.Relay
