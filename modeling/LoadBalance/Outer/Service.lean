import Mathlib.Data.Finset.Card
import LoadBalance.Relay.Start

/-!
# The distributor and any clients

The loop of `threadFunc` in `algorithm_distributor.cc` between clients which connect, send
bytes, close and abort as they like, and a system with a limit on open descriptors. The
entries of `events_` come from one `epoll_wait`: registered descriptors, none of them
twice. The results of `accept` and `read` are those which the system documents for the
state of the connections. At any time the system may be short of memory or of another of
its resources, so that `accept`, `setsockopt` or `epoll_ctl` fails. What the loop writes to
its clients has no effect on it, as `SIGPIPE` is ignored.
-/

namespace LoadBalance.Outer

open Distributor (Thread Answers Call loopBody)
open Relay (Boot ConnId Phase Sending)

/-- A client's connection, as the distributor can tell it. -/
structure Client where
  phase : Phase
  sending : Sending
  /-- The bytes which the distributor has not read yet. -/
  inbound : List Byte
deriving DecidableEq

structure Service (servers : ℕ) where
  thread : Thread servers Byte
  /-- The open descriptors of the process. -/
  opened : Finset Fd
  /-- The connections behind the descriptors which `accept` has returned. -/
  client : Fd → Option ConnId
  conn : ConnId → Client
  backlog : List ConnId
  /-- The entries of `events_` which are still to be served. -/
  events : List (Fd × BitVec 32)
  halted : Option Halt

inductive Event (servers : ℕ) where
  | connect (conn : ConnId)
  | send (conn : ConnId) (bytes : List Byte)
  /-- The client closes its sending direction, or all of its connection. -/
  | shutdown (conn : ConnId)
  /-- The client aborts its connection, or its system does. -/
  | reset (conn : ConnId)
  /-- `epoll_wait` -/
  | wait (ready : List (Fd × BitVec 32))
  /-- The loop serves an entry; `clientAddrLen` is what the variable holds before the first
  `accept`. -/
  | serve (answers : Answers servers Byte) (clientAddrLen : ℤ)

def Client.unborn : Client where
  phase := .unborn
  sending := .going
  inbound := []

/-- What `read` may return. -/
def Client.Reads (client : Client) : ReadResult Byte → Prop
  | .error _ => True
  | .data bytes =>
      bytes <+: client.inbound ∧ bytes.length ≤ normalLen ∧
        (bytes = [] → client.sending = .ended)

instance (client : Client) (readn : ReadResult Byte) : Decidable (client.Reads readn) :=
  match readn with
  | .error _ => instDecidableTrue
  | .data _ => inferInstanceAs (Decidable (_ ∧ _ ∧ _))

/-- The bytes which a `read` takes out of the stream. -/
def Client.consume (client : Client) : ReadResult Byte → Client
  | .error _ => client
  | .data bytes => { client with inbound := client.inbound.drop bytes.length }

def einval : ℕ := 22

namespace Service

variable {servers : ℕ}

def setConn (service : Service servers) (conn : ConnId) (value : Client) : Service servers :=
  { service with conn := Function.update service.conn conn value }

def acceptOne (limit : ℕ) (service : Service servers) (fd : Fd) : Option (Service servers) :=
  match service.backlog with
  | [] => none
  | conn :: backlog =>
      if fd ∉ service.opened ∧ 0 ≤ fd.toInt ∧ service.opened.card < limit then
        some ({ service with
          opened := insert fd service.opened
          client := Function.update service.client fd (some conn)
          backlog := backlog }.setConn conn { service.conn conn with phase := .accepted })
      else none

/-- The errors with which `accept` may fail, where `first` says that none has succeeded in
this loop and `clientAddrLen` has not been written yet. Where the system lacks a resource or
the network has failed, it may fail with any other error. -/
def AcceptFails (limit : ℕ) (service : Service servers) (first : Bool) (clientAddrLen : ℤ) :
    Errno → Prop
  | .eagain => service.backlog = []
  | .emfile => limit ≤ service.opened.card
  | .econnaborted => ∃ conn ∈ service.backlog, (service.conn conn).sending = .reset
  | .econnreset => True
  | .other code => code = einval → first = true ∧ clientAddrLen < 0

instance (limit : ℕ) (service : Service servers) (first : Bool) (clientAddrLen : ℤ)
    (errno : Errno) : Decidable (service.AcceptFails limit first clientAddrLen errno) :=
  match errno with
  | .eagain => inferInstanceAs (Decidable (_ = _))
  | .emfile => inferInstanceAs (Decidable (_ ≤ _))
  | .econnaborted => inferInstanceAs (Decidable (∃ conn ∈ service.backlog, _))
  | .econnreset => instDecidableTrue
  | .other _ => inferInstanceAs (Decidable (_ → _))

def close (service : Service servers) (fd : Fd) : Service servers :=
  let closed := { service with
    opened := service.opened.erase fd
    client := Function.update service.client fd none }
  match service.client fd with
  | none => closed
  | some conn => closed.setConn conn { service.conn conn with phase := .closed }

def perform (service : Service servers) : Call Byte → Service servers
  | .write _ _ => service
  | .close fd => service.close fd

/-- The accept loop. -/
def serveListen (limit : ℕ) (service : Service servers) (events : BitVec 32)
    (answers : Answers servers Byte) (clientAddrLen : ℤ) : Option (Service servers) :=
  match Machine.run (acceptOne limit) service (answers.accepted.map Prod.fst) with
  | none => none
  | some accepted =>
      if accepted.AcceptFails limit answers.accepted.isEmpty clientAddrLen
          answers.acceptErrno then
        match loopBody service.thread service.thread.listenFdOuter events answers with
        | .error halt => some { accepted with halted := some halt }
        | .ok (thread, _) => some { accepted with thread := thread }
      else none

/-- Whether `read` may return this, if it is called at all. -/
def Readable (service : Service servers) (fd : Fd) (events : BitVec 32)
    (readn : ReadResult Byte) : Prop :=
  match service.client fd with
  | none => True
  | some conn => events &&& EPOLLIN ≠ 0 → (service.conn conn).Reads readn

instance (service : Service servers) (fd : Fd) (events : BitVec 32) (readn : ReadResult Byte) :
    Decidable (service.Readable fd events readn) :=
  match atFd : service.client fd with
  | none => decidable_of_iff True (by simp [Readable, atFd])
  | some conn =>
      decidable_of_iff (events &&& EPOLLIN ≠ 0 → (service.conn conn).Reads readn)
        (by simp [Readable, atFd])

def consume (service : Service servers) (fd : Fd) (events : BitVec 32)
    (readn : ReadResult Byte) : Service servers :=
  match service.client fd with
  | none => service
  | some conn =>
      if events &&& EPOLLIN ≠ 0 then service.setConn conn ((service.conn conn).consume readn)
      else service

/-- A pass for a descriptor other than the listening socket. -/
def serveReady (service : Service servers) (fd : Fd) (events : BitVec 32)
    (answers : Answers servers Byte) : Option (Service servers) :=
  if service.Readable fd events answers.readn then
    match loopBody service.thread fd events answers with
    | .error halt => some { service with halted := some halt }
    | .ok (thread, calls) =>
        some (calls.foldl perform { service.consume fd events answers.readn with thread := thread })
  else none

def step (limit : ℕ) (service : Service servers) (event : Event servers) :
    Option (Service servers) :=
  if service.halted ≠ none then none
  else
    match event with
    | .connect conn =>
        if (service.conn conn).phase = .unborn then
          some ({ service with backlog := service.backlog ++ [conn] }.setConn conn
            { service.conn conn with phase := .backlog })
        else none
    | .send conn bytes =>
        if (service.conn conn).phase ≠ .unborn ∧ (service.conn conn).sending = .going then
          some (service.setConn conn { service.conn conn with
            inbound := (service.conn conn).inbound ++ bytes })
        else none
    | .shutdown conn =>
        if (service.conn conn).phase ≠ .unborn ∧ (service.conn conn).sending = .going then
          some (service.setConn conn { service.conn conn with sending := .ended })
        else none
    | .reset conn =>
        if (service.conn conn).phase ≠ .unborn then
          some (service.setConn conn { service.conn conn with sending := .reset, inbound := [] })
        else none
    | .wait ready =>
        if service.events = [] ∧ (ready.map Prod.fst).Nodup ∧
            (ready.map Prod.fst).toFinset ⊆ service.thread.interest then
          some { service with events := ready }
        else none
    | .serve answers clientAddrLen =>
        match service.events with
        | [] => none
        | (fd, events) :: rest =>
            let served := { service with events := rest }
            if fd = service.thread.listenFdOuter then
              served.serveListen limit events answers clientAddrLen
            else served.serveReady fd events answers

def start (boot : Boot servers) : Service servers where
  thread := boot.thread Byte
  opened := (boot.entries.map Prod.fst).toFinset
  client _ := none
  conn _ := .unborn
  backlog := []
  events := []
  halted := none

end Service

end LoadBalance.Outer
