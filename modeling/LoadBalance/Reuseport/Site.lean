import LoadBalance.Lib.Family
import LoadBalance.Lib.Terminated
import LoadBalance.Reuseport.Worker

/-!
# A worker with its clients

The kernel gives each connection to one of the workers, in whose queue it waits to be
accepted. Readiness is that of level-triggered events: the listening socket is ready as
long as somebody waits in its queue, and a connection as long as there is something left
to read, or the client has ended or reset it.

The log of a site records which connection each line of the worker's file comes from. It
is no variable of the program.
-/

namespace LoadBalance.Reuseport

open Worker (Served)

/-- The number of a connection, unlike a descriptor given out only once. -/
abbrev ConnId := ℕ

inductive Phase where
  | unborn
  | queued
  | accepted
  | closed
  /-- Taken from the queue by an `accept` which has failed. -/
  | lost
deriving DecidableEq

structure Client where
  phase : Phase
  sent : List Byte
  /-- What the worker has not read yet. -/
  unread : List Byte
  ended : Bool
  reset : Bool
deriving DecidableEq

/-- A line of the file, without its number. -/
structure Entry where
  conn : ConnId
  data : List Byte
deriving DecidableEq

structure Site where
  worker : Worker
  /-- The connection for which a descriptor of the worker stands. -/
  table : Fd → Option ConnId
  queue : List ConnId
  client : ConnId → Client
  log : List Entry
  stopped : Option Stop

inductive SiteEvent where
  | connect (conn : ConnId)
  | send (conn : ConnId) (data : List Byte)
  | shutdown (conn : ConnId)
  /-- The bytes which the worker has not read yet may be lost. -/
  | reset (conn : ConnId) (lost : Bool)
  | wait (ready : List (Fd × BitVec 32))
  /-- The pass of the listening socket. An `accept` which fails may have lost a connection. -/
  | accept (accepted : Option Fd) (lost : Bool) (address : Ptr) (noDelay added : ℤ)
  /-- The pass of a client, in which `read` moves this many bytes if there are any. -/
  | read (count : ℕ)

/-- A step which the worker or the kernel under it makes. -/
def SiteEvent.OfWorker : SiteEvent → Prop
  | .wait _ | .accept _ _ _ _ _ | .read _ => True
  | .connect _ | .send _ _ | .shutdown _ | .reset _ _ => False

/-- `BUFSIZ` -/
def bufsiz : ℕ := 8192

def Client.unborn : Client where
  phase := .unborn
  sent := []
  unread := []
  ended := false
  reset := false

/-- The connection exists at both of its ends. -/
def Client.Connected (client : Client) : Prop := client.phase = .queued ∨ client.phase = .accepted

instance (client : Client) : Decidable client.Connected := inferInstanceAs (Decidable (_ ∨ _))

/-- There is something for the worker to read. -/
def Client.Readable (client : Client) : Prop :=
  client.unread ≠ [] ∨ client.ended = true ∨ client.reset = true

instance (client : Client) : Decidable client.Readable :=
  inferInstanceAs (Decidable (_ ∨ _ ∨ _))

/-- A `read` of the worker. -/
def Client.read (client : Client) (count : ℕ) : Option (ReadResult Byte × Client) :=
  if client.unread ≠ [] then
    if 0 < count ∧ count ≤ bufsiz ∧ count ≤ client.unread.length then
      some (.data (client.unread.take count),
        { client with unread := client.unread.drop count })
    else none
  else if client.reset then some (.error .econnreset, client)
  else if client.ended then some (.data [], client)
  else some (.error .eagain, client)

/-- The file of a worker for the bytes of its reads. -/
def text (reads : List (List Byte)) : List Byte :=
  Terminated.join newline ((reads.zipIdx 1).map fun entry => field (.ofNat 64 entry.2) entry.1)

/-- A line is added behind the others, with the next number. -/
theorem text_concat (reads : List (List Byte)) (buf : List Byte) :
    text (reads ++ [buf]) =
      text reads ++ (field (.ofNat 64 (reads.length + 1)) buf ++ [newline]) := by
  rw [text, List.zipIdx_append, List.map_append, Terminated.join_append, Nat.add_comm]
  simp [text]

namespace Site

def start (listenFd : Fd) (address : Ptr) : Site where
  worker := .start listenFd address
  table _ := none
  queue := []
  client _ := .unborn
  log := []
  stopped := none

def setClient (site : Site) (conn : ConnId) (client : Client) : Site :=
  { site with client := Function.update site.client conn client }

/-- A descriptor for which `epoll_wait` has something to report. -/
def Ready (site : Site) (fd : Fd) : Prop :=
  fd = site.worker.listenFd ∧ site.queue ≠ [] ∨
    ∃ conn ∈ site.table fd, (site.client conn).Readable

instance (site : Site) (fd : Fd) : Decidable (site.Ready fd) :=
  inferInstanceAs (Decidable (_ ∨ ∃ conn ∈ site.table fd, _))

def perform (site : Site) : Call → Site
  | .close fd =>
      match site.table fd with
      | none => site
      | some conn =>
          { site with table := Function.update site.table fd none }.setClient conn
            { site.client conn with phase := .closed }
  | .line fd buf =>
      match site.table fd with
      | none => site
      | some conn => { site with log := site.log ++ [⟨conn, buf⟩] }

/-- The loop goes on with the result of a pass, or the process ends. -/
def settle (site : Site) : Except Stop (Worker × List Call) → Site
  | .error stop => { site with stopped := some stop }
  | .ok (worker, calls) => calls.foldl perform { site with worker := worker }

/-- A connection is taken from the queue. -/
def dequeue (site : Site) (next : Client → Client) : Site :=
  match site.queue with
  | [] => site
  | conn :: queue => { site with queue := queue }.setClient conn (next (site.client conn))

/-- A pass of the listening socket for which `accept` has failed. -/
def refuse (site : Site) (lost : Bool) : Site :=
  if lost then
    site.dequeue fun client => { client with phase := .lost, unread := [], reset := true }
  else site

/-- A pass of the listening socket for which `accept` has returned a descriptor. -/
def welcome (site : Site) (fd : Fd) (conn : ConnId) (queue : List ConnId) : Site :=
  { site with queue := queue, table := Function.update site.table fd (some conn) }.setClient conn
    { site.client conn with phase := .accepted }

def acceptAnswers (accepted : Fd) (address : Ptr) (noDelay added : ℤ) : Answers where
  accepted := accepted
  address := address
  noDelay := noDelay
  added := added
  readn := .error .eagain

def readAnswers (readn : ReadResult Byte) (address : Ptr) : Answers where
  accepted := -1
  address := address
  noDelay := 0
  added := 0
  readn := readn

/-- The pass of an event of the listening socket. -/
def passListening (site : Site) (ptr : Ptr) (eve : BitVec 32) (accepted : Option Fd) (lost : Bool)
    (address : Ptr) (noDelay added : ℤ) : Option Site :=
  if site.worker.heap ptr = some ⟨site.worker.listenFd⟩ then
    match accepted, site.queue with
    | none, _ =>
        some ((site.refuse lost).settle
          (site.worker.loopBody ptr eve (acceptAnswers (-1) address noDelay added)))
    | some _, [] => none
    | some fd, conn :: queue =>
        if site.worker.heap address = none ∧ 0 ≤ fd.toInt ∧ site.table fd = none then
          match site.worker.loopBody ptr eve (acceptAnswers fd address noDelay added) with
          | .error stop => some { site with stopped := some stop }
          | .ok (worker, _) => some { site.welcome fd conn queue with worker := worker }
        else none
  else none

/-- The pass of an event of a client. -/
def passClient (site : Site) (ptr : Ptr) (eve : BitVec 32) (count : ℕ) : Option Site :=
  match site.worker.heap ptr with
  | none => some { site with stopped := some .dangling }
  | some conn =>
      match site.table conn.connFd with
      | none => none
      | some peer =>
          match (site.client peer).read count with
          | none => none
          | some (readn, client) =>
              some ((site.setClient peer client).settle
                (site.worker.loopBody ptr eve (readAnswers readn 0)))

/-- The next entry of `events_` is taken. -/
def take (site : Site) (rest : List (Ptr × BitVec 32)) : Site :=
  { site with worker := { site.worker with events := rest } }

/-- One step of the worker, the kernel or a client, while the worker is running. -/
def step (site : Site) (event : SiteEvent) : Option Site :=
  if site.stopped ≠ none then none
  else
    match event with
    | .connect conn =>
        if (site.client conn).phase = .unborn then
          some ({ site with queue := site.queue ++ [conn] }.setClient conn
            { site.client conn with phase := .queued })
        else none
    | .send conn data =>
        let client := site.client conn
        if client.Connected ∧ client.ended = false ∧ client.reset = false then
          some (site.setClient conn
            { client with sent := client.sent ++ data, unread := client.unread ++ data })
        else none
    | .shutdown conn =>
        if (site.client conn).Connected then
          some (site.setClient conn { site.client conn with ended := true })
        else none
    | .reset conn lost =>
        let client := site.client conn
        if client.Connected then
          some (site.setClient conn
            { client with unread := if lost then [] else client.unread, reset := true })
        else none
    | .wait ready =>
        if site.worker.events = [] ∧ site.worker.Reports ready ∧ ready ≠ [] ∧
            (ready.all fun entry => site.Ready entry.1 ∧ entry.2 &&& EPOLLIN ≠ 0) = true then
          some (site.take (site.worker.entries ready))
        else none
    | .accept accepted lost address noDelay added =>
        match site.worker.events with
        | [] => none
        | (ptr, eve) :: rest =>
            (site.take rest).passListening ptr eve accepted lost address noDelay added
    | .read count =>
        match site.worker.events with
        | [] => none
        | (ptr, eve) :: rest => (site.take rest).passClient ptr eve count

/-- The bytes of a connection in the file of the worker. -/
def logged (site : Site) (conn : ConnId) : List Byte :=
  ((site.log.filter fun entry => entry.conn = conn).map Entry.data).flatten

end Site

/-- What the client has sent is in the file, then to be read, and nothing of it twice. -/
structure Client.Accounted (client : Client) (logged : List Byte) : Prop where
  begun : logged ++ client.unread <+: client.sent
  whole : client.reset = false → logged ++ client.unread = client.sent
  closed : client.phase = .closed → client.unread = [] ∧ (client.ended = true ∨ client.reset = true)
  lost : client.phase = .lost → client.unread = [] ∧ client.reset = true
  unborn : client.phase = .unborn → client = .unborn

theorem Client.Accounted.logged_begins {client : Client} {logged : List Byte}
    (account : client.Accounted logged) : logged <+: client.sent :=
  (List.prefix_append _ _).trans account.begun

namespace Site

structure Kept (site : Site) : Prop where
  sound : site.worker.Sound
  readable : ∀ entry ∈ site.worker.events, entry.2 &&& EPOLLIN ≠ 0
  registered : ∀ fd, site.worker.interest fd ≠ none ↔
    fd = site.worker.listenFd ∨ site.table fd ≠ none
  apart : site.table site.worker.listenFd = none
  holds : ∀ fd conn, site.table fd = some conn → (site.client conn).phase = .accepted
  one : ∀ fd other conn, site.table fd = some conn → site.table other = some conn → fd = other
  held : ∀ conn, (site.client conn).phase = .accepted → ∃ fd, site.table fd = some conn
  waiting : ∀ conn, conn ∈ site.queue ↔ (site.client conn).phase = .queued
  distinct : site.queue.Nodup
  account : ∀ conn, (site.client conn).Accounted (site.logged conn)
  counted : site.worker.counter = .ofNat 64 site.log.length
  written : site.worker.out = text (site.log.map Entry.data)

variable {site : Site} {conn : ConnId}

theorem kept_start (listenFd : Fd) (address : Ptr) : (start listenFd address).Kept where
  sound := Worker.sound_start listenFd address
  readable := List.forall_mem_nil _
  registered := by
    intro fd
    simp only [start, Worker.start, Function.update_apply]
    split
    · rename_i same
      simp [same]
    · rename_i other
      simp [other]
  apart := rfl
  holds := by simp [start]
  one := by simp [start]
  held := by simp [start, Client.unborn]
  waiting := by simp [start, Client.unborn]
  distinct := List.nodup_nil
  account _ := by
    constructor
    · exact List.prefix_refl []
    · exact fun _ => rfl
    · exact fun closed => Phase.noConfusion closed
    · exact fun lost => Phase.noConfusion lost
    · exact fun _ => rfl
  counted := rfl
  written := rfl

/-- The worker has read nothing, and registers the same descriptors. -/
theorem Kept.setWorker (kept : site.Kept) {worker : Worker} (sound : worker.Sound)
    (readable : ∀ entry ∈ worker.events, entry.2 &&& EPOLLIN ≠ 0)
    (listenFd : worker.listenFd = site.worker.listenFd)
    (interest : worker.interest = site.worker.interest)
    (counter : worker.counter = site.worker.counter) (out : worker.out = site.worker.out) :
    { site with worker := worker }.Kept where
  sound := sound
  readable := readable
  registered := by
    intro fd
    rw [interest, listenFd]
    exact kept.registered fd
  apart := by
    rw [listenFd]
    exact kept.apart
  holds := kept.holds
  one := kept.one
  held := kept.held
  waiting := kept.waiting
  distinct := kept.distinct
  account := kept.account
  counted := counter.trans kept.counted
  written := out.trans kept.written

/-- A client does something which does not change the place of its connection. -/
theorem Kept.setClient (kept : site.Kept) {client : Client}
    (phase : client.phase = (site.client conn).phase)
    (accounted : client.Accounted (site.logged conn)) : (site.setClient conn client).Kept where
  sound := kept.sound
  readable := kept.readable
  registered := kept.registered
  apart := kept.apart
  holds := by
    intro fd other isOther
    simp only [Site.setClient, Function.update_apply]
    split
    · rename_i same
      rw [phase, ← same]
      exact kept.holds fd other isOther
    · exact kept.holds fd other isOther
  one := kept.one
  held := by
    intro other accepted
    simp only [Site.setClient, Function.update_apply] at accepted
    split at accepted
    · rename_i same
      rw [phase, ← same] at accepted
      exact kept.held other accepted
    · exact kept.held other accepted
  waiting := by
    intro other
    simp only [Site.setClient, Function.update_apply]
    split
    · rename_i same
      rw [phase, ← same]
      exact kept.waiting other
    · exact kept.waiting other
  distinct := kept.distinct
  account := Family.forall_update (fun other (value : Client) =>
    value.Accounted (site.logged other)) kept.account accounted
  counted := kept.counted
  written := kept.written

/-- The place of one connection changes, and no descriptor comes to stand for another one. -/
theorem Kept.moveClient (kept : site.Kept) {client : Client} {queue : List ConnId}
    (before : (site.client conn).phase ≠ .accepted) (after : client.phase ≠ .accepted)
    (distinct : queue.Nodup)
    (waiting : ∀ other, other ∈ queue ↔
      other = conn ∧ client.phase = .queued ∨ other ≠ conn ∧ other ∈ site.queue)
    (accounted : client.Accounted (site.logged conn)) :
    ({ site with queue := queue }.setClient conn client).Kept where
  sound := kept.sound
  readable := kept.readable
  registered := kept.registered
  apart := kept.apart
  holds := by
    intro fd other isOther
    have accepted := kept.holds fd other isOther
    have different : other ≠ conn := fun same => before (same ▸ accepted)
    simp only [Site.setClient, Function.update_of_ne different]
    exact accepted
  one := kept.one
  held := by
    intro other accepted
    simp only [Site.setClient, Function.update_apply] at accepted
    split at accepted
    · exact absurd accepted after
    · exact kept.held other accepted
  waiting := by
    intro other
    change other ∈ queue ↔ _
    rw [waiting]
    simp only [Site.setClient, Function.update_apply]
    split
    · rename_i same
      simp [same]
    · rename_i different
      simp [different, kept.waiting other]
  distinct := distinct
  account := Family.forall_update (fun other (value : Client) =>
    value.Accounted (site.logged other)) kept.account accounted
  counted := kept.counted
  written := kept.written

theorem Kept.connect (kept : site.Kept) (unborn : (site.client conn).phase = .unborn) :
    ({ site with queue := site.queue ++ [conn] }.setClient conn
      { site.client conn with phase := .queued }).Kept := by
  have absent : conn ∉ site.queue := by
    rw [kept.waiting, unborn]
    simp
  have account := kept.account conn
  have new := account.unborn unborn
  apply kept.moveClient
  · rw [unborn]
    simp
  · simp
  · rw [List.nodup_append]
    refine ⟨kept.distinct, List.nodup_singleton _, ?_⟩
    rintro other otherMem _ (_ | ⟨_, ⟨⟩⟩) rfl
    exact absent otherMem
  · intro other
    rw [List.mem_append, List.mem_singleton]
    constructor
    · rintro (old | same)
      · exact .inr ⟨fun same => absent (same ▸ old), old⟩
      · exact .inl ⟨same, rfl⟩
    · rintro (⟨same, _⟩ | ⟨_, old⟩)
      · exact .inr same
      · exact .inl old
  · rw [new] at account ⊢
    exact ⟨account.begun, account.whole, by simp, by simp, by simp⟩

/-- The queue without its first connection. -/
theorem Kept.mem_tail (kept : site.Kept) {queue : List ConnId} (first : site.queue = conn :: queue)
    (other : ConnId) : other ∈ queue ↔ other ≠ conn ∧ other ∈ site.queue := by
  have distinct := kept.distinct
  rw [first, List.nodup_cons] at distinct
  rw [first, List.mem_cons]
  constructor
  · intro behind
    exact ⟨fun same => distinct.1 (same ▸ behind), .inr behind⟩
  · rintro ⟨different, same | behind⟩
    · exact absurd same different
    · exact behind

theorem Kept.phase_of_queue (kept : site.Kept) {queue : List ConnId}
    (first : site.queue = conn :: queue) : (site.client conn).phase = .queued :=
  (kept.waiting conn).mp (by simp [first])

theorem Kept.refuse (kept : site.Kept) (lost : Bool) : (site.refuse lost).Kept := by
  simp only [Site.refuse]
  split
  · simp only [dequeue]
    split
    · exact kept
    · rename_i conn queue first
      have queued := kept.phase_of_queue first
      apply kept.moveClient
      · rw [queued]
        simp
      · simp
      · exact (List.nodup_cons.mp (first ▸ kept.distinct)).2
      · intro other
        rw [kept.mem_tail first]
        simp
      · have begun := (kept.account conn).logged_begins
        exact ⟨by simpa using begun, by simp, by simp, fun _ => ⟨rfl, rfl⟩, by simp⟩
  · exact kept

theorem Kept.welcome (kept : site.Kept) {fd : Fd} {address : Ptr} {queue : List ConnId}
    (first : site.queue = conn :: queue) (fresh : site.worker.heap address = none)
    (unused : site.worker.interest fd = none) :
    ({ site.welcome fd conn queue with
      worker := site.worker.register fd address } : Site).Kept := by
  have queued := kept.phase_of_queue first
  have account := kept.account conn
  have notListening : fd ≠ site.worker.listenFd := by
    rintro rfl
    exact kept.sound.listens unused
  have closed : site.table fd = none := by
    by_contra isOpen
    exact (kept.registered fd).mpr (.inr isOpen) unused
  have unheld : ∀ other, site.table other ≠ some conn := by
    intro other isConn
    have accepted := kept.holds other conn isConn
    rw [queued] at accepted
    cases accepted
  constructor
  case sound => exact kept.sound.register unused fresh
  case readable => exact kept.readable
  case registered =>
    intro other
    simp only [Worker.register, Site.welcome, Site.setClient, Function.update_apply]
    split
    · simp
    · exact kept.registered other
  case apart =>
    simp only [Worker.register, Site.welcome, Site.setClient,
      Function.update_of_ne (Ne.symm notListening)]
    exact kept.apart
  case holds =>
    intro other peer isPeer
    simp only [Site.welcome, Site.setClient, Function.update_apply] at isPeer ⊢
    split at isPeer
    · cases isPeer
      simp
    · split
      · rfl
      · exact kept.holds other peer isPeer
  case one =>
    intro here there peer isHere isThere
    simp only [Site.welcome, Site.setClient, Function.update_apply] at isHere isThere
    split at isHere
    · split at isThere
      · rename_i sameHere sameThere
        rw [sameHere, sameThere]
      · cases isHere
        exact absurd isThere (unheld there)
    · split at isThere
      · cases isThere
        exact absurd isHere (unheld here)
      · exact kept.one here there peer isHere isThere
  case held =>
    intro peer accepted
    simp only [Site.welcome, Site.setClient, Function.update_apply] at accepted ⊢
    split at accepted
    · rename_i same
      exact ⟨fd, by simp [same]⟩
    · rcases kept.held peer accepted with ⟨other, isPeer⟩
      refine ⟨other, ?_⟩
      have different : other ≠ fd := by
        rintro rfl
        rw [closed] at isPeer
        cases isPeer
      rw [if_neg different]
      exact isPeer
  case waiting =>
    intro peer
    change peer ∈ queue ↔ _
    rw [kept.mem_tail first]
    simp only [Site.welcome, Site.setClient, Function.update_apply]
    split
    · rename_i same
      simp [same]
    · rename_i different
      simp [different, kept.waiting peer]
  case distinct => exact (List.nodup_cons.mp (first ▸ kept.distinct)).2
  case account =>
    refine Family.forall_update (fun other (value : Client) =>
      value.Accounted (site.logged other)) kept.account ?_
    exact ⟨account.begun, account.whole, by simp, by simp, by simp⟩
  case counted => exact kept.counted
  case written => exact kept.written

theorem Kept.release (kept : site.Kept) {fd : Fd} {ptr : Ptr}
    (isConn : site.table fd = some conn) (found : site.worker.heap ptr = some ⟨fd⟩)
    (others : ∀ entry ∈ site.worker.events, entry.1 ≠ ptr)
    (drained : (site.client conn).unread = [] ∧
      ((site.client conn).ended = true ∨ (site.client conn).reset = true)) :
    ({ site with
        worker := site.worker.release fd ptr
        table := Function.update site.table fd none }.setClient conn
      { site.client conn with phase := .closed }).Kept := by
  have accepted := kept.holds fd conn isConn
  have account := kept.account conn
  have notListening : fd ≠ site.worker.listenFd := by
    rintro rfl
    rw [kept.apart] at isConn
    cases isConn
  have elsewhere : ∀ other peer, other ≠ fd → site.table other = some peer → peer ≠ conn := by
    rintro other peer different isPeer rfl
    exact different (kept.one other fd peer isPeer isConn)
  constructor
  case sound => exact kept.sound.release notListening found others
  case readable => exact kept.readable
  case registered =>
    intro other
    simp only [Worker.release, Site.setClient, Function.update_apply]
    split
    · rename_i same
      subst same
      simp [notListening]
    · exact kept.registered other
  case apart =>
    simp only [Worker.release, Site.setClient, Function.update_of_ne (Ne.symm notListening)]
    exact kept.apart
  case holds =>
    intro other peer isPeer
    simp only [Site.setClient, Function.update_apply] at isPeer ⊢
    split at isPeer
    · cases isPeer
    · rename_i different
      rw [if_neg (elsewhere other peer different isPeer)]
      exact kept.holds other peer isPeer
  case one =>
    intro here there peer isHere isThere
    simp only [Site.setClient, Function.update_apply] at isHere isThere
    split at isHere
    · cases isHere
    · split at isThere
      · cases isThere
      · exact kept.one here there peer isHere isThere
  case held =>
    intro peer isAccepted
    simp only [Site.setClient, Function.update_apply] at isAccepted ⊢
    split at isAccepted
    · cases isAccepted
    · rename_i different
      rcases kept.held peer isAccepted with ⟨other, isPeer⟩
      refine ⟨other, ?_⟩
      have apart : other ≠ fd := by
        rintro rfl
        rw [isConn, Option.some.injEq] at isPeer
        exact different isPeer.symm
      rw [if_neg apart]
      exact isPeer
  case waiting =>
    intro peer
    simp only [Site.setClient, Function.update_apply]
    split
    · rename_i same
      rw [same, kept.waiting conn, accepted]
      simp
    · exact kept.waiting peer
  case distinct => exact kept.distinct
  case account =>
    refine Family.forall_update (fun other (value : Client) =>
      value.Accounted (site.logged other)) kept.account ?_
    exact ⟨account.begun, account.whole, fun _ => drained, by simp, by simp⟩
  case counted => exact kept.counted
  case written => exact kept.written

/-- The bytes which were read stand in the file, and are no longer to be read. -/
theorem Kept.log (kept : site.Kept) {buf rest : List Byte}
    (accepted : (site.client conn).phase = .accepted)
    (unread : (site.client conn).unread = buf ++ rest) :
    ({ site with
        worker := site.worker.log buf
        log := site.log ++ [Entry.mk conn buf] }.setClient conn
      { site.client conn with unread := rest }).Kept := by
  have account := kept.account conn
  have logged : ∀ peer, ({ site with
        worker := site.worker.log buf
        log := site.log ++ [Entry.mk conn buf] }.setClient conn
      { site.client conn with unread := rest }).logged peer =
        site.logged peer ++ if conn = peer then buf else [] := by
    intro peer
    by_cases same : conn = peer
    · simp [Site.logged, Site.setClient, List.filter_append, same]
    · simp [Site.logged, Site.setClient, List.filter_append, same]
  constructor
  case sound => exact ⟨kept.sound.listens, kept.sound.held, kept.sound.distinct, kept.sound.live⟩
  case readable => exact kept.readable
  case registered => exact kept.registered
  case apart => exact kept.apart
  case holds =>
    intro fd peer isPeer
    simp only [Site.setClient, Function.update_apply]
    split
    · exact accepted
    · exact kept.holds fd peer isPeer
  case one => exact kept.one
  case held =>
    intro peer isAccepted
    simp only [Site.setClient, Function.update_apply] at isAccepted
    split at isAccepted
    · rename_i same
      exact same ▸ kept.held conn accepted
    · exact kept.held peer isAccepted
  case waiting =>
    intro peer
    simp only [Site.setClient, Function.update_apply]
    split
    · rename_i same
      rw [same]
      exact kept.waiting conn
    · exact kept.waiting peer
  case distinct => exact kept.distinct
  case account =>
    intro peer
    rw [logged]
    by_cases same : conn = peer
    · subst same
      rw [if_pos rfl]
      change Client.Accounted (Function.update site.client conn _ conn) _
      rw [Function.update_self]
      constructor
      · rw [List.append_assoc, ← unread]
        exact account.begun
      · rw [List.append_assoc, ← unread]
        exact account.whole
      · intro closed
        exact absurd (accepted.symm.trans closed) (by simp)
      · intro lost
        exact absurd (accepted.symm.trans lost) (by simp)
      · intro unborn
        exact absurd (accepted.symm.trans unborn) (by simp)
    · rw [if_neg same, List.append_nil]
      change Client.Accounted (Function.update site.client conn _ peer) _
      rw [Function.update_of_ne (Ne.symm same)]
      exact kept.account peer
  case counted =>
    simp only [Worker.log, Site.setClient, kept.counted, List.length_append, List.length_singleton]
    rw [BitVec.ofNat_add]
    rfl
  case written =>
    simp only [Worker.log, Site.setClient, List.map_append, List.map_singleton, text_concat,
      kept.written, kept.counted, List.length_map]
    rw [BitVec.ofNat_add]
    rfl

end Site

theorem Client.read_eq_some {client after : Client} {count : ℕ} {readn : ReadResult Byte}
    (read : client.read count = some (readn, after)) :
    (∃ buf rest, readn = .data buf ∧ buf ≠ [] ∧ client.unread = buf ++ rest ∧
        after = { client with unread := rest }) ∨
      after = client ∧ client.unread = [] ∧ readn ≠ .error .eagain ∧
        (∀ buf, readn = .data buf → buf = []) ∧ (client.ended = true ∨ client.reset = true) ∨
      after = client ∧ readn = .error .eagain := by
  simp only [Client.read] at read
  split at read
  · rename_i some
    split at read
    · rename_i possible
      cases read
      refine .inl ⟨client.unread.take count, client.unread.drop count, rfl, ?_,
        (List.take_append_drop _ _).symm, rfl⟩
      rw [ne_eq, List.take_eq_nil_iff]
      rintro (zero | empty)
      · omega
      · exact some empty
    · cases read
  · rename_i nothing
    rw [not_not] at nothing
    split at read
    · rename_i reset
      cases read
      exact .inr (.inl ⟨rfl, nothing, by simp, by simp, .inr reset⟩)
    · split at read
      · rename_i ended
        cases read
        exact .inr (.inl ⟨rfl, nothing, by simp, by simp, .inl ended⟩)
      · cases read
        exact .inr (.inr ⟨rfl, rfl⟩)

namespace Site

variable {site next : Site} {conn : ConnId}

@[simp]
theorem setClient_self (site : Site) (conn : ConnId) :
    site.setClient conn (site.client conn) = site := by
  rw [setClient, Function.update_eq_self]

@[simp]
theorem worker_refuse (site : Site) (lost : Bool) : (site.refuse lost).worker = site.worker := by
  simp only [refuse, dequeue]
  split
  · split
    · rfl
    · rfl
  · rfl

theorem settle_singleton (site : Site) (worker : Worker) (call : Call) :
    site.settle (.ok (worker, [call])) = { site with worker := worker }.perform call := rfl

theorem perform_line {fd : Fd} {buf : List Byte} (isConn : site.table fd = some conn) :
    site.perform (.line fd buf) = { site with log := site.log ++ [Entry.mk conn buf] } := by
  simp only [perform, isConn]

theorem perform_close {fd : Fd} (isConn : site.table fd = some conn) :
    site.perform (.close fd) =
      { site with table := Function.update site.table fd none }.setClient conn
        { site.client conn with phase := .closed } := by
  simp only [perform, isConn]

theorem Kept.stop (kept : site.Kept) (stop : Stop) : { site with stopped := some stop }.Kept :=
  ⟨kept.sound, kept.readable, kept.registered, kept.apart, kept.holds, kept.one, kept.held,
    kept.waiting, kept.distinct, kept.account, kept.counted, kept.written⟩

/-- The entry which a pass serves is taken from `events_`. -/
theorem Kept.pass {ptr : Ptr} {eve : BitVec 32} {rest : List (Ptr × BitVec 32)} (kept : site.Kept)
    (first : site.worker.events = (ptr, eve) :: rest) :
    (site.take rest).Kept ∧ (∀ entry ∈ rest, entry.1 ≠ ptr) ∧ eve &&& EPOLLIN ≠ 0 ∧
      ∃ fd, (site.take rest).worker.heap ptr = some ⟨fd⟩ := by
  rcases kept.sound.pass first with ⟨sound, others, fd, found⟩
  have readable := kept.readable
  simp only [first, List.forall_mem_cons] at readable
  exact ⟨kept.setWorker sound readable.2 rfl rfl rfl rfl, others, readable.1, fd, found⟩

theorem Kept.client {client : Client} (kept : site.Kept)
    (phase : client.phase = (site.client conn).phase) (connected : (site.client conn).Connected)
    (begun : site.logged conn ++ client.unread <+: client.sent)
    (whole : client.reset = false → site.logged conn ++ client.unread = client.sent) :
    (site.setClient conn client).Kept := by
  apply kept.setClient phase
  have place : client.phase = .queued ∨ client.phase = .accepted := phase ▸ connected
  refine ⟨begun, whole, ?_, ?_, ?_⟩
  · intro closed
    rw [closed] at place
    simp at place
  · intro lost
    rw [lost] at place
    simp at place
  · intro unborn
    rw [unborn] at place
    simp at place

theorem Kept.read {ptr : Ptr} {fd : Fd} {eve : BitVec 32} {count : ℕ} {readn : ReadResult Byte}
    {client : Client} (kept : site.Kept) (found : site.worker.heap ptr = some ⟨fd⟩)
    (others : ∀ entry ∈ site.worker.events, entry.1 ≠ ptr) (readable : eve &&& EPOLLIN ≠ 0)
    (isConn : site.table fd = some conn)
    (read : (site.client conn).read count = some (readn, client)) :
    ((site.setClient conn client).settle
      (site.worker.loopBody ptr eve (readAnswers readn 0))).Kept := by
  have notListening : fd ≠ site.worker.listenFd := by
    rintro rfl
    rw [kept.apart] at isConn
    cases isConn
  have registered : site.worker.interest fd ≠ none :=
    (kept.registered fd).mpr (.inr (by simp [isConn]))
  rcases Worker.exists_loopBody_of_client found registered notListening
    (readAnswers readn 0) with ⟨⟨worker, calls⟩, passed⟩
  rw [passed]
  rcases Worker.served_of_loopBody passed with ⟨peer, foundPeer, served⟩
  rw [found, Option.some.injEq] at foundPeer
  subst foundPeer
  cases served with
  | refused isListening => exact absurd isListening notListening
  | accepted isListening => exact absurd isListening notListening
  | idle _ nothing =>
      have again : readn = .error .eagain := nothing.resolve_left readable
      rcases Client.read_eq_some read with
        ⟨buf, rest, received, _⟩ | ⟨_, _, notAgain, _⟩ | ⟨same, _⟩
      · rw [again] at received
        cases received
      · exact absurd again notAgain
      · rw [same, setClient_self]
        exact kept
  | closed _ gone nothing =>
      rcases Client.read_eq_some read with
        ⟨buf, rest, received, nonempty, _⟩ | ⟨same, empty, _, _, ended⟩ | ⟨_, again⟩
      · exact absurd (nothing buf received) nonempty
      · have released := kept.release isConn found others ⟨empty, ended⟩
        rw [same, setClient_self]
        rw [settle_singleton, perform_close]
        · exact released
        · exact isConn
      · exact absurd again gone
  | logged _ buf received nonempty =>
      rcases Client.read_eq_some read with
        ⟨data, rest, isData, _, unread, rfl⟩ | ⟨_, _, _, empty, _⟩ | ⟨_, again⟩
      · have same : data = buf := ReadResult.data.inj (isData.symm.trans received)
        subst same
        have logged := kept.log (kept.holds fd conn isConn) unread
        rw [settle_singleton, perform_line]
        · exact logged
        · exact isConn
      · exact absurd (empty buf received) nonempty
      · rw [show readn = .error .eagain from again] at received
        cases received

theorem loopBody_refused {worker : Worker} {ptr : Ptr} (eve : BitVec 32) (address : Ptr)
    (noDelay added : ℤ) (found : worker.heap ptr = some ⟨worker.listenFd⟩) :
    worker.loopBody ptr eve (acceptAnswers (-1) address noDelay added) = .ok (worker, []) := by
  have negative : (acceptAnswers (-1) address noDelay added).accepted.toInt < 0 := by
    change (-1 : Fd).toInt < 0
    decide
  simp only [Worker.loopBody, found, if_true, Worker.acceptBranch, negative]

/-- A pass of the listening socket in which a connection is accepted. -/
theorem Kept.accept {ptr address : Ptr} {fd : Fd} {eve : BitVec 32} {noDelay added : ℤ}
    {queue : List ConnId} {worker : Worker} {calls : List Call} (kept : site.Kept)
    (found : site.worker.heap ptr = some ⟨site.worker.listenFd⟩)
    (first : site.queue = conn :: queue) (fresh : site.worker.heap address = none)
    (valid : 0 ≤ fd.toInt)
    (passed : site.worker.loopBody ptr eve (acceptAnswers fd address noDelay added) =
      .ok (worker, calls)) :
    ({ site.welcome fd conn queue with worker := worker } : Site).Kept := by
  rcases Worker.served_of_loopBody passed with ⟨peer, foundPeer, served⟩
  rw [found, Option.some.injEq] at foundPeer
  subst foundPeer
  cases served with
  | refused _ failed => exact absurd failed (not_lt.mpr valid)
  | accepted _ _ unused => exact kept.welcome first fresh unused
  | idle isClient => exact absurd rfl isClient
  | closed isClient => exact absurd rfl isClient
  | logged isClient => exact absurd rfl isClient

theorem Kept.passListening {ptr address : Ptr} {eve : BitVec 32} {accepted : Option Fd}
    {lost : Bool} {noDelay added : ℤ} (kept : site.Kept)
    (passed : site.passListening ptr eve accepted lost address noDelay added = some next) :
    next.Kept := by
  simp only [Site.passListening] at passed
  split at passed
  · rename_i found
    split at passed
    · rw [loopBody_refused] at passed
      · cases passed
        have refused := kept.refuse lost
        rw [← worker_refuse site lost]
        exact refused
      · exact found
    · cases passed
    · rename_i fd conn queue waiting
      split at passed
      · rename_i possible
        split at passed
        · cases passed
          exact kept.stop _
        · rename_i worker calls served
          cases passed
          exact kept.accept found waiting possible.1 possible.2.1 served
      · cases passed
  · cases passed

theorem Kept.passClient {ptr : Ptr} {fd : Fd} {eve : BitVec 32} {count : ℕ} (kept : site.Kept)
    (found : site.worker.heap ptr = some ⟨fd⟩)
    (others : ∀ entry ∈ site.worker.events, entry.1 ≠ ptr) (readable : eve &&& EPOLLIN ≠ 0)
    (passed : site.passClient ptr eve count = some next) : next.Kept := by
  simp only [Site.passClient, found] at passed
  split at passed
  · cases passed
  · rename_i conn isConn
    split at passed
    · cases passed
    · rename_i readn client read
      cases passed
      exact kept.read found others readable isConn read

theorem Kept.send {data : List Byte} (kept : site.Kept) (connected : (site.client conn).Connected)
    (notReset : (site.client conn).reset = false) :
    (site.setClient conn { site.client conn with
      sent := (site.client conn).sent ++ data
      unread := (site.client conn).unread ++ data }).Kept := by
  have account := kept.account conn
  apply kept.client
  · rfl
  · exact connected
  · rw [← List.append_assoc, account.whole notReset]
  · intro _
    rw [← List.append_assoc, account.whole notReset]

theorem Kept.step {event : SiteEvent} (kept : site.Kept) (stepped : site.step event = some next) :
    next.Kept := by
  simp only [Site.step] at stepped
  split at stepped
  · cases stepped
  · cases event with
    | connect conn =>
        simp only at stepped
        split at stepped
        · rename_i unborn
          cases stepped
          exact kept.connect unborn
        · cases stepped
    | send conn data =>
        simp only at stepped
        split at stepped
        · rename_i possible
          cases stepped
          exact kept.send possible.1 possible.2.2
        · cases stepped
    | shutdown conn =>
        simp only at stepped
        split at stepped
        · rename_i connected
          cases stepped
          have account := kept.account conn
          exact kept.client rfl connected account.begun account.whole
        · cases stepped
    | reset conn lost =>
        simp only at stepped
        split at stepped
        · rename_i connected
          cases stepped
          have account := kept.account conn
          apply kept.client
          · rfl
          · exact connected
          · cases lost with
            | false => exact account.begun
            | true => simpa using account.logged_begins
          · simp
        · cases stepped
    | wait ready =>
        simp only at stepped
        split at stepped
        · rename_i possible
          rcases possible with ⟨_, reports, _, isReady⟩
          cases stepped
          refine kept.setWorker (kept.sound.wait reports) ?_ rfl rfl rfl rfl
          intro entry entryMem
          rcases List.mem_filterMap.mp entryMem with ⟨reported, reportedMem, isEntry⟩
          rcases Option.map_eq_some_iff.mp isEntry with ⟨ptr, _, rfl⟩
          have shown := List.all_eq_true.mp isReady reported reportedMem
          exact (of_decide_eq_true shown).2
        · cases stepped
    | accept accepted lost address noDelay added =>
        simp only at stepped
        split at stepped
        · cases stepped
        · rename_i ptr eve rest first
          exact (kept.pass first).1.passListening stepped
    | read count =>
        simp only at stepped
        split at stepped
        · cases stepped
        · rename_i ptr eve rest first
          rcases kept.pass first with ⟨taken, others, readable, fd, found⟩
          exact taken.passClient found others readable stepped

theorem kept_of_reachable {listenFd : Fd} {address : Ptr}
    (reachable : Machine.Reachable step (start listenFd address) site) : site.Kept :=
  reachable.invariant Kept (fun kept stepped => kept.step stepped) (kept_start listenFd address)

end Site

end LoadBalance.Reuseport
