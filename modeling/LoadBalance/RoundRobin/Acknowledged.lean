import LoadBalance.RoundRobin.Exchange

/-!
# What the round-robin distributor acknowledges

A chunk is forwarded as it was read, and the inner servers only work on messages of 20
bytes, of which a request is none. So a request which was acknowledged can be dropped
without a trace; and a chunk which is not one request gets one reply all the same. The
replies are right as long as neither happens: every read moves one request, and no request
is forwarded as a whole.
-/

namespace LoadBalance.RoundRobin

open LoadBalance.Stream (Line)

/-- The server has, or had, the given byte. -/
def Server.Carries (server : Server) (cell : Tagged) : Prop :=
  cell ∈ server.line.toServer ∨ ∃ message ∈ server.worked, cell ∈ message

namespace Exchange

variable {servers : ℕ}

/-- A read from a client moves one request, and the `write` to the inner server does not move
all of it. -/
def Refuses (_ : Exchange servers) : ExchangeEvent servers → Prop
  | .read _ count writen => count = normalLen ∧ writen ≠ normalLen
  | _ => True

instance (exchange : Exchange servers) (event : ExchangeEvent servers) :
    Decidable (exchange.Refuses event) :=
  match event with
  | .read _ _ _ => inferInstanceAs (Decidable (_ ∧ _))
  | .accept _ | .send _ _ | .shutdown _ | .again _ | .eof _ | .serverRead _ _
  | .serverWrite _ _ => instDecidableTrue

def cellsOf (exchange : Exchange servers) (number : ℕ) : List Tagged :=
  (exchange.requests[number]?.map Request.cells).getD []

def repliesFor (exchange : Exchange servers) (number : ℕ) : List Handled :=
  exchange.handled.filter fun entry => Touches number entry.chunk

/-- The connections hold whole requests, each of which is answered as one later on. -/
structure Queued (exchange : Exchange servers) (waiting : Fd → List ℕ) : Prop where
  cells : ∀ {number : ℕ} {request : Request}, exchange.requests[number]? = some request →
    request.cells.length = normalLen ∧ ∀ cell ∈ request.cells, cell.request = some number
  unread : ∀ fd, exchange.unread fd = (waiting fd).flatMap exchange.cellsOf
  known : ∀ {fd : Fd} {number : ℕ}, number ∈ waiting fd →
    ∃ request, exchange.requests[number]? = some request ∧ request.fd = fd
  nodup : ∀ fd, (waiting fd).Nodup
  chunks : ∀ entry ∈ exchange.handled, ∃ (number : ℕ) (request : Request),
    exchange.requests[number]? = some request ∧ entry.chunk = request.cells
  once : ∀ {number : ℕ} {request : Request}, exchange.requests[number]? = some request →
    (number ∈ waiting request.fd ∧ exchange.repliesFor number = []) ∨
      (number ∉ waiting request.fd ∧ exchange.repliesFor number = [⟨request.cells, errRes⟩])
  carried : ∀ server cell number, (exchange.server server).Carries cell →
    cell.request = some number → ∃ entry ∈ exchange.handled, Touches number entry.chunk

theorem cellsOf_eq {exchange : Exchange servers} {number : ℕ} {request : Request}
    (found : exchange.requests[number]? = some request) :
    exchange.cellsOf number = request.cells := by
  rw [cellsOf, found]
  rfl

section Queue

variable {exchange : Exchange servers} {waiting : Fd → List ℕ}

theorem Queued.touches_iff (queued : exchange.Queued waiting) {number other : ℕ}
    {request : Request} (found : exchange.requests[number]? = some request) :
    Touches other request.cells ↔ other = number := by
  have cells := queued.cells found
  constructor
  · rintro ⟨cell, cellMem, isOther⟩
    have isNumber := cells.2 cell cellMem
    rw [isOther] at isNumber
    exact Option.some.inj isNumber
  · rintro rfl
    have nonempty : request.cells ≠ [] := by
      intro empty
      simp [empty, normalLen] at cells
    rcases List.exists_mem_of_ne_nil _ nonempty with ⟨cell, cellMem⟩
    exact ⟨cell, cellMem, cells.2 cell cellMem⟩

/-- A request on which nothing was said yet has not reached any server. -/
theorem Queued.not_carries (queued : exchange.Queued waiting) {number : ℕ}
    (unanswered : exchange.repliesFor number = []) (server : Fin servers) {cell : Tagged}
    (carries : (exchange.server server).Carries cell) : cell.request ≠ some number := by
  intro isNumber
  rcases queued.carried server cell number carries isNumber with ⟨entry, entryMem, touches⟩
  rw [repliesFor, List.filter_eq_nil_iff] at unanswered
  exact unanswered entry entryMem (decide_eq_true touches)

/-- A step which neither reads nor sends a request. -/
theorem Queued.frame (queued : exchange.Queued waiting) {next : Exchange servers}
    (requests : next.requests = exchange.requests) (unread : next.unread = exchange.unread)
    (handled : next.handled = exchange.handled)
    (carried : ∀ server cell, (next.server server).Carries cell →
      (exchange.server server).Carries cell) : next.Queued waiting where
  cells := by
    intro number request found
    rw [requests] at found
    exact queued.cells found
  unread := by
    intro fd
    have same : next.cellsOf = exchange.cellsOf := by
      funext number
      rw [cellsOf, requests, cellsOf]
    rw [unread, same]
    exact queued.unread fd
  known := by
    intro fd number numberMem
    rw [requests]
    exact queued.known numberMem
  nodup := queued.nodup
  chunks := by
    rw [handled, requests]
    exact queued.chunks
  once := by
    intro number request found
    rw [requests] at found
    rw [repliesFor, handled]
    exact queued.once found
  carried := by
    intro server cell number carries
    rw [handled]
    exact queued.carried server cell number (carried server cell carries)

/-- Every request is still waiting or has its own reply. -/
theorem Queued.exactlyOnce (queued : exchange.Queued waiting) : exchange.ExactlyOnce := by
  intro number request found
  rcases queued.once found with ⟨numberMem, _⟩ | ⟨_, answered⟩
  · left
    rw [queued.unread, ← cellsOf_eq found]
    have block : exchange.cellsOf number ∈ (waiting request.fd).map exchange.cellsOf :=
      List.mem_map_of_mem numberMem
    rcases List.append_of_mem block with ⟨before, after, cut⟩
    rw [List.flatMap_def, cut]
    exact ⟨before.flatten, after.flatten, by simp⟩
  · right
    refine ⟨errRes, answered, length_errRes, fun success => ?_⟩
    exact absurd success.symm correctRes_ne_errRes

end Queue

/-- The state after a chunk was forwarded to a server and answered. -/
def answered (exchange : Exchange servers) (thread : Thread servers) (server : Fin servers)
    (chunk : List Tagged) (writen : ℤ) : Exchange servers :=
  let this := exchange.server server
  { exchange with
    thread := thread
    server := Function.update exchange.server server { this with
      line := { this.line with toServer := this.line.toServer ++ chunk.take writen.toNat } }
    handled := exchange.handled ++ [⟨chunk, response writen chunk.length⟩] }

section Steps

variable {exchange next : Exchange servers}

theorem frame_of_pass {fd : Fd} {chunk : List Tagged} {answers : Answers Tagged}
    (nothing : ∀ buf, answers.readn = .data buf → buf = [])
    (passed : exchange.pass fd chunk answers = some next) :
    next.requests = exchange.requests ∧ next.unread = exchange.unread ∧
      next.handled = exchange.handled ∧ next.server = exchange.server := by
  simp only [pass] at passed
  split at passed
  · cases passed
  · rename_i thread calls served
    cases passed
    rcases loopBody_cases served with ⟨server, buf, received, nonempty, _⟩ | ⟨_, _, rfl | rfl⟩
    · exact absurd (nothing buf received) nonempty
    · exact ⟨rfl, rfl, rfl, rfl⟩
    · exact ⟨rfl, rfl, rfl, rfl⟩

/-- A read moves a chunk, which is then forwarded and answered. -/
theorem eq_of_step_read {fd : Fd} {count : ℕ} {writen : ℤ}
    (stepped : exchange.step (.read fd count writen) = some next) :
    (0 < count ∧ count ≤ (exchange.unread fd).length ∧ -1 ≤ writen ∧ writen ≤ count) ∧
      ∃ thread server, next = ({ exchange with
        unread := Function.update exchange.unread fd ((exchange.unread fd).drop count) }
          : Exchange servers).answered thread server ((exchange.unread fd).take count) writen := by
  simp only [step] at stepped
  split at stepped
  · rename_i possible
    rcases possible with ⟨⟨_, notListening⟩, ⟨positive, _, inside⟩, lower, upper⟩
    refine ⟨⟨positive, inside, lower, upper⟩, ?_⟩
    simp only [pass] at stepped
    split at stepped
    · cases stepped
    · rename_i thread calls served
      have nonempty : (exchange.unread fd).take count ≠ [] := by
        intro empty
        have size := congrArg List.length empty
        rw [List.length_take_of_le inside] at size
        exact positive.ne' size
      rcases loopBody_data notListening Distributor.readable_EPOLLIN rfl nonempty served with
        ⟨server, rfl⟩
      cases stepped
      exact ⟨thread, server, rfl⟩
  · cases stepped

end Steps

section Preservation

variable {exchange : Exchange servers} {waiting : Fd → List ℕ}

theorem Queued.lt_length (queued : exchange.Queued waiting) {fd : Fd} {number : ℕ}
    (numberMem : number ∈ waiting fd) : number < exchange.requests.length := by
  rcases queued.known numberMem with ⟨request, found, _⟩
  exact (List.getElem?_eq_some_iff.mp found).choose

/-- A read which moves something begins with the first request which is not read yet. -/
theorem Queued.head (queued : exchange.Queued waiting) {fd : Fd} {count : ℕ}
    (positive : 0 < count) (inside : count ≤ (exchange.unread fd).length) :
    ∃ number request rest, waiting fd = number :: rest ∧
      exchange.requests[number]? = some request ∧ request.fd = fd ∧
      exchange.unread fd = request.cells ++ rest.flatMap exchange.cellsOf := by
  cases queue : waiting fd with
  | nil =>
      rw [queued.unread, queue, List.flatMap_nil, List.length_nil] at inside
      omega
  | cons number rest =>
      have numberMem : number ∈ waiting fd := by
        rw [queue]
        exact List.mem_cons_self
      rcases queued.known numberMem with ⟨request, found, sentOn⟩
      refine ⟨number, request, rest, rfl, found, sentOn, ?_⟩
      rw [queued.unread, queue, List.flatMap_cons, cellsOf_eq found]

/-- A request which is not read yet has no reply. -/
theorem Queued.repliesFor_head (queued : exchange.Queued waiting) {fd : Fd} {number : ℕ}
    {request : Request} {rest : List ℕ} (queue : waiting fd = number :: rest)
    (found : exchange.requests[number]? = some request) (sentOn : request.fd = fd) :
    exchange.repliesFor number = [] := by
  rcases queued.once found with ⟨_, nothing⟩ | ⟨notMem, _⟩
  · exact nothing
  · rw [sentOn, queue] at notMem
    exact absurd List.mem_cons_self notMem

def sent (exchange : Exchange servers) (fd : Fd) (cells : List Tagged) : Exchange servers :=
  { exchange with
    unread := Function.update exchange.unread fd (exchange.unread fd ++ cells)
    requests := exchange.requests ++ [⟨fd, cells⟩] }

theorem requests_sent {fd : Fd} {cells : List Tagged} {number : ℕ} {request : Request}
    (found : exchange.requests[number]? = some request) :
    (exchange.sent fd cells).requests[number]? = some request :=
  Machine.getElem?_of_grown (List.prefix_append _ _) found

theorem eq_of_requests_sent {fd : Fd} {cells : List Tagged} {number : ℕ} {request : Request}
    (found : (exchange.sent fd cells).requests[number]? = some request) :
    exchange.requests[number]? = some request ∨
      (number = exchange.requests.length ∧ request = ⟨fd, cells⟩) := by
  change (exchange.requests ++ [⟨fd, cells⟩])[number]? = some request at found
  rw [List.getElem?_append] at found
  split at found
  · exact Or.inl found
  · rw [List.getElem?_singleton] at found
    split at found
    · exact Or.inr ⟨by omega, (Option.some.inj found).symm⟩
    · cases found

theorem Queued.cellsOf_sent (queued : exchange.Queued waiting) (fd : Fd) (cells : List Tagged)
    (other : Fd) : (waiting other).flatMap (exchange.sent fd cells).cellsOf =
      (waiting other).flatMap exchange.cellsOf := by
  apply List.flatMap_congr
  intro number numberMem
  rcases queued.known numberMem with ⟨request, found, _⟩
  rw [cellsOf_eq (requests_sent found), cellsOf_eq found]

theorem Queued.repliesFor_next (queued : exchange.Queued waiting) :
    exchange.repliesFor exchange.requests.length = [] := by
  rw [repliesFor, List.filter_eq_nil_iff]
  intro entry entryMem touches
  rcases queued.chunks entry entryMem with ⟨number, request, found, isChunk⟩
  rw [decide_eq_true_eq, isChunk, queued.touches_iff found] at touches
  have inside := (List.getElem?_eq_some_iff.mp found).choose
  omega

theorem mem_update_iff {fd other : Fd} {number next : ℕ} :
    number ∈ Function.update waiting fd (waiting fd ++ [next]) other ↔
      number ∈ waiting other ∨ (number = next ∧ other = fd) := by
  by_cases same : other = fd
  · subst same
    rw [Function.update_self, List.mem_append, List.mem_singleton, and_iff_left rfl]
  · rw [Function.update_of_ne same]
    exact (or_iff_left fun fresh => same fresh.2).symm

theorem Queued.send (queued : exchange.Queued waiting) (fd : Fd) {cells : List Tagged}
    (whole : cells.length = normalLen)
    (tagged : ∀ cell ∈ cells, cell.request = some exchange.requests.length) :
    (exchange.sent fd cells).Queued
      (Function.update waiting fd (waiting fd ++ [exchange.requests.length])) := by
  have last : (exchange.sent fd cells).requests[exchange.requests.length]? = some ⟨fd, cells⟩ :=
    List.getElem?_concat_length
  refine ⟨?_, ?_, ?_, ?_, ?_, ?_, queued.carried⟩
  · intro number request found
    rcases eq_of_requests_sent found with earlier | ⟨rfl, rfl⟩
    · exact queued.cells earlier
    · exact ⟨whole, tagged⟩
  · intro other
    change Function.update exchange.unread fd _ other = _
    by_cases same : other = fd
    · subst same
      rw [Function.update_self, Function.update_self, List.flatMap_append, queued.cellsOf_sent,
        queued.unread, List.flatMap_singleton, cellsOf_eq last]
    · rw [Function.update_of_ne same, Function.update_of_ne same, queued.cellsOf_sent,
        queued.unread]
  · intro other number numberMem
    rcases mem_update_iff.mp numberMem with earlier | ⟨rfl, rfl⟩
    · rcases queued.known earlier with ⟨request, found, sentOn⟩
      exact ⟨request, requests_sent found, sentOn⟩
    · exact ⟨_, last, rfl⟩
  · intro other
    by_cases same : other = fd
    · subst same
      rw [Function.update_self, List.nodup_append]
      refine ⟨queued.nodup other, List.nodup_singleton _, ?_⟩
      intro number numberMem fresh isFresh
      rw [List.mem_singleton] at isFresh
      have inside := queued.lt_length numberMem
      omega
    · rw [Function.update_of_ne same]
      exact queued.nodup other
  · intro entry entryMem
    rcases queued.chunks entry entryMem with ⟨number, request, found, isChunk⟩
    exact ⟨number, request, requests_sent found, isChunk⟩
  · intro number request found
    rcases eq_of_requests_sent found with earlier | ⟨rfl, rfl⟩
    · have inside := (List.getElem?_eq_some_iff.mp earlier).choose
      have old : ¬(number = exchange.requests.length ∧ request.fd = fd) :=
        fun fresh => inside.ne fresh.1
      rw [mem_update_iff, or_iff_left old]
      exact queued.once earlier
    · exact Or.inl ⟨mem_update_iff.mpr (Or.inr ⟨rfl, rfl⟩), queued.repliesFor_next⟩

theorem repliesFor_answered (exchange : Exchange servers) (thread : Thread servers)
    (server : Fin servers) (chunk : List Tagged) (writen : ℤ) (number : ℕ) :
    (exchange.answered thread server chunk writen).repliesFor number =
      exchange.repliesFor number ++
        if Touches number chunk then [⟨chunk, response writen chunk.length⟩] else [] := by
  change (exchange.handled ++ [_]).filter _ = _
  rw [List.filter_append]
  by_cases touches : Touches number chunk
  · simp [repliesFor, touches]
  · simp [repliesFor, touches]

/-- A byte which a server has got with this pass is one of the chunk. -/
theorem carries_answered {thread : Thread servers} {server : Fin servers} {chunk : List Tagged}
    {writen : ℤ} {other : Fin servers} {cell : Tagged}
    (carries : ((exchange.answered thread server chunk writen).server other).Carries cell) :
    (exchange.server other).Carries cell ∨ cell ∈ chunk := by
  change (Function.update exchange.server server _ other).Carries cell at carries
  by_cases same : other = server
  · subst same
    rw [Function.update_self] at carries
    rcases carries with inStream | inWorked
    · rw [List.mem_append] at inStream
      rcases inStream with old | new
      · exact Or.inl (Or.inl old)
      · exact Or.inr (List.mem_of_mem_take new)
    · exact Or.inl (Or.inr inWorked)
  · rw [Function.update_of_ne same] at carries
    exact Or.inl carries

theorem Queued.mem_update_rest_iff (queued : exchange.Queued waiting) {fd other : Fd}
    {number next : ℕ} {rest : List ℕ} (queue : waiting fd = number :: rest) :
    next ∈ Function.update waiting fd rest other ↔
      next ∈ waiting other ∧ ¬(next = number ∧ other = fd) := by
  by_cases same : other = fd
  · subst same
    have distinct := queued.nodup other
    rw [queue, List.nodup_cons] at distinct
    rw [Function.update_self, queue, List.mem_cons, and_iff_left rfl]
    constructor
    · intro nextMem
      refine ⟨Or.inr nextMem, ?_⟩
      rintro rfl
      exact distinct.1 nextMem
    · rintro ⟨isHead | nextMem, notHead⟩
      · exact absurd isHead notHead
      · exact nextMem
  · rw [Function.update_of_ne same]
    exact (and_iff_left fun head => same head.2).symm

theorem Queued.nodup_rest (queued : exchange.Queued waiting) {fd : Fd} {number : ℕ}
    {rest : List ℕ} (queue : waiting fd = number :: rest) (other : Fd) :
    (Function.update waiting fd rest other).Nodup := by
  by_cases same : other = fd
  · have distinct := queued.nodup fd
    rw [queue, List.nodup_cons] at distinct
    rw [same, Function.update_self]
    exact distinct.2
  · rw [Function.update_of_ne same]
    exact queued.nodup other

theorem Queued.read (queued : exchange.Queued waiting) {fd : Fd} {number : ℕ} {request : Request}
    {rest : List ℕ} (queue : waiting fd = number :: rest)
    (found : exchange.requests[number]? = some request) (sentOn : request.fd = fd)
    (thread : Thread servers) (server : Fin servers) {writen : ℤ} (refused : writen ≠ normalLen) :
    (({ exchange with
      unread := Function.update exchange.unread fd (rest.flatMap exchange.cellsOf) }
        : Exchange servers).answered thread server request.cells writen).Queued
      (Function.update waiting fd rest) := by
  have reply : (response writen request.cells.length : List Tagged) = errRes := by
    rw [response, (queued.cells found).1, if_neg refused]
  have stays : ∀ {other otherFd}, other ∈ Function.update waiting fd rest otherFd ↔
      other ∈ waiting otherFd ∧ ¬(other = number ∧ otherFd = fd) :=
    queued.mem_update_rest_iff queue
  refine ⟨queued.cells, ?_, fun otherMem => queued.known (stays.mp otherMem).1,
    queued.nodup_rest queue, ?_, ?_, ?_⟩
  · intro other
    change Function.update exchange.unread fd _ other = _
    by_cases same : other = fd
    · rw [same, Function.update_self, Function.update_self]
      rfl
    · rw [Function.update_of_ne same, Function.update_of_ne same]
      exact queued.unread other
  · intro entry entryMem
    change entry ∈ exchange.handled ++ [_] at entryMem
    rw [List.mem_append, List.mem_singleton] at entryMem
    rcases entryMem with old | rfl
    · exact queued.chunks entry old
    · exact ⟨number, request, found, rfl⟩
  · intro other otherRequest otherFound
    change exchange.requests[other]? = some otherRequest at otherFound
    rw [repliesFor_answered, stays]
    by_cases same : other = number
    · subst same
      rw [found, Option.some.injEq] at otherFound
      subst otherFound
      have touches : Touches other request.cells := (queued.touches_iff found).mpr rfl
      have unanswered := queued.repliesFor_head queue found sentOn
      right
      constructor
      · exact fun waits => waits.2 ⟨rfl, sentOn⟩
      · rw [if_pos touches, reply]
        change exchange.repliesFor other ++ _ = _
        rw [unanswered]
        rfl
    · have untouched : ¬Touches other request.cells := by
        rw [queued.touches_iff found]
        exact same
      rw [if_neg untouched, List.append_nil, and_iff_left fun head => same head.1]
      exact queued.once otherFound
  · intro other cell cellNumber carries isCell
    change ∃ entry ∈ exchange.handled ++ [_], _
    rcases carries_answered carries with old | new
    · rcases queued.carried other cell cellNumber old isCell with ⟨entry, entryMem, touches⟩
      exact ⟨entry, List.mem_append_left _ entryMem, touches⟩
    · exact ⟨_, List.mem_append_right _ (List.mem_singleton_self _), cell, new, isCell⟩

theorem worksOn_eq {line : Line Tagged} {count : ℕ} (positive : 0 < count)
    (inside : count ≤ line.toServer.length) :
    worksOn line count = if count = messLen then [line.toServer.take count] else [] := by
  rw [← Line.works_eq positive inside, worksOn, Line.works]
  cases InnerServer.loopBody line.mess (.data (line.toServer.take count)) with
  | error halt => rfl
  | ok value => rfl

theorem carries_of_serverRead {this : Server} {line : Line Tagged} {count : ℕ}
    (served : this.line.serve count = some line) {cell : Tagged}
    (carries : Server.Carries ⟨line, this.worked ++ worksOn this.line count⟩ cell) :
    this.Carries cell := by
  rcases Line.serve_eq_some served with ⟨_, positive, _, inside, rfl⟩
  rcases carries with inStream | ⟨message, messageMem, cellMem⟩
  · exact Or.inl (List.mem_of_mem_drop inStream)
  · rw [worksOn_eq positive inside, List.mem_append] at messageMem
    rcases messageMem with old | new
    · exact Or.inr ⟨message, old, cellMem⟩
    · split at new
      · rw [List.mem_singleton] at new
        rw [new] at cellMem
        exact Or.inl (List.mem_of_mem_take cellMem)
      · cases new

theorem Queued.step (queued : exchange.Queued waiting) {event : ExchangeEvent servers}
    {next : Exchange servers} (refuses : exchange.Refuses event)
    (stepped : exchange.step event = some next) : ∃ after, next.Queued after := by
  have passes : ∀ {fd answers}, (∀ buf, answers.readn = .data buf → buf = []) →
      exchange.pass fd [] answers = some next → ∃ after, next.Queued after := by
    intro fd answers nothing passed
    rcases frame_of_pass nothing passed with ⟨requests, unread, handled, server⟩
    refine ⟨waiting, queued.frame requests unread handled ?_⟩
    intro index cell carries
    rwa [server] at carries
  have replaces : ∀ {index value}, (∀ cell, Server.Carries value cell →
        (exchange.server index).Carries cell) →
      Queued { exchange with server := Function.update exchange.server index value } waiting := by
    intro index value keeps
    refine queued.frame rfl rfl rfl ?_
    intro other cell carries
    by_cases same : other = index
    · subst same
      exact keeps cell (by simpa using carries)
    · simpa [Function.update_of_ne same] using carries
  cases event with
  | accept accepted => exact passes (fun _ impossible => by cases impossible) stepped
  | again fd =>
      simp only [Exchange.step] at stepped
      split at stepped
      · exact passes (fun _ impossible => by cases impossible) stepped
      · cases stepped
  | eof fd =>
      simp only [Exchange.step] at stepped
      split at stepped
      · exact passes (fun _ received => by cases received; rfl) stepped
      · cases stepped
  | send fd data =>
      simp only [Exchange.step] at stepped
      split at stepped
      · rename_i possible
        cases stepped
        refine ⟨_, queued.send fd ?_ ?_⟩
        · rw [List.length_map, possible.2.2]
        · intro cell cellMem
          rcases List.mem_map.mp cellMem with ⟨byte, _, rfl⟩
          rfl
      · cases stepped
  | shutdown fd =>
      simp only [Exchange.step] at stepped
      split at stepped
      · cases stepped
        exact ⟨waiting, queued.frame rfl rfl rfl fun _ _ carries => carries⟩
      · cases stepped
  | read fd count writen =>
      rcases eq_of_step_read stepped with ⟨⟨positive, inside, _⟩, thread, server, rfl⟩
      rcases refuses with ⟨rfl, refused⟩
      rcases queued.head positive inside with ⟨number, request, rest, queue, found, sentOn, unread⟩
      have whole := (queued.cells found).1
      rw [unread, List.take_left' whole, List.drop_left' whole]
      exact ⟨_, queued.read queue found sentOn thread server refused⟩
  | serverRead index count =>
      simp only [Exchange.step, Option.map_eq_some_iff] at stepped
      rcases stepped with ⟨line, served, rfl⟩
      exact ⟨waiting, replaces fun cell carries => carries_of_serverRead served carries⟩
  | serverWrite index count =>
      simp only [Exchange.step] at stepped
      split at stepped
      · cases stepped
        exact ⟨waiting, replaces fun cell carries => carries⟩
      · cases stepped

theorem queued_start (listenFdOuter : Fd) (serversInner : Fin servers → Fd × Fd)
    (garbage : Fin servers → Message Byte) :
    (start listenFdOuter serversInner garbage).Queued fun _ => [] where
  cells := by simp [start]
  unread _ := rfl
  known := by simp
  nodup _ := List.nodup_nil
  chunks := by simp [start]
  once := by simp [start]
  carried := by simp [start, Server.Carries]

theorem queued_of_refuses {listenFdOuter : Fd} {serversInner : Fin servers → Fd × Fd}
    {garbage : Fin servers → Message Byte} {events : List (ExchangeEvent servers)}
    (guarded : Machine.RunsUnder step Refuses (start listenFdOuter serversInner garbage) events
      exchange) : ∃ waiting, exchange.Queued waiting :=
  guarded.invariant (fun exchange => ∃ waiting, exchange.Queued waiting)
    (fun ⟨_, queued⟩ refuses stepped => queued.step refuses stepped)
    ⟨_, queued_start listenFdOuter serversInner garbage⟩

end Preservation

section Violations

variable {exchange : Exchange servers} {waiting : Fd → List ℕ}

def setLine (exchange : Exchange servers) (index : Fin servers) (line : Line Tagged) :
    Exchange servers :=
  { exchange with
    server := Function.update exchange.server index ⟨line, (exchange.server index).worked⟩ }

@[simp]
theorem setLine_setLine (exchange : Exchange servers) (index : Fin servers)
    (first second : Line Tagged) :
    (exchange.setLine index first).setLine index second = exchange.setLine index second := by
  simp [setLine]

@[simp]
theorem setLine_line (exchange : Exchange servers) (index : Fin servers) (line : Line Tagged) :
    ((exchange.setLine index line).server index).line = line := by
  simp [setLine]

theorem step_serverRead_short {index : Fin servers} {count : ℕ}
    (quiet : (exchange.server index).line.echo = []) (positive : 0 < count)
    (short : count < messLen) (inside : count ≤ (exchange.server index).line.toServer.length) :
    ∃ mess, exchange.step (.serverRead index count) = some (exchange.setLine index {
      (exchange.server index).line with
        toServer := (exchange.server index).line.toServer.drop count
        mess := mess
        echo := [] }) := by
  have served := Line.serve_eq quiet positive short.le inside
  refine ⟨(exchange.server index).line.mess.store 0
    ((exchange.server index).line.toServer.take count), ?_⟩
  rw [step, served, Option.map_some, worksOn_eq positive inside, if_neg short.ne,
    if_neg short.ne, List.append_nil, setLine]

/-- Whatever a server is about to do, it can come to the next `read`. -/
theorem exists_quiet (exchange : Exchange servers) (index : Fin servers) :
    ∃ line, Machine.Reachable step exchange (exchange.setLine index line) ∧ line.echo = [] ∧
      line.toServer = (exchange.server index).line.toServer := by
  by_cases quiet : (exchange.server index).line.echo = []
  · refine ⟨(exchange.server index).line, ?_, quiet, rfl⟩
    have same : exchange.setLine index (exchange.server index).line = exchange := by
      rw [setLine, Function.update_eq_self]
    rw [same]
    exact Machine.Reachable.refl exchange
  · have written : exchange.step (.serverWrite index (exchange.server index).line.echo.length) =
        some (exchange.setLine index { (exchange.server index).line with
          echo := []
          fromServer := (exchange.server index).line.fromServer ++
            (exchange.server index).line.echo.take (exchange.server index).line.echo.length }) := by
      rw [step, if_pos ⟨List.length_pos_iff.mpr quiet, le_rfl⟩]
      rfl
    exact ⟨_, (Machine.Reachable.refl exchange).next written, rfl, rfl⟩

/-- A server can read what is before some bytes of the stream in such a way that it works on
none of it. -/
theorem exists_drained {start : Exchange servers} {index : Fin servers} {junk tail : List Tagged}
    {line : Line Tagged} (reachable : Machine.Reachable step start (exchange.setLine index line))
    (quiet : line.echo = []) (stream : line.toServer = junk ++ tail) :
    ∃ after, Machine.Reachable step start (exchange.setLine index after) ∧ after.echo = [] ∧
      after.toServer = tail := by
  induction junk generalizing line with
  | nil => exact ⟨line, reachable, quiet, stream⟩
  | cons cell junk ih =>
      have one : 1 ≤ ((exchange.setLine index line).server index).line.toServer.length := by
        rw [setLine_line, stream]
        simp
      have quietHere : ((exchange.setLine index line).server index).line.echo = [] := by
        rw [setLine_line, quiet]
      rcases step_serverRead_short quietHere Nat.one_pos (by decide : 1 < messLen) one with
        ⟨mess, stepped⟩
      simp only [setLine_line, setLine_setLine] at stepped
      apply ih (reachable.next stepped)
      · rfl
      · rw [stream]
        rfl

/-- What is behind the request at the head of a connection does not contain it. -/
theorem Queued.not_infix (queued : exchange.Queued waiting) {fd : Fd} {number : ℕ}
    {request : Request} {rest : List ℕ} (queue : waiting fd = number :: rest)
    (found : exchange.requests[number]? = some request) {count : ℕ} (positive : 0 < count) :
    ¬request.cells <:+: (request.cells ++ rest.flatMap exchange.cellsOf).drop count := by
  have cells := queued.cells found
  have distinct := queued.nodup fd
  rw [queue, List.nodup_cons] at distinct
  have others : ∀ cell ∈ rest.flatMap exchange.cellsOf, ¬cell.request = some number := by
    intro cell cellMem isNumber
    rcases List.mem_flatMap.mp cellMem with ⟨other, otherMem, cellMem⟩
    have waits : other ∈ waiting fd := by
      rw [queue]
      exact List.mem_cons_of_mem _ otherMem
    rcases queued.known waits with ⟨otherRequest, otherFound, _⟩
    rw [cellsOf_eq otherFound] at cellMem
    have isOther := (queued.cells otherFound).2 cell cellMem
    rw [isNumber] at isOther
    cases isOther
    exact distinct.1 otherMem
  intro undivided
  -- the request has 16 bytes with its number, and behind its first byte there are fewer
  let numbered : Tagged → Bool := fun cell => cell.request = some number
  have atLeast : request.cells.countP numbered ≤
      ((request.cells ++ rest.flatMap exchange.cellsOf).drop count).countP numbered :=
    undivided.sublist.countP_le
  have all : request.cells.countP numbered = normalLen := by
    rw [← cells.1, List.countP_eq_length]
    intro cell cellMem
    exact decide_eq_true (cells.2 cell cellMem)
  have none : ((rest.flatMap exchange.cellsOf).drop (count - request.cells.length)).countP
      numbered = 0 := by
    rw [List.countP_eq_zero]
    intro cell cellMem
    simpa [numbered] using others cell (List.mem_of_mem_drop cellMem)
  have front : (request.cells.drop count).countP numbered ≤ (request.cells.drop count).length :=
    List.countP_le_length
  rw [List.drop_append, List.countP_append, all, none] at atLeast
  rw [List.length_drop, cells.1] at front
  have size : 0 < normalLen := by decide
  omega

/-- A chunk which is not one request is answered once nevertheless. -/
theorem Queued.not_exactlyOnce_of_cut (queued : exchange.Queued waiting) {next : Exchange servers}
    {fd : Fd} {count : ℕ} {writen : ℤ} (cut : count ≠ normalLen)
    (stepped : exchange.step (.read fd count writen) = some next) : ¬next.ExactlyOnce := by
  rcases eq_of_step_read stepped with ⟨⟨positive, inside, _⟩, thread, server, rfl⟩
  rcases queued.head positive inside with ⟨number, request, rest, queue, found, sentOn, unread⟩
  intro exact
  rcases exact number request found with undivided | ⟨reply, answered, _⟩
  · change request.cells <:+: Function.update exchange.unread fd _ request.fd at undivided
    rw [sentOn, Function.update_self, unread] at undivided
    exact queued.not_infix queue found positive undivided
  · have unanswered := queued.repliesFor_head queue found sentOn
    have replies := repliesFor_answered { exchange with
      unread := Function.update exchange.unread fd ((exchange.unread fd).drop count) } thread server
      ((exchange.unread fd).take count) writen number
    rw [repliesFor, answered] at replies
    change _ = exchange.repliesFor number ++ _ at replies
    rw [unanswered, List.nil_append] at replies
    split at replies
    · have chunk := congrArg Handled.chunk (List.singleton_inj.mp replies)
      have size := congrArg List.length chunk
      rw [List.length_take_of_le inside] at size
      exact cut (size.symm.trans (queued.cells found).1)
    · cases replies

/-- A request which was acknowledged and which is nowhere. -/
theorem not_exactlyOnce_of_lost {number : ℕ} {request : Request}
    (found : exchange.requests[number]? = some request) (touches : Touches number request.cells)
    (taken : ¬request.cells <:+: exchange.unread request.fd)
    (acknowledged : exchange.repliesFor number = [⟨request.cells, correctRes⟩])
    (lost : ∀ server cell, (exchange.server server).Carries cell → cell.request ≠ some number) :
    ¬exchange.ExactlyOnce := by
  rcases touches with ⟨cell, cellMem, isNumber⟩
  intro exact
  rcases exact number request found with undivided | ⟨reply, answered, _, executed⟩
  · exact taken undivided
  · rw [repliesFor] at acknowledged
    have success : reply = correctRes := by
      rw [acknowledged] at answered
      exact (congrArg Handled.reply (List.singleton_inj.mp answered)).symm
    rcases executed success with ⟨server, undivided⟩ | ⟨server, message, once, undivided, _⟩
    · exact lost server cell (Or.inl (undivided.subset cellMem)) isNumber
    · have messageMem : message ∈ (exchange.server server).worked := by
        have inFilter : message ∈ (exchange.server server).worked.filter
            (fun message => Touches number message) := by
          rw [once]
          exact List.mem_singleton_self message
        exact List.mem_of_mem_filter inFilter
      exact lost server cell (Or.inr ⟨message, messageMem, undivided.subset cellMem⟩) isNumber

/-- A request which was forwarded as a whole is acknowledged, and can be dropped. -/
theorem Queued.exists_dropped (queued : exchange.Queued waiting) {next : Exchange servers}
    {fd : Fd} (stepped : exchange.step (.read fd normalLen normalLen) = some next) :
    ∃ later, Machine.Reachable Exchange.step next later ∧ ¬later.ExactlyOnce := by
  rcases eq_of_step_read stepped with ⟨⟨positive, inside, _⟩, thread, server, rfl⟩
  rcases queued.head positive inside with ⟨number, request, rest, queue, found, sentOn, unread⟩
  have whole := (queued.cells found).1
  have chunk : (exchange.unread fd).take normalLen = request.cells := by
    rw [unread, List.take_left' whole]
  have unanswered := queued.repliesFor_head queue found sentOn
  generalize isNext : ({ exchange with
    unread := Function.update exchange.unread fd ((exchange.unread fd).drop normalLen) }
      : Exchange servers).answered thread server ((exchange.unread fd).take normalLen)
      normalLen = next
  have stream : (next.server server).line.toServer =
      (exchange.server server).line.toServer ++ request.cells := by
    rw [← isNext, chunk]
    simp [Exchange.answered, Int.toNat_natCast, ← whole]
  rcases exists_quiet next server with ⟨line, quietReachable, quiet, sameStream⟩
  rcases exists_drained quietReachable quiet (sameStream.trans stream) with
    ⟨drained, drainedReachable, drainedQuiet, left⟩
  have quietHere : ((next.setLine server drained).server server).line.echo = [] := by
    rw [setLine_line, drainedQuiet]
  have inStream : normalLen ≤
      ((next.setLine server drained).server server).line.toServer.length := by
    rw [setLine_line, left, whole]
  rcases step_serverRead_short quietHere (by decide : 0 < normalLen) (by decide) inStream with
    ⟨mess, dropped⟩
  refine ⟨_, drainedReachable.next dropped, ?_⟩
  simp only [setLine_setLine, setLine_line]
  have sameRequests : next.requests = exchange.requests := by rw [← isNext]; rfl
  have sameUnread : next.unread fd = (exchange.unread fd).drop normalLen := by
    rw [← isNext]
    exact Function.update_self _ _ _
  have answered : next.repliesFor number = [⟨request.cells, correctRes⟩] := by
    have touches : Touches number ((exchange.unread fd).take normalLen) := by
      rw [chunk, queued.touches_iff found]
    rw [← isNext, repliesFor_answered, if_pos touches, chunk]
    change exchange.repliesFor number ++ _ = _
    rw [unanswered, response, whole, if_pos rfl]
    rfl
  refine @not_exactlyOnce_of_lost servers _ number request ?_ ?_ ?_ ?_ ?_
  · exact sameRequests ▸ found
  · exact (queued.touches_iff found).mpr rfl
  · change ¬request.cells <:+: next.unread request.fd
    rw [sentOn, sameUnread, unread]
    exact queued.not_infix queue found (by decide)
  · exact answered
  · intro index cell carries
    apply queued.not_carries unanswered index
    by_cases same : index = server
    · subst same
      have sameWorked : (next.server index).worked = (exchange.server index).worked := by
        rw [← isNext]
        simp [Exchange.answered]
      simp only [setLine, Function.update_self] at carries
      rcases carries with inStream | inWorked
      · simp [left, ← whole] at inStream
      · right
        rwa [← sameWorked]
    · have sameServer : next.server index = exchange.server index := by
        rw [← isNext]
        exact Function.update_of_ne same _ _
      simpa [setLine, Function.update_of_ne same, sameServer] using carries

end Violations

/--
In every run in which each read from a client moves one request and no request is
forwarded as a whole, every request which was begun gets exactly one reply, and what is
acknowledged is executed exactly once. After any other step a state can be reached where
this fails.
-/
theorem exactlyOnce_of_refuses (listenFdOuter : Fd) (serversInner : Fin servers → Fd × Fd)
    (garbage : Fin servers → Message Byte) {events : List (ExchangeEvent servers)}
    {final : Exchange servers}
    (guarded : Machine.RunsUnder step Refuses (start listenFdOuter serversInner garbage) events
      final) :
    final.ExactlyOnce ∧
      ∀ event next, final.step event = some next → ¬final.Refuses event →
        ∃ later, Machine.Reachable step next later ∧ ¬later.ExactlyOnce := by
  rcases queued_of_refuses guarded with ⟨waiting, queued⟩
  refine ⟨queued.exactlyOnce, fun event next stepped violates => ?_⟩
  cases event with
  | read fd count writen =>
      by_cases cut : count = normalLen
      · subst cut
        have whole : writen = normalLen := by
          by_contra refused
          exact violates ⟨rfl, refused⟩
        subst whole
        exact queued.exists_dropped stepped
      · exact ⟨next, Machine.Reachable.refl next, queued.not_exactlyOnce_of_cut cut stepped⟩
  | _ => exact absurd trivial violates

def sampleServers (_ : Fin 1) : Fd × Fd := (10, 20)

def sampleGarbage (_ : Fin 1) : Message Byte := .zero

/-- A client which connects and sends two requests. -/
def sampleClient : List (ExchangeEvent 1) :=
  [.accept [8], .send 8 (List.replicate normalLen 1), .send 8 (List.replicate normalLen 2)]

theorem exactlyOnce_of_refuses_sample :
    ∃ final, Machine.RunsUnder step Refuses (start 6 sampleServers sampleGarbage)
        (sampleClient ++ [.read 8 normalLen (-1), .read 8 normalLen 4,
          .serverRead (Fin.last 0) 4]) final ∧
      final.handled.map Handled.reply = [errRes, errRes] ∧ final.ExactlyOnce := by
  have ran : ((Machine.run (Machine.RunsUnder.guarded step Refuses)
      (start 6 sampleServers sampleGarbage) (sampleClient ++ [.read 8 normalLen (-1),
        .read 8 normalLen 4, .serverRead (Fin.last 0) 4])).any fun final =>
          final.handled.map Handled.reply = [errRes, errRes]) = true := by
    decide +kernel
  rcases Machine.RunsUnder.exists_of_any _ ran with ⟨final, guarded, shown⟩
  exact ⟨final, guarded, of_decide_eq_true shown,
    (exactlyOnce_of_refuses 6 sampleServers sampleGarbage guarded).1⟩

/-- A request is acknowledged, and the inner server drops its 16 bytes. -/
theorem not_exactlyOnce_of_dropped :
    ∃ final, Machine.run step (start 6 sampleServers sampleGarbage)
        [.accept [8], .send 8 (List.replicate normalLen 1), .read 8 normalLen normalLen,
          .serverRead (Fin.last 0) normalLen] = some final ∧
      final.handled.map Handled.reply = [correctRes] ∧
      (final.server (Fin.last 0)).worked = [] ∧
      (final.server (Fin.last 0)).line.toServer = [] ∧ ¬final.ExactlyOnce := by
  have ran : ((Machine.run step (start 6 sampleServers sampleGarbage)
      [.accept [8], .send 8 (List.replicate normalLen 1), .read 8 normalLen normalLen,
        .serverRead (Fin.last 0) normalLen]).any fun final =>
          final.handled.map Handled.reply = [correctRes] ∧
          (final.server (Fin.last 0)).worked = [] ∧
          (final.server (Fin.last 0)).line.toServer = [] ∧
          final.requests = [⟨8, List.replicate normalLen ⟨1, some 0⟩⟩] ∧
          final.unread 8 = [] ∧
          final.repliesFor 0 = [⟨List.replicate normalLen ⟨1, some 0⟩, correctRes⟩]) = true := by
    decide +kernel
  rcases Machine.exists_run_of_any ran with ⟨final, ran, shown⟩
  rcases of_decide_eq_true shown with ⟨replies, worked, stream, requests, unread, answered⟩
  refine ⟨final, ran, replies, worked, stream, ?_⟩
  refine @not_exactlyOnce_of_lost 1 final 0 ⟨8, List.replicate normalLen ⟨1, some 0⟩⟩ ?_ ?_ ?_ ?_ ?_
  · rw [requests]
    rfl
  · decide
  · rw [unread]
    decide
  · exact answered
  · intro server cell carries
    rw [Subsingleton.elim server (Fin.last 0)] at carries
    rcases carries with inStream | ⟨message, messageMem, _⟩
    · rw [stream] at inStream
      cases inStream
    · rw [worked] at messageMem
      cases messageMem

end Exchange

end LoadBalance.RoundRobin
