import LoadBalance.Lib.Blocks
import LoadBalance.Distributor.LoopBody

/-!
# Framing of a client's stream

The request branch keeps no buffer for a connection: a read of 16 bytes is taken as a
request, and every other read, one which has found nothing included, is answered with
`err_res`. The passes of other descriptors may come in between and leave anything in
the variables of the thread.
-/

universe u

namespace LoadBalance.Distributor

variable {servers : ℕ} {α : Type u}

/-- One entry of `events_`, with the answers to the calls of its pass. -/
structure Ready (servers : ℕ) (α : Type u) where
  fd : Fd
  events : BitVec 32
  answers : Answers servers α

def callsFor [DecidableEq α] (client : Fd) (log : List (Fd × List (Call α))) : List (Call α) :=
  (log.filter fun entry => entry.1 = client).flatMap Prod.snd

def forwarded (serverFdSet : Finset Fd) (calls : List (Call α)) : List (List α) :=
  calls.filterMap fun call => match call with
    | .write fd data => if fd ∈ serverFdSet then some data else none
    | .close _ => none

def received (reads : List (ReadResult α)) : List (List α) :=
  reads.filterMap fun readn => match readn with
    | .data piece => some piece
    | .error _ => none

/-- A read which has moved one request. -/
def WholeRequest (readn : ReadResult α) : Prop :=
  ∃ piece, readn = .data piece ∧ piece.length = normalLen

variable [Cell α]

/-- The loop over ready descriptors, with the calls made for each of them. -/
def serve (thread : Thread servers α) :
    List (Ready servers α) → Except Halt (Thread servers α × List (Fd × List (Call α)))
  | [] => .ok (thread, [])
  | ready :: readies =>
      match loopBody thread ready.fd ready.events ready.answers with
      | .error halt => .error halt
      | .ok (next, calls) =>
          match serve next readies with
          | .error halt => .error halt
          | .ok (final, log) => .ok (final, (ready.fd, calls) :: log)

/-- The pass of a readable client finds some bytes of a request or nothing yet, and the
inner server takes what is written to it. -/
structure Arrives (ready : Ready servers α) : Prop where
  readable : ready.events &&& EPOLLIN ≠ 0
  moved : (∃ piece, ready.answers.readn = .data piece ∧
      1 ≤ piece.length ∧ piece.length ≤ normalLen) ∨
    ready.answers.readn = .error .eagain
  written : ready.answers.writen = messLen

/-- The loop forwarded exactly the given requests of the client, each under its
descriptor, and did not answer any of them with `err_res`. -/
def ForwardsExactly [DecidableEq α] (serverFdSet : Finset Fd) (client : Fd)
    (requests : List (List α)) (log : List (Fd × List (Call α))) : Prop :=
  forwarded serverFdSet (callsFor client log) =
      requests.map (fun request => fdBytes client ++ request) ∧
    Call.write client errRes ∉ callsFor client log

def clientCalls (serversInner : Fin servers → Fd × Fd) (client : Fd) (ready : Ready servers α) :
    List (Call α) :=
  match ready.answers.readn with
  | .data piece =>
      if piece.length = normalLen then
        [.write (serversInner ready.answers.index).1 (fdBytes client ++ piece)]
      else [.write client errRes]
  | .error _ => [.write client errRes]

section Client

variable {client : Fd}

/-- The calls for a client only depend on its read, not on what the passes of other
descriptors have left behind. -/
theorem loopBody_arrives {thread : Thread servers α} {ready : Ready servers α}
    (notListening : client ≠ thread.listenFdOuter) (notServer : client ∉ thread.serverFdSet)
    (isClient : ready.fd = client) (arrives : Arrives ready) :
    ∃ next, loopBody thread ready.fd ready.events ready.answers =
      .ok (next, clientCalls thread.serversInner client ready) := by
  rw [isClient, loopBody_client notListening arrives.readable notServer]
  rcases arrives.moved with ⟨piece, moved, lower, upper⟩ | again
  · by_cases whole : piece.length = normalLen
    · rcases @requestBranch_whole _ _ _ thread client _ _ moved whole with ⟨mess, _, served⟩
      refine ⟨{ thread with mess := mess }, ?_⟩
      rw [served]
      simp [clientCalls, moved, whole, arrives.written]
    · have nonempty : piece ≠ [] := by
        rintro rfl
        simp at lower
      refine ⟨thread, (requestBranch_short moved nonempty whole).trans ?_⟩
      simp [clientCalls, moved, whole]
  · refine ⟨thread, (requestBranch_again again).trans ?_⟩
    simp [clientCalls, again]

/-- A loop which serves nobody but the client goes through. -/
theorem exists_serve {thread : Thread servers α} {readies : List (Ready servers α)}
    (notListening : client ≠ thread.listenFdOuter) (notServer : client ∉ thread.serverFdSet)
    (arrives : ∀ ready ∈ readies, ready.fd = client ∧ Arrives ready) :
    ∃ final log, serve thread readies = .ok (final, log) := by
  induction readies generalizing thread with
  | nil => exact ⟨thread, [], rfl⟩
  | cons ready readies ih =>
      rw [List.forall_mem_cons] at arrives
      rcases arrives with ⟨⟨isClient, arrives⟩, later⟩
      rcases loopBody_arrives notListening notServer isClient arrives with ⟨next, passed⟩
      have tables := loopBody_tables passed
      simp only [Thread.tables, Prod.mk.injEq] at tables
      rcases tables with ⟨sameListen, sameSet, -⟩
      rcases ih (sameListen ▸ notListening) (sameSet ▸ notServer) later with ⟨final, log, served⟩
      refine ⟨final, (ready.fd, clientCalls thread.serversInner client ready) :: log, ?_⟩
      simp only [serve, passed, served]

theorem callsFor_serve [DecidableEq α] {thread final : Thread servers α}
    {readies : List (Ready servers α)} {log : List (Fd × List (Call α))}
    (notListening : client ≠ thread.listenFdOuter) (notServer : client ∉ thread.serverFdSet)
    (arrives : ∀ ready ∈ readies, ready.fd = client → Arrives ready)
    (served : serve thread readies = .ok (final, log)) :
    callsFor client log = (readies.filter fun ready => ready.fd = client).flatMap
      (clientCalls thread.serversInner client) := by
  induction readies generalizing thread log with
  | nil =>
      cases served
      rfl
  | cons ready readies ih =>
      simp only [List.forall_mem_cons] at arrives
      simp only [serve] at served
      split at served
      · cases served
      · rename_i next calls passed
        have tables := loopBody_tables passed
        simp only [Thread.tables, Prod.mk.injEq] at tables
        rcases tables with ⟨sameListen, sameSet, sameServers⟩
        split at served
        · cases served
        · rename_i last later servedLater
          cases served
          have rest := ih (sameListen ▸ notListening) (sameSet ▸ notServer) arrives.2 servedLater
          rw [sameServers] at rest
          by_cases isClient : ready.fd = client
          · rcases loopBody_arrives notListening notServer isClient (arrives.1 isClient) with
              ⟨reached, passedHere⟩
            rw [passed, Except.ok.injEq, Prod.mk.injEq] at passedHere
            simp only [callsFor, isClient, decide_true, List.filter_cons_of_pos,
              List.flatMap_cons] at rest ⊢
            rw [rest, passedHere.2]
          · simp only [callsFor, isClient, decide_false, Bool.false_eq_true, not_false_eq_true,
              List.filter_cons_of_neg] at rest ⊢
            exact rest

theorem clientCalls_whole {serversInner : Fin servers → Fd × Fd}
    {readies : List (Ready servers α)} {serverFdSet : Finset Fd}
    (works : ∀ index, (serversInner index).1 ∈ serverFdSet) (notServer : client ∉ serverFdSet)
    (whole : ∀ ready ∈ readies, WholeRequest ready.answers.readn) :
    forwarded serverFdSet (readies.flatMap (clientCalls serversInner client)) =
        (received (readies.map fun ready => ready.answers.readn)).map
          (fun request => fdBytes client ++ request) ∧
      Call.write client errRes ∉ readies.flatMap (clientCalls serversInner client) := by
  induction readies with
  | nil => simp [forwarded, received]
  | cons ready readies ih =>
      simp only [List.forall_mem_cons] at whole
      rcases whole with ⟨⟨piece, moved, full⟩, wholeRest⟩
      rcases ih wholeRest with ⟨forwards, noError⟩
      have work := works ready.answers.index
      have distinct : client ≠ (serversInner ready.answers.index).1 :=
        fun equal => notServer (equal ▸ work)
      constructor
      · simp only [forwarded, received] at forwards ⊢
        simp [clientCalls, moved, full, work, forwards]
      · simp only [List.flatMap_cons, List.mem_append, not_or]
        exact ⟨by simp [clientCalls, moved, full, distinct], noError⟩

theorem errRes_mem_of_not_whole {serversInner : Fin servers → Fd × Fd}
    {readies : List (Ready servers α)} {ready : Ready servers α} (readyMem : ready ∈ readies)
    (partially : ¬WholeRequest ready.answers.readn) :
    Call.write client errRes ∈ readies.flatMap (clientCalls serversInner client) := by
  refine List.mem_flatMap.mpr ⟨ready, readyMem, ?_⟩
  simp only [clientCalls]
  split
  · rename_i piece moved
    have short : piece.length ≠ normalLen := fun full => partially ⟨piece, moved, full⟩
    simp [short]
  · simp

end Client

/--
For every sequence of passes in which the reads of a client together move a stream of
requests, in any pieces and with any number of reads that find nothing, the loop
forwards exactly these requests and reports no error to the client if and only if each
of the client's reads moves one whole request. With passes of this client only, the loop
does go through.
-/
theorem forwardsExactly_iff_reads_whole {client : Fd} {thread : Thread servers Byte}
    {readies : List (Ready servers Byte)} {requests : List (List Byte)}
    (notListening : client ≠ thread.listenFdOuter) (notServer : client ∉ thread.serverFdSet)
    (works : ∀ index, (thread.serversInner index).1 ∈ thread.serverFdSet)
    (arrives : ∀ ready ∈ readies, ready.fd = client → Arrives ready)
    (sizes : ∀ request ∈ requests, request.length = normalLen)
    (sameStream : (received ((readies.filter fun ready => ready.fd = client).map
      fun ready => ready.answers.readn)).flatten = requests.flatten) :
    ((∀ ready ∈ readies, ready.fd = client) →
      ∃ final log, serve thread readies = .ok (final, log)) ∧
    ∀ final log, serve thread readies = .ok (final, log) →
      (ForwardsExactly thread.serverFdSet client requests log ↔
        ∀ ready ∈ readies, ready.fd = client → WholeRequest ready.answers.readn) := by
  refine ⟨?_, ?_⟩
  · intro onlyClient
    apply exists_serve notListening notServer
    intro ready readyMem
    exact ⟨onlyClient ready readyMem, arrives ready readyMem (onlyClient ready readyMem)⟩
  intro final log served
  have calls := callsFor_serve notListening notServer arrives served
  constructor
  · rintro ⟨_, noError⟩ ready readyMem isClient
    by_contra partially
    apply noError
    rw [calls]
    exact errRes_mem_of_not_whole (by simp [readyMem, isClient]) partially
  · intro whole
    have wholeFiltered : ∀ ready ∈ readies.filter fun ready => ready.fd = client,
        WholeRequest ready.answers.readn := by
      intro ready readyMem
      simp only [List.mem_filter, decide_eq_true_eq] at readyMem
      exact whole ready readyMem.1 readyMem.2
    have pieceSizes : ∀ piece ∈ received ((readies.filter fun ready => ready.fd = client).map
        fun ready => ready.answers.readn), piece.length = normalLen := by
      intro piece pieceMem
      simp only [received, List.mem_filterMap, List.mem_map] at pieceMem
      rcases pieceMem with ⟨readn, ⟨ready, readyMem, rfl⟩, moved⟩
      rcases wholeFiltered ready readyMem with ⟨request, movedRequest, size⟩
      simp only [movedRequest, Option.some.injEq] at moved
      exact moved ▸ size
    have pieces := Blocks.eq_of_flatten_eq (by decide : 0 < normalLen) pieceSizes sizes sameStream
    rw [ForwardsExactly, calls, ← pieces]
    exact clientCalls_whole works notServer wholeFiltered

/-- A distributor with one inner server on descriptor 6, listening on 5, with a client on 8. -/
def sampleThread : Thread 1 Byte where
  listenFdOuter := 5
  interest := {5, 8}
  serverFdSet := {6}
  serversInner _ := (6, 7)
  mess := .zero

/-- The client on descriptor 8 becomes readable, and its `read` returns the given result. -/
def sampleReady (readn : ReadResult Byte) : Ready 1 Byte where
  fd := 8
  events := EPOLLIN
  answers := { accepted := [], acceptErrno := .eagain, readn := readn, index := 0, writen := 20 }

theorem sampleReady_arrives {readn : ReadResult Byte}
    (moved : (∃ piece, readn = .data piece ∧ 1 ≤ piece.length ∧ piece.length ≤ normalLen) ∨
      readn = .error .eagain) : Arrives (sampleReady readn) :=
  ⟨readable_EPOLLIN, moved, rfl⟩

/-- Two requests of the client. -/
def sampleRequests : List (List Byte) := [List.replicate 16 1, List.replicate 16 2]

def readWhole : List (Ready 1 Byte) :=
  [sampleReady (.data (List.replicate 16 1)), sampleReady (.data (List.replicate 16 2))]

/-- A wake-up with nothing to read, and the second request in two pieces. -/
def readInPieces : List (Ready 1 Byte) :=
  [sampleReady (.data (List.replicate 16 1)), sampleReady (.error .eagain),
    sampleReady (.data (List.replicate 5 2)), sampleReady (.data (List.replicate 11 2))]

/-- Read whole, both requests are forwarded. Read in pieces, they are not. -/
theorem forwardsExactly_iff_reads_whole_sample :
    (∃ final log, serve sampleThread readWhole = .ok (final, log) ∧
      ForwardsExactly {6} 8 sampleRequests log) ∧
    ∃ final log, serve sampleThread readInPieces = .ok (final, log) ∧
      ¬ForwardsExactly {6} 8 sampleRequests log := by
  have sizes : ∀ request ∈ sampleRequests, request.length = normalLen := by decide
  have arrives : ∀ ready ∈ readWhole ++ readInPieces, ready.fd = 8 → Arrives ready := by
    intro ready readyMem _
    simp only [readWhole, readInPieces, List.cons_append, List.nil_append, List.mem_cons,
      List.not_mem_nil, or_false] at readyMem
    rcases readyMem with rfl | rfl | rfl | rfl | rfl | rfl
    · exact sampleReady_arrives (Or.inl ⟨_, rfl, by decide, by decide⟩)
    · exact sampleReady_arrives (Or.inl ⟨_, rfl, by decide, by decide⟩)
    · exact sampleReady_arrives (Or.inl ⟨_, rfl, by decide, by decide⟩)
    · exact sampleReady_arrives (Or.inr rfl)
    · exact sampleReady_arrives (Or.inl ⟨_, rfl, by decide, by decide⟩)
    · exact sampleReady_arrives (Or.inl ⟨_, rfl, by decide, by decide⟩)
  rw [List.forall_mem_append] at arrives
  rcases @forwardsExactly_iff_reads_whole 1 8 sampleThread readWhole sampleRequests (by decide)
    (by decide) (by decide) arrives.1 sizes (by decide) with ⟨goesOn, whole⟩
  rcases @forwardsExactly_iff_reads_whole 1 8 sampleThread readInPieces sampleRequests (by decide)
    (by decide) (by decide) arrives.2 sizes (by decide) with ⟨goesOn', pieces⟩
  rcases goesOn (by decide) with ⟨final, log, served⟩
  rcases goesOn' (by decide) with ⟨final', log', served'⟩
  refine ⟨⟨final, log, served, (whole final log served).mpr ?_⟩, final', log', served', ?_⟩
  · intro ready readyMem _
    simp only [readWhole, List.mem_cons, List.not_mem_nil, or_false] at readyMem
    rcases readyMem with rfl | rfl
    · exact ⟨_, rfl, by decide⟩
    · exact ⟨_, rfl, by decide⟩
  · intro exactly
    rcases (pieces final' log' served').mp exactly (sampleReady (.error .eagain))
      (by simp [readInPieces]) rfl with ⟨piece, ⟨⟩, _⟩

/-- A request which is read in two halves after a spurious wake-up is not forwarded, and
`err_res` is written three times. -/
theorem not_forwardsExactly_of_halves :
    (∀ ready ∈ [sampleReady (.error .eagain), sampleReady (.data (List.replicate 8 1)),
        sampleReady (.data (List.replicate 8 1))], ready.fd = 8 ∧ Arrives ready) ∧
      (received [.error .eagain, .data (List.replicate 8 (1 : Byte)),
        .data (List.replicate 8 1)]).flatten = [List.replicate 16 1].flatten ∧
      ∃ final log, serve sampleThread [sampleReady (.error .eagain),
          sampleReady (.data (List.replicate 8 1)), sampleReady (.data (List.replicate 8 1))] =
            .ok (final, log) ∧
        ¬ForwardsExactly {6} 8 [List.replicate 16 1] log := by
  refine ⟨?_, by decide, _, _, rfl, ?_⟩
  · intro ready readyMem
    simp only [List.mem_cons, List.not_mem_nil, or_false] at readyMem
    rcases readyMem with rfl | rfl | rfl
    · exact ⟨rfl, sampleReady_arrives (Or.inr rfl)⟩
    · exact ⟨rfl, sampleReady_arrives (Or.inl ⟨_, rfl, by decide, by decide⟩)⟩
    · exact ⟨rfl, sampleReady_arrives (Or.inl ⟨_, rfl, by decide, by decide⟩)⟩
  · rintro ⟨forwards, _⟩
    exact absurd forwards (by decide)

end LoadBalance.Distributor
