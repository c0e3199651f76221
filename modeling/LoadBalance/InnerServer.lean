import LoadBalance.Lib.Blocks
import LoadBalance.Message

/-!
# The inner server

The loop of `threadFunc` in `inner_server.cc`, which reads messages from the connection
to the distributor, works on each and writes it back. A read which is neither an error
nor the end of the stream nor 20 bytes long is dropped without a trace, so the loop
answers a stream exactly if the transport hands over every message in one read.
-/

universe u

namespace LoadBalance.InnerServer

/-- What the loop does with a message: the call of `do_something`, and the write on
`do_work_fd`, whose result it ignores. -/
inductive Action (α : Type u) where
  | doSomething
  | write (data : List α)
deriving DecidableEq

variable {α : Type u}

/-- One iteration of the loop, for the result of its `read`. -/
def loopBody (mess : Message α) : ReadResult α → Except Halt (Message α × List (Action α))
  | .error _ => .error (.exit "do_work_fd read!")
  | .data bytes =>
      if bytes = [] then .error (.exit "distributor closed")
      else
        let mess := mess.store 0 bytes
        if bytes.length = messLen then .ok (mess, [.doSomething, .write mess.bytes])
        else .ok (mess, [])

/-- The loop over the results of its reads, with all actions in order. -/
def serve (mess : Message α) : List (ReadResult α) → Except Halt (Message α × List (Action α))
  | [] => .ok (mess, [])
  | readn :: reads =>
      match loopBody mess readn with
      | .error halt => .error halt
      | .ok (next, actions) =>
          match serve next reads with
          | .error halt => .error halt
          | .ok (final, later) => .ok (final, actions ++ later)

def executions (actions : List (Action α)) : ℕ :=
  actions.countP fun action => match action with
    | .doSomething => true
    | .write _ => false

def echoes (actions : List (Action α)) : List (List α) :=
  actions.filterMap fun action => match action with
    | .doSomething => none
    | .write data => some data

theorem loopBody_whole (mess : Message α) {bytes : List α} (whole : bytes.length = messLen) :
    loopBody mess (.data bytes) =
      .ok (mess.store 0 bytes, [.doSomething, .write bytes]) := by
  have nonempty : bytes ≠ [] := by
    rintro rfl
    simp [messLen] at whole
  simp [loopBody, nonempty, whole, mess.bytes_store_whole whole]

theorem loopBody_short (mess : Message α) {bytes : List α} (nonempty : bytes ≠ [])
    (short : bytes.length ≠ messLen) :
    loopBody mess (.data bytes) = .ok (mess.store 0 bytes, []) := by
  simp [loopBody, nonempty, short]

/-- The reads of whole messages, each executed and echoed, are all the loop answers. -/
theorem serve_data (mess : Message α) {pieces : List (List α)}
    (nonempty : ∀ piece ∈ pieces, piece ≠ []) :
    ∃ final, serve mess (pieces.map .data) =
      .ok (final, (pieces.filter fun piece => piece.length = messLen).flatMap fun piece =>
        [.doSomething, .write piece]) := by
  induction pieces generalizing mess with
  | nil => exact ⟨mess, rfl⟩
  | cons piece pieces ih =>
      simp only [List.forall_mem_cons] at nonempty
      rcases ih (mess.store 0 piece) nonempty.2 with ⟨final, served⟩
      refine ⟨final, ?_⟩
      by_cases whole : piece.length = messLen
      · simp [serve, loopBody_whole mess whole, served, whole]
      · simp [serve, loopBody_short mess nonempty.1 whole, served, whole]

@[simp]
theorem executions_flatMap (pieces : List (List α)) :
    executions (pieces.flatMap fun piece => [.doSomething, .write piece]) = pieces.length := by
  induction pieces with
  | nil => rfl
  | cons piece pieces ih =>
      simp only [executions] at ih
      simp [executions, ih]

@[simp]
theorem echoes_flatMap (pieces : List (List α)) :
    echoes (pieces.flatMap fun piece => [.doSomething, .write piece]) = pieces := by
  induction pieces with
  | nil => rfl
  | cons piece pieces ih =>
      simp only [echoes] at ih
      simp [echoes, ih]

/-- The loop answered exactly the given messages: `do_something` ran once for each, and
they were written back unchanged and in order. -/
def Answers (messages : List (Message α)) (actions : List (Action α)) : Prop :=
  executions actions = messages.length ∧ echoes actions = messages.map Message.bytes

/--
For every cut of a stream of messages into nonempty reads of at most 20 bytes, the loop
goes through, and it answers exactly these messages if and only if every read is whole.
-/
theorem answers_iff_reads_whole (mess : Message Byte) (messages : List (Message Byte))
    (pieces : List (List Byte))
    (bounds : ∀ piece ∈ pieces, 1 ≤ piece.length ∧ piece.length ≤ messLen)
    (sameStream : pieces.flatten = (messages.map Message.bytes).flatten) :
    ∃ final actions, serve mess (pieces.map .data) = .ok (final, actions) ∧
      (Answers messages actions ↔ ∀ piece ∈ pieces, piece.length = messLen) := by
  have nonempty : ∀ piece ∈ pieces, piece ≠ [] := by
    rintro piece pieceMem rfl
    simpa using (bounds [] pieceMem).1
  have positive : ∀ piece ∈ pieces, 0 < piece.length :=
    fun piece pieceMem => (bounds piece pieceMem).1
  have blocks : ∀ block ∈ messages.map Message.bytes, block.length = messLen := by
    intro block blockMem
    rcases List.mem_map.mp blockMem with ⟨message, _, rfl⟩
    exact message.length_bytes
  have counted := Blocks.forall_length_eq_iff_countP (by decide : 0 < messLen) positive blocks
    sameStream
  rcases serve_data mess nonempty with ⟨final, served⟩
  refine ⟨final, _, served, ?_⟩
  simp only [Answers, executions_flatMap, echoes_flatMap]
  constructor
  · rintro ⟨often, _⟩
    rw [counted, List.countP_eq_length_filter, often, List.length_map]
  · intro whole
    have pieceBlocks := Blocks.eq_of_flatten_eq (by decide : 0 < messLen) whole blocks sameStream
    have kept : (pieces.filter fun piece => piece.length = messLen) = pieces := by
      simpa [List.filter_eq_self] using whole
    rw [kept, pieceBlocks]
    exact ⟨List.length_map _, rfl⟩

/-- Two messages, for the clients on the descriptors 8 and 9. -/
def sampleMessages : List (Message Byte) :=
  [⟨fdBytes 8 ++ List.replicate normalLen 1, rfl⟩, ⟨fdBytes 9 ++ List.replicate normalLen 2, rfl⟩]

/-- The stream of the two messages in three pieces, the second of which is 20 bytes long. -/
def samplePieces : List (List Byte) :=
  let stream := (sampleMessages.map Message.bytes).flatten
  [stream.take 12, (stream.drop 12).take 20, stream.drop 32]

/-- Read whole, both messages are answered. Read in the three pieces, they are not. -/
theorem answers_iff_reads_whole_sample :
    (∃ final actions,
      serve Message.zero ((sampleMessages.map Message.bytes).map .data) = .ok (final, actions) ∧
        Answers sampleMessages actions) ∧
    ∃ final actions, serve Message.zero (samplePieces.map .data) = .ok (final, actions) ∧
      ¬Answers sampleMessages actions := by
  rcases answers_iff_reads_whole Message.zero sampleMessages (sampleMessages.map Message.bytes)
    (by decide) rfl with ⟨final, actions, served, whole⟩
  rcases answers_iff_reads_whole Message.zero sampleMessages samplePieces (by decide)
    (by decide) with ⟨final', actions', served', pieces⟩
  exact ⟨⟨final, actions, served, whole.mpr (by decide)⟩, final', actions', served',
    fun answered => absurd (pieces.mp answered) (by decide)⟩

/-- A message which arrives in two halves is neither worked on nor written back. -/
theorem not_answers_of_two_halves :
    (∀ piece ∈ [List.replicate 10 (0 : Byte), List.replicate 10 0],
        1 ≤ piece.length ∧ piece.length ≤ messLen) ∧
      [List.replicate 10 (0 : Byte), List.replicate 10 0].flatten =
        ([(Message.zero : Message Byte)].map Message.bytes).flatten ∧
      ∃ final actions,
        serve Message.zero ([List.replicate 10 (0 : Byte), List.replicate 10 0].map .data) =
          .ok (final, actions) ∧
        ¬Answers [(Message.zero : Message Byte)] actions := by
  refine ⟨by decide, by decide, (Message.zero.store 0 _).store 0 _, [], rfl, ?_⟩
  intro answered
  exact absurd answered.1 (by decide)

end LoadBalance.InnerServer
