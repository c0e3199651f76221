import LoadBalance.Lib.PrefixCode
import LoadBalance.Grub.Capture
import LoadBalance.Grub.Messages

/-!
# The stream of replayed messages

The endless loop of `main` in `my_grub.c` around the loop over the messages of a frame.
`fd` is one connection for all frames and does not block. A `write` which finds no room
ends the frame, and one which takes a part of a message is treated like a complete one.
The messages of a frame are whole and correctly decoded here, so what counts is only what
`write` returns.
-/

namespace LoadBalance.Grub

/-- A frame of `n` bytes in the buffer which carries these messages, each decoded correctly. -/
structure Carries (memory : ℤ → Byte) (n : ℤ) (messages : List SomeIp) : Prop where
  held : Holds memory firstMessage (stream messages)
  bound : n = firstMessage + (stream messages).length
  fits : n ≤ bufferLen
  low : ∀ message ∈ messages, message.LowPositive

/-- What `recvfrom` has put into the buffer. The frames which the test lets through carry
messages. -/
structure Received where
  memory : ℤ → Byte
  n : ℤ
  messages : List SomeIp
  carries : Accepts memory → Carries memory n messages

/-- Where `main` is. -/
inductive Pc where
  | recvfrom
  /-- Before a `write` of the loop over the messages. -/
  | messages (memory : ℤ → Byte) (n : ℤ) (replay : Replay)
  | exited

structure Capture where
  pc : Pc
  /-- The bytes which `fd` has taken. -/
  fd : List Byte
  /-- The messages of the frames which have passed the test. -/
  captured : List SomeIp

inductive CaptureEvent where
  | recvfrom (received : Received)
  | write (ret : WriteResult)

/-- Where `main` is when the loop over the messages has come to this state. -/
def Pc.ofReplay (memory : ℤ → Byte) (n : ℤ) (replay : Replay) : Pc :=
  match replay.flow with
  | .running => if replay.cur < n then .messages memory n replay else .recvfrom
  | .again => .recvfrom
  | .exited => .exited

/-- What `write` may return: it takes no more than it is offered, and nothing at all if the
count, as a `size_t`, is that of a negative number. -/
def Returns (memory : ℤ → Byte) (replay : Replay) : WriteResult → Prop
  | .count writen => (writen : ℤ) ≤ headerLen + lengthInt memory replay.cur
  | .error _ => True

/-- What a `write` returns which does not tear a message. -/
def TakesWhole (memory : ℤ → Byte) (replay : Replay) : WriteResult → Prop
  | .count writen => writen = 0 ∨ (writen : ℤ) = headerLen + lengthInt memory replay.cur
  | .error _ => True

section Decidable

variable (memory : ℤ → Byte) (replay : Replay)

instance : ∀ ret, Decidable (Returns memory replay ret)
  | .count _ => inferInstanceAs (Decidable (_ ≤ _))
  | .error _ => inferInstanceAs (Decidable True)

instance : ∀ ret, Decidable (TakesWhole memory replay ret)
  | .count _ => inferInstanceAs (Decidable (_ ∨ _))
  | .error _ => inferInstanceAs (Decidable True)

end Decidable

/-- The bytes which `write` has taken. -/
def taken (memory : ℤ → Byte) (replay : Replay) : WriteResult → List Byte
  | .count writen => load memory replay.cur writen
  | .error _ => []

namespace Capture

def start : Capture where
  pc := .recvfrom
  fd := []
  captured := []

def step (state : Capture) : CaptureEvent → Option Capture
  | .recvfrom received =>
      match state.pc with
      | .recvfrom =>
          match walks received.memory received.n with
          | none => some state
          | some (first, last) =>
              some { state with
                pc := .ofReplay received.memory last { Replay.start with cur := first }
                captured := state.captured ++ received.messages }
      | .messages .. | .exited => none
  | .write ret =>
      match state.pc with
      | .messages memory n replay =>
          if Returns memory replay ret then
            (replay.step memory n ret).map fun next =>
              { state with
                pc := .ofReplay memory n next
                fd := state.fd ++ taken memory replay ret }
          else none
      | .recvfrom | .exited => none

/-- The stream consists of whole messages: captured ones in their order, some left out. -/
def Aligned (state : Capture) : Prop :=
  ∃ sent : List SomeIp, sent.Sublist state.captured ∧ state.fd = stream sent

/-- Every `write` takes the whole message, or nothing of it. -/
def WritesWhole (state : Capture) : CaptureEvent → Prop
  | .recvfrom _ => True
  | .write ret =>
      match state.pc with
      | .messages memory _ replay => TakesWhole memory replay ret
      | .recvfrom | .exited => True

instance : ∀ (state : Capture) (event : CaptureEvent), Decidable (state.WritesWhole event)
  | _, .recvfrom _ => inferInstanceAs (Decidable True)
  | ⟨.messages memory _ replay, _, _⟩, .write ret =>
      inferInstanceAs (Decidable (TakesWhole memory replay ret))
  | ⟨.recvfrom, _, _⟩, .write _ => inferInstanceAs (Decidable True)
  | ⟨.exited, _, _⟩, .write _ => inferInstanceAs (Decidable True)

end Capture

/-- The messages which the loop has not come to yet lie between its cursor and its bound. -/
structure Left (memory : ℤ → Byte) (n : ℤ) (replay : Replay) (rest : List SomeIp) : Prop where
  held : Holds memory replay.cur (stream rest)
  bound : n = replay.cur + (stream rest).length
  low : ∀ message ∈ rest, message.LowPositive
  small : ∀ message ∈ rest, message.bytes.length ≤ bufferLen
  running : replay.flow = .running

theorem Carries.left {memory : ℤ → Byte} {n : ℤ} {messages : List SomeIp}
    (carries : Carries memory n messages) : Left memory n .start messages where
  held := carries.held
  bound := carries.bound
  low := carries.low
  small := by
    intro message messageMem
    have inside := length_le_of_mem messageMem
    have bound := carries.bound
    have fits := carries.fits
    simp only [firstMessage] at bound
    omega
  running := rfl

namespace Left

variable {memory : ℤ → Byte} {n : ℤ} {replay : Replay} {rest : List SomeIp}

/-- Inside of the frame there is a next message, and the loop offers just that message. -/
theorem exists_message (left : Left memory n replay rest) (inside : replay.cur < n) :
    ∃ message later, rest = message :: later ∧ Holds memory replay.cur message.bytes ∧
      (message.bytes.length : ℤ) = headerLen + lengthInt memory replay.cur := by
  cases rest with
  | nil =>
      have bound := left.bound
      rw [show stream [] = [] from rfl, List.length_nil] at bound
      omega
  | cons message later =>
      have heldHere := (holds_append (stream_cons message later ▸ left.held)).1
      refine ⟨message, later, rfl, heldHere, ?_⟩
      have low := left.low message List.mem_cons_self
      have small := left.small message List.mem_cons_self
      rw [(message.lengthInt_eq_lengthField_iff heldHere small).mpr low, message.size]
      push_cast
      rfl

/-- Behind a message, the others are left. -/
theorem tail {message : SomeIp} {later : List SomeIp} {next : Replay}
    (left : Left memory n replay (message :: later))
    (moved : next.cur = replay.cur + message.bytes.length) (running : next.flow = .running) :
    Left memory n next later where
  held := by
    rw [moved]
    exact (holds_append (stream_cons message later ▸ left.held)).2
  bound := by
    have bound := left.bound
    rw [stream_cons, List.length_append] at bound
    push_cast at bound
    omega
  low other otherMem := left.low other (.tail _ otherMem)
  small other otherMem := left.small other (.tail _ otherMem)
  running := running

end Left

theorem load_eq_take {memory : ℤ → Byte} {offset : ℤ} {bytes : List Byte} {count : ℕ}
    (held : Holds memory offset bytes) (inside : count ≤ bytes.length) :
    load memory offset count = bytes.take count := by
  have size : (bytes.take count).length = count := List.length_take_of_le inside
  rw [← List.take_append_drop count bytes] at held
  have loaded := load_of_holds (holds_append held).1
  rwa [size] at loaded

/-- The length of a message lies within its first eight bytes. -/
theorem SomeIp.eq_of_prefix {first second : SomeIp} (started : first.bytes <+: second.bytes) :
    first.bytes = second.bytes := by
  have room := first.headerLen_le
  have same : ∀ index < headerLen, byteAt first.bytes index = byteAt second.bytes index := by
    intro index inside
    rcases started with ⟨more, equal⟩
    rw [byteAt, byteAt, ← equal, List.getD_eq_getElem?_getD, List.getD_eq_getElem?_getD,
      List.getElem?_append_left (by omega)]
  apply started.eq_of_length
  rw [first.size, second.size, lengthField, lengthField, same 6 (by decide), same 7 (by decide)]

theorem prefixFree_someIp :
    PrefixCode.PrefixFree fun bytes => ∃ message : SomeIp, message.bytes = bytes where
  ne_nil := by
    rintro word ⟨message, rfl⟩ empty
    have room := message.headerLen_le
    rw [empty] at room
    exact absurd room (by decide)
  eq_of_prefix := by
    rintro word other ⟨first, rfl⟩ ⟨second, rfl⟩ started
    exact SomeIp.eq_of_prefix started

theorem isWord_of_mem_map (messages : List SomeIp) :
    ∀ bytes ∈ messages.map SomeIp.bytes, ∃ message : SomeIp, message.bytes = bytes := by
  intro bytes bytesMem
  rcases List.mem_map.mp bytesMem with ⟨message, _, equal⟩
  exact ⟨message, equal⟩

theorem Pc.eq_of_ofReplay {memory memory' : ℤ → Byte} {n n' : ℤ} {replay replay' : Replay}
    (entered : Pc.ofReplay memory n replay = .messages memory' n' replay') :
    memory' = memory ∧ n' = n ∧ replay' = replay ∧ replay.cur < n ∧ replay.flow = .running := by
  cases flow : replay.flow with
  | running =>
      simp only [Pc.ofReplay, flow] at entered
      by_cases inside : replay.cur < n
      · rw [if_pos inside] at entered
        cases entered
        exact ⟨rfl, rfl, rfl, inside, rfl⟩
      · rw [if_neg inside] at entered
        cases entered
  | again =>
      simp only [Pc.ofReplay, flow] at entered
      cases entered
  | exited =>
      simp only [Pc.ofReplay, flow] at entered
      cases entered

namespace Capture

/-- Of the captured messages, the loop has passed some and sent a part of these. -/
structure Stands (state : Capture) (passed sent rest : List SomeIp) : Prop where
  captured : state.captured = passed ++ rest
  sublist : sent.Sublist passed
  fd : state.fd = stream sent
  left : ∀ {memory n replay}, state.pc = .messages memory n replay →
    replay.cur < n ∧ Left memory n replay rest

variable {state next : Capture} {passed sent rest : List SomeIp}

theorem Stands.aligned (stands : state.Stands passed sent rest) : state.Aligned := by
  refine ⟨sent, ?_, stands.fd⟩
  rw [stands.captured]
  exact stands.sublist.trans (List.sublist_append_left passed rest)

theorem Stands.recvfrom {received : Received} (stands : state.Stands passed sent rest)
    (stepped : state.step (.recvfrom received) = some next) :
    ∃ passed sent rest, next.Stands passed sent rest := by
  have waiting : state.pc = .recvfrom := by
    cases pc : state.pc <;> simp [step, pc] at stepped
    rfl
  by_cases accepts : Accepts received.memory
  · have entered : walks received.memory received.n = some (firstMessage, received.n) :=
      if_pos accepts
    simp only [step, waiting, entered, Option.some.injEq] at stepped
    subst stepped
    refine ⟨state.captured, sent, received.messages, rfl, ?_, stands.fd, ?_⟩
    · rw [stands.captured]
      exact stands.sublist.trans (List.sublist_append_left passed rest)
    · intro memory n replay pc
      dsimp only at pc
      rcases Pc.eq_of_ofReplay pc with ⟨rfl, rfl, rfl, inside, _⟩
      exact ⟨inside, (received.carries accepts).left⟩
  · have skipped : walks received.memory received.n = none := if_neg accepts
    simp only [step, waiting, skipped, Option.some.injEq] at stepped
    exact ⟨passed, sent, rest, stepped ▸ stands⟩

/-- A `write` of the loop: an error ends the loop, and any count moves on by one message. -/
theorem Stands.write_cases {ret : WriteResult} (stands : state.Stands passed sent rest)
    (stepped : state.step (.write ret) = some next) :
    ∃ memory n replay message later, state.pc = .messages memory n replay ∧
      rest = message :: later ∧
      (message.bytes.length : ℤ) = headerLen + lengthInt memory replay.cur ∧
      ((∃ errno, ret = .error errno ∧ next.fd = state.fd ∧ next.captured = state.captured ∧
          ∀ memory n replay, next.pc ≠ .messages memory n replay) ∨
        ∃ writen ≤ message.bytes.length, ret = .count writen ∧
          next.fd = state.fd ++ message.bytes.take writen ∧ next.captured = state.captured ∧
          ∀ {memory n replay}, next.pc = .messages memory n replay →
            replay.cur < n ∧ Left memory n replay later) := by
  cases pc : state.pc with
  | recvfrom => simp [step, pc] at stepped
  | exited => simp [step, pc] at stepped
  | messages memory n replay =>
      rcases stands.left pc with ⟨inside, left⟩
      rcases left.exists_message inside with ⟨message, later, rfl, held, size⟩
      refine ⟨memory, n, replay, message, later, rfl, rfl, size, ?_⟩
      simp only [step, pc] at stepped
      by_cases returns : Returns memory replay ret
      · rw [if_pos returns] at stepped
        rcases Option.map_eq_some_iff.mp stepped with ⟨moved, ran, rfl⟩
        cases ret with
        | error errno =>
            refine Or.inl ⟨errno, rfl, List.append_nil _, rfl, ?_⟩
            rw [Replay.step, if_pos ⟨left.running, inside⟩] at ran
            intro memory' n' replay' entered
            rcases Pc.eq_of_ofReplay entered with ⟨_, _, _, _, running⟩
            by_cases again : errno = .eagain
            · simp only [again, if_true, Option.some.injEq] at ran
              rw [← ran] at running
              cases running
            · simp only [again, if_false, Option.some.injEq] at ran
              rw [← ran] at running
              cases running
        | count writen =>
            rw [step_count left.running inside, Option.some.injEq] at ran
            have bound : writen ≤ message.bytes.length := by
              have bound : (writen : ℤ) ≤ headerLen + lengthInt memory replay.cur := returns
              omega
            refine Or.inr ⟨writen, bound, rfl, ?_, rfl, ?_⟩
            · exact congrArg _ (load_eq_take held bound)
            · intro memory' n' replay' entered
              rcases Pc.eq_of_ofReplay entered with ⟨rfl, rfl, rfl, further, running⟩
              refine ⟨further, left.tail ?_ running⟩
              rw [← ran, size]
      · rw [if_neg returns] at stepped
        cases stepped

theorem stream_append (first second : List SomeIp) :
    stream (first ++ second) = stream first ++ stream second := by
  simp [stream]

theorem Stands.write {ret : WriteResult} (stands : state.Stands passed sent rest)
    (writesWhole : state.WritesWhole (.write ret))
    (stepped : state.step (.write ret) = some next) :
    ∃ passed sent rest, next.Stands passed sent rest := by
  rcases stands.write_cases stepped with ⟨memory, n, replay, message, later, pc, rfl, size, outcome⟩
  rcases outcome with ⟨errno, rfl, fd, captured, ended⟩ | ⟨writen, bound, rfl, fd, captured, left⟩
  · refine ⟨passed, sent, message :: later, ?_, stands.sublist, ?_, ?_⟩
    · rw [captured, stands.captured]
    · rw [fd, stands.fd]
    · intro memory n replay entered
      exact absurd entered (ended memory n replay)
  · have captured' : next.captured = (passed ++ [message]) ++ later := by
      rw [captured, stands.captured, List.append_assoc, List.singleton_append]
    simp only [WritesWhole, pc] at writesWhole
    rcases writesWhole with rfl | whole
    · refine ⟨passed ++ [message], sent, later, captured', ?_, ?_, left⟩
      · exact stands.sublist.trans (List.sublist_append_left passed [message])
      · rw [fd, stands.fd, List.take_zero, List.append_nil]
    · have all : writen = message.bytes.length := by omega
      refine ⟨passed ++ [message], sent ++ [message], later, captured', ?_, ?_, left⟩
      · exact stands.sublist.append_right [message]
      · rw [fd, stands.fd, all, List.take_length, stream_append, stream_cons]
        simp [stream]

/-- The writes which do not meet the condition leave a piece of a message in the stream. -/
theorem Stands.not_aligned {event : CaptureEvent} (stands : state.Stands passed sent rest)
    (torn : ¬state.WritesWhole event) (stepped : state.step event = some next) :
    ¬next.Aligned := by
  cases event with
  | recvfrom received => exact absurd trivial torn
  | write ret =>
      rcases stands.write_cases stepped with ⟨memory, n, replay, message, later, pc, rfl, size,
        outcome⟩
      rcases outcome with ⟨errno, rfl, _⟩ | ⟨writen, bound, rfl, fd, _⟩
      · simp [WritesWhole, TakesWhole, pc] at torn
      · simp only [WritesWhole, TakesWhole, pc, not_or] at torn
        have short : writen < message.bytes.length := by omega
        have size : (message.bytes.take writen).length = writen := List.length_take_of_le bound
        rintro ⟨cut, _, sameStream⟩
        rw [fd, stands.fd] at sameStream
        apply prefixFree_someIp.not_flatten_of_piece (isWord_of_mem_map sent) ⟨message, rfl⟩
          (List.take_prefix writen message.bytes) _ _ (isWord_of_mem_map cut) sameStream
        · intro empty
          rw [empty, List.length_nil] at size
          exact torn.1 size.symm
        · rwa [size]

theorem stands_start : start.Stands [] [] [] where
  captured := rfl
  sublist := List.Sublist.refl []
  fd := rfl
  left := nofun

theorem exists_stands_of_run {events : List CaptureEvent}
    (guarded : Machine.RunsUnder step WritesWhole start events state) :
    ∃ passed sent rest, state.Stands passed sent rest := by
  apply guarded.invariant (fun state => ∃ passed sent rest, state.Stands passed sent rest)
  · rintro state event next ⟨passed, sent, rest, stands⟩ writesWhole stepped
    cases event with
    | recvfrom received => exact stands.recvfrom stepped
    | write ret => exact stands.write writesWhole stepped
  · exact ⟨[], [], [], stands_start⟩

/--
In every run in which each `write` takes a whole message or nothing of it, whatever frames
are captured and wherever it runs out of room, the stream is one of whole messages, each
captured one in it completely or not at all. A write which takes a part of a message ends this.
-/
theorem aligned_of_writesWhole {events : List CaptureEvent}
    (guarded : Machine.RunsUnder step WritesWhole start events state) :
    state.Aligned ∧
      ∀ event next, ¬state.WritesWhole event → state.step event = some next →
        ¬next.Aligned := by
  rcases exists_stands_of_run guarded with ⟨passed, sent, rest, stands⟩
  exact ⟨stands.aligned, fun _ _ torn stepped => stands.not_aligned torn stepped⟩

/-- A segment with two messages, of 16 and of 8 bytes. -/
def twoMessages : Received where
  memory offset :=
    if offset < firstMessage then sampleFrame 6 5 64 offset
    else memoryOf [zeroMessage 0 8, zeroMessage 0 0] offset
  n := 78
  messages := [zeroMessage 0 8, zeroMessage 0 0]
  carries _ := {
    held := by
      intro index byte found
      have behind : ¬firstMessage + (index : ℤ) < firstMessage := by omega
      exact (if_neg behind).trans (holds_memoryOf _ index byte found)
    bound := by decide
    fits := by decide
    low := by decide }

/-- There is no room for the second message, and when it comes again there is. -/
def pressed : List CaptureEvent :=
  [.recvfrom twoMessages, .write (.count 16), .write (.error .eagain), .recvfrom twoMessages,
    .write (.count 0), .write (.count 8)]

theorem aligned_of_writesWhole_sample :
    ∃ state, Machine.RunsUnder step WritesWhole start pressed state ∧
      state.fd = stream [zeroMessage 0 8, zeroMessage 0 0] ∧ state.Aligned := by
  rcases @Machine.RunsUnder.exists_of_any _ _ step WritesWhole _ start pressed
      (fun state => state.fd = stream [zeroMessage 0 8, zeroMessage 0 0])
      (by decide +kernel) with ⟨state, guarded, sent⟩
  exact ⟨state, guarded, of_decide_eq_true sent, (aligned_of_writesWhole guarded).1⟩

/-- The connection takes 10 bytes of the first message. -/
theorem not_aligned_of_partial_write :
    ∃ state, Machine.run step start [.recvfrom twoMessages, .write (.count 10)] = some state ∧
      state.fd = (zeroMessage 0 8).bytes.take 10 ∧ ¬state.Aligned := by
  rcases @Machine.RunsUnder.exists_of_any _ _ step WritesWhole _ start [.recvfrom twoMessages]
      (fun state => ¬state.WritesWhole (.write (.count 10)) ∧
        ((state.step (.write (.count 10))).any fun next =>
          next.fd = (zeroMessage 0 8).bytes.take 10) = true)
      (by decide +kernel) with ⟨state, guarded, shown⟩
  rcases of_decide_eq_true shown with ⟨torn, possible⟩
  rcases exists_stands_of_run guarded with ⟨passed, sent, rest, stands⟩
  rcases (Option.any_eq_true_iff_get _ _).mp possible with ⟨isSome, fd⟩
  have stepped := (Option.some_get isSome).symm
  refine ⟨_, Machine.run_concat_eq_some.mpr ⟨state, guarded.run, stepped⟩, ?_, ?_⟩
  · exact of_decide_eq_true fd
  · exact stands.not_aligned torn stepped

end Capture

end LoadBalance.Grub
