import LoadBalance.Grub.Replay

/-!
# Well-formed traffic

A frame which is a list of SOME/IP messages laid back to back. The length of a message
is an unsigned number of two bytes, of which the loop reads the low one with a sign. So
it goes through the messages one by one exactly as long as the low length bytes are
below 128, and the first one which is not throws it off.
-/

namespace LoadBalance.Grub

def byteAt (message : List Byte) (index : ℕ) : Byte := message.getD index 0

/-- The number in bytes 6 and 7 of a message. -/
def lengthField (message : List Byte) : ℕ :=
  (byteAt message 6).toNat * 256 + (byteAt message 7).toNat

/-- A message whose length field counts the bytes behind it. -/
structure SomeIp where
  bytes : List Byte
  high : bytes[4]? = some 0 ∧ bytes[5]? = some 0
  size : bytes.length = headerLen + lengthField bytes

/-- The low byte of the length, as the loop finds it, is not negative. -/
def SomeIp.LowPositive (message : SomeIp) : Prop := (byteAt message.bytes 7).toNat < 128

instance (message : SomeIp) : Decidable message.LowPositive :=
  inferInstanceAs (Decidable (_ < _))

/-- The messages, laid back to back. -/
def stream (messages : List SomeIp) : List Byte := (messages.map SomeIp.bytes).flatten

/-- Every `write` takes all bytes which it is offered. -/
def TakesAll (memory : ℤ → Byte) (replay : Replay) (ret : WriteResult) : Prop :=
  ∃ writen : ℕ, ret = .count writen ∧ (writen : ℤ) = headerLen + lengthInt memory replay.cur

/-- With a `fd` which takes everything, the loop writes the messages one by one, and it
stops at the end of the frame. -/
def Splits (memory : ℤ → Byte) (n : ℤ) (messages : List SomeIp) : Prop :=
  ∃ rets final, Machine.RunsUnder (Replay.step memory n) (TakesAll memory) .start rets final ∧
    final.writes.map (Write.data memory) = messages.map SomeIp.bytes ∧
    final.cur = n ∧ final.flow = .running

theorem stream_cons (message : SomeIp) (messages : List SomeIp) :
    stream (message :: messages) = message.bytes ++ stream messages := rfl

namespace SomeIp

variable {memory : ℤ → Byte} {cur : ℤ} {message : SomeIp}

theorem headerLen_le (message : SomeIp) : headerLen ≤ message.bytes.length := by
  rw [message.size]
  exact Nat.le_add_right _ _

/-- What the loop computes for a message is off by 256 for each byte it takes as negative. -/
theorem lengthInt_eq (held : Holds memory cur message.bytes) :
    lengthInt memory cur =
      (byteAt message.bytes 6).toInt * 2 ^ 8 + (byteAt message.bytes 7).toInt := by
  have room := message.headerLen_le
  have found : ∀ index < headerLen, memory (cur + index) = byteAt message.bytes index := by
    intro index inside
    apply held
    rw [byteAt, List.getD_eq_getElem?_getD, List.getElem?_eq_getElem (by omega)]
    rfl
  have first := found 6 (by decide)
  have second := found 7 (by decide)
  push_cast at first second
  rw [lengthInt, first, second]

/-- The loop gets the length right exactly if it takes the low byte as it is meant, for a
message which fits into the buffer. -/
theorem lengthInt_eq_lengthField_iff (held : Holds memory cur message.bytes)
    (small : message.bytes.length ≤ bufferLen) :
    lengthInt memory cur = lengthField message.bytes ↔ message.LowPositive := by
  have size := message.size
  have firstLt := (byteAt message.bytes 6).isLt
  have secondLt := (byteAt message.bytes 7).isLt
  rw [message.lengthInt_eq held, LowPositive, BitVec.toInt_eq_toNat_cond,
    BitVec.toInt_eq_toNat_cond]
  simp only [lengthField, headerLen, bufferLen] at size small ⊢
  split
  · split
    · push_cast
      omega
    · push_cast
      omega
  · omega

end SomeIp

section Runs

variable {memory : ℤ → Byte} {n : ℤ}

theorem step_count {replay : Replay} (running : replay.flow = .running) (inside : replay.cur < n)
    (writen : ℕ) :
    replay.step memory n (.count writen) =
      some ⟨replay.cur + (headerLen + lengthInt memory replay.cur),
        replay.writes ++ [⟨replay.cur, headerLen + lengthInt memory replay.cur, .count writen⟩],
        .running⟩ := by
  rw [Replay.step, if_pos ⟨running, inside⟩]

theorem eq_of_step_takesAll {replay next : Replay} {ret : WriteResult}
    (takes : TakesAll memory replay ret) (stepped : replay.step memory n ret = some next) :
    ∃ count : ℕ, (count : ℤ) = headerLen + lengthInt memory replay.cur ∧
      next = ⟨replay.cur + count, replay.writes ++ [⟨replay.cur, count, ret⟩], .running⟩ := by
  rcases takes with ⟨count, rfl, whole⟩
  have possible : replay.flow = .running ∧ replay.cur < n := by
    by_contra impossible
    rw [Replay.step, if_neg impossible] at stepped
    cases stepped
  rw [step_count possible.1 possible.2, ← whole] at stepped
  exact ⟨count, whole, (Option.some.inj stepped).symm⟩

theorem writes_grow {start final : Replay} {rets : List WriteResult}
    (guarded : Machine.RunsUnder (Replay.step memory n) (TakesAll memory) start rets final) :
    start.writes <+: final.writes := by
  induction guarded with
  | nil state => exact List.prefix_rfl
  | cons permitted stepped _ ih =>
      rcases eq_of_step_takesAll permitted stepped with ⟨count, _, rfl⟩
      exact (List.prefix_append _ _).trans ih

theorem exists_run_of_lowPositive {messages : List SomeIp}
    (low : ∀ message ∈ messages, message.LowPositive)
    (small : ∀ message ∈ messages, message.bytes.length ≤ bufferLen) {replay : Replay}
    (running : replay.flow = .running) (held : Holds memory replay.cur (stream messages))
    (bound : n = replay.cur + (stream messages).length) :
    ∃ rets final, Machine.RunsUnder (Replay.step memory n) (TakesAll memory) replay rets final ∧
      final.writes.map (Write.data memory) =
        replay.writes.map (Write.data memory) ++ messages.map SomeIp.bytes ∧
      final.cur = n ∧ final.flow = .running := by
  induction messages generalizing replay with
  | nil =>
      refine ⟨[], replay, .nil replay, ?_, ?_, running⟩
      · simp
      · rw [bound]
        exact (add_zero replay.cur).symm
  | cons message messages ih =>
      simp only [List.forall_mem_cons] at low small
      rw [stream_cons] at held bound
      rw [List.length_append, Nat.cast_add] at bound
      have heldHere := (holds_append held).1
      have whole : (message.bytes.length : ℤ) = headerLen + lengthInt memory replay.cur := by
        rw [(message.lengthInt_eq_lengthField_iff heldHere small.1).mpr low.1, message.size]
        push_cast
        rfl
      have room := message.headerLen_le
      have inside : replay.cur < n := by
        simp only [headerLen] at room
        omega
      have stepped := @step_count memory n replay running inside message.bytes.length
      rw [← whole] at stepped
      have rest := (holds_append held).2
      rcases @ih low.2 small.2 ⟨_, _, .running⟩ rfl rest (by rw [bound, add_assoc]) with
        ⟨rets, final, ran, written, atEnd, stillRunning⟩
      refine ⟨_, final, .cons ⟨_, rfl, whole⟩ stepped ran, ?_, atEnd, stillRunning⟩
      rw [written, List.map_append, List.append_assoc]
      simp [Write.data, load_of_holds heldHere]

theorem lowPositive_of_run {messages : List SomeIp}
    (small : ∀ message ∈ messages, message.bytes.length ≤ bufferLen) {replay final : Replay}
    {rets : List WriteResult} (held : Holds memory replay.cur (stream messages))
    (guarded : Machine.RunsUnder (Replay.step memory n) (TakesAll memory) replay rets final)
    (written : final.writes.map (Write.data memory) =
      replay.writes.map (Write.data memory) ++ messages.map SomeIp.bytes) :
    ∀ message ∈ messages, message.LowPositive := by
  induction messages generalizing replay rets with
  | nil => simp
  | cons message messages ih =>
      rw [stream_cons] at held
      simp only [List.forall_mem_cons] at small ⊢
      have heldHere := (holds_append held).1
      cases guarded with
      | nil =>
          have lengths := congrArg List.length written
          simp at lengths
      | cons permitted stepped rest =>
          rcases eq_of_step_takesAll permitted stepped with ⟨count, whole, rfl⟩
          rcases writes_grow rest with ⟨later, grown⟩
          have pieces : load memory replay.cur count :: later.map (Write.data memory) =
              message.bytes :: messages.map SomeIp.bytes := by
            rw [← grown] at written
            simpa [Write.data] using written
          have size : count = message.bytes.length := by
            have first := congrArg List.length (List.cons.inj pieces).1
            rwa [length_load] at first
          have right : message.LowPositive := by
            rw [← message.lengthInt_eq_lengthField_iff heldHere small.1]
            have counted := message.size
            push_cast [size, counted] at whole
            omega
          refine ⟨right, ih small.2 ?_ rest ?_⟩
          · rw [size]
            exact (holds_append held).2
          · rw [← grown, List.map_append, List.map_append]
            simp only [List.append_assoc, List.append_cancel_left_eq]
            simpa [Write.data] using (List.cons.inj pieces).2

end Runs

theorem length_le_of_mem {messages : List SomeIp} {message : SomeIp}
    (messageMem : message ∈ messages) : message.bytes.length ≤ (stream messages).length := by
  have bytesMem : message.bytes ∈ messages.map SomeIp.bytes := List.mem_map_of_mem messageMem
  exact (List.sublist_flatten_of_mem bytesMem).length_le

/--
For every list of messages which fits into the buffer, the loop splits it correctly if
and only if the low length byte of every message is below 128.
-/
theorem splits_iff_lowPositive (memory : ℤ → Byte) (n : ℤ) (messages : List SomeIp)
    (fits : firstMessage + (stream messages).length ≤ bufferLen)
    (held : Holds memory firstMessage (stream messages))
    (bound : n = firstMessage + (stream messages).length) :
    Splits memory n messages ↔ ∀ message ∈ messages, message.LowPositive := by
  have small : ∀ message ∈ messages, message.bytes.length ≤ bufferLen := by
    intro message messageMem
    have inside := length_le_of_mem messageMem
    simp only [firstMessage] at fits
    omega
  constructor
  · rintro ⟨rets, final, guarded, written, _⟩
    exact lowPositive_of_run small held guarded (by simpa [Replay.start] using written)
  · intro low
    rcases @exists_run_of_lowPositive memory n messages low small .start rfl held bound with
      ⟨rets, final, guarded, written, atEnd, running⟩
    refine ⟨rets, final, guarded, ?_, atEnd, running⟩
    simpa [Replay.start] using written

/-- A message of the given size which is zero behind its length. -/
def zeroMessage (high low : Byte) : SomeIp where
  bytes := [0, 0, 0, 0, 0, 0, high, low] ++
    List.replicate (high.toNat * 256 + low.toNat) 0
  high := ⟨rfl, rfl⟩
  size := by
    rw [List.length_append, List.length_replicate]
    rfl

/-- A memory which holds the given messages behind the headers, and zeros elsewhere. -/
def memoryOf (messages : List SomeIp) (offset : ℤ) : Byte :=
  if offset < firstMessage then 0 else byteAt (stream messages) (offset - firstMessage).toNat

theorem holds_memoryOf (messages : List SomeIp) :
    Holds (memoryOf messages) firstMessage (stream messages) := by
  intro index byte found
  have behind : ¬firstMessage + (index : ℤ) < firstMessage := by omega
  rw [memoryOf, if_neg behind, add_sub_cancel_left, Int.toNat_natCast, byteAt,
    List.getD_eq_getElem?_getD, found]
  rfl

theorem splits_iff_lowPositive_sample :
    Splits (memoryOf [zeroMessage 1 2, zeroMessage 0 0])
        (firstMessage + (stream [zeroMessage 1 2, zeroMessage 0 0]).length)
        [zeroMessage 1 2, zeroMessage 0 0] ↔
      ∀ message ∈ [zeroMessage 1 2, zeroMessage 0 0], message.LowPositive :=
  splits_iff_lowPositive _ _ _ (by decide +kernel) (holds_memoryOf _) rfl

/-- A message of 208 bytes, whose length field is 200, is taken for one of -48 bytes. -/
theorem not_splits_of_length_200 :
    lengthField (zeroMessage 0 200).bytes = 200 ∧
      firstMessage + (stream [zeroMessage 0 200]).length ≤ bufferLen ∧
      Holds (memoryOf [zeroMessage 0 200]) firstMessage (stream [zeroMessage 0 200]) ∧
      headerLen + lengthInt (memoryOf [zeroMessage 0 200]) firstMessage = -48 ∧
      ¬Splits (memoryOf [zeroMessage 0 200]) (firstMessage + (stream [zeroMessage 0 200]).length)
        [zeroMessage 0 200] := by
  have first : lengthInt (memoryOf [zeroMessage 0 200]) firstMessage = -56 := by decide +kernel
  refine ⟨by decide +kernel, by decide +kernel, holds_memoryOf _, ?_, ?_⟩
  · rw [first]
    decide
  · rintro ⟨rets, final, guarded, written, _⟩
    cases guarded with
    | nil => cases written
    | cons permitted _ _ =>
        rcases permitted with ⟨writen, _, whole⟩
        have start : Replay.start.cur = firstMessage := rfl
        rw [start, first] at whole
        simp only [headerLen] at whole
        omega

end LoadBalance.Grub
