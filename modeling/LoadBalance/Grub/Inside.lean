import LoadBalance.Grub.Alignment

/-!
# What the loop over the messages touches

The buffer holds a frame of `n` bytes, and behind it what earlier frames have left. The
loop compares only the start of a message with the end of the frame. How far a message
goes is read from the frame, also where the bytes of its length lie behind it.
-/

namespace LoadBalance.Grub

/-- The offsets which the loop reads for the message at `cur`: of the bytes of the length, and
of those it prints. -/
def Reads (memory : ℤ → Byte) (cur offset : ℤ) : Prop :=
  offset = cur + 6 ∨ offset = cur + 7 ∨
    ∃ i : ℤ, 0 ≤ i ∧ i < headerLen + lengthInt memory cur ∧ offset = cur + i

/-- What is passed to `write` is a piece of the frame behind its headers. -/
structure Write.Inside (write : Write) (n : ℤ) : Prop where
  start : firstMessage ≤ write.offset
  nonneg : 0 ≤ write.count
  stop : write.offset + write.count ≤ n

/-- Whatever `write` returns, as long as it may, the loop over a frame of `n` bytes reads and
writes this frame only. -/
def StaysInside (memory : ℤ → Byte) (n : ℤ) : Prop :=
  ∀ rets replay, Machine.RunsUnder (Replay.step memory n) (Returns memory) .start rets replay →
    (∀ write ∈ replay.writes, write.Inside n) ∧
      (replay.flow = .running → replay.cur < n →
        ∀ offset, Reads memory replay.cur offset → firstMessage ≤ offset ∧ offset < n)

/-- From `cur` on, the frame is cut into messages by their decoded lengths, each with a whole
header in it. Behind a message of length zero the loop does not come. -/
inductive Tiles (memory : ℤ → Byte) (n : ℤ) : ℤ → Prop where
  | behind {cur : ℤ} (atBound : n ≤ cur) : Tiles memory n cur
  | empty {cur : ℤ} (header : cur + headerLen ≤ n)
      (zero : headerLen + lengthInt memory cur = 0) : Tiles memory n cur
  | message {cur : ℤ} (header : cur + headerLen ≤ n)
      (positive : 0 < headerLen + lengthInt memory cur)
      (fits : cur + (headerLen + lengthInt memory cur) ≤ n)
      (rest : Tiles memory n (cur + (headerLen + lengthInt memory cur))) : Tiles memory n cur

variable {memory : ℤ → Byte} {n cur : ℤ}

namespace Tiles

theorem header (tiles : Tiles memory n cur) (inside : cur < n) : cur + headerLen ≤ n := by
  cases tiles with
  | behind atBound => omega
  | empty header _ => exact header
  | message header _ _ _ => exact header

theorem nonneg (tiles : Tiles memory n cur) (inside : cur < n) :
    0 ≤ headerLen + lengthInt memory cur := by
  cases tiles with
  | behind atBound => omega
  | empty _ zero => exact zero.ge
  | message _ positive _ _ => exact positive.le

theorem fits (tiles : Tiles memory n cur) (inside : cur < n) :
    cur + (headerLen + lengthInt memory cur) ≤ n := by
  cases tiles with
  | behind atBound => omega
  | empty _ zero => omega
  | message _ _ fits _ => exact fits

theorem next (tiles : Tiles memory n cur) (inside : cur < n) :
    Tiles memory n (cur + (headerLen + lengthInt memory cur)) := by
  cases tiles with
  | behind atBound => omega
  | empty header zero =>
      rw [zero, add_zero]
      exact .empty header zero
  | message _ _ _ rest => exact rest

theorem reads_inside (tiles : Tiles memory n cur) (inside : cur < n) (start : firstMessage ≤ cur)
    {offset : ℤ} (read : Reads memory cur offset) : firstMessage ≤ offset ∧ offset < n := by
  have header := tiles.header inside
  have fits := tiles.fits inside
  simp only [headerLen] at header
  rcases read with rfl | rfl | ⟨i, nonneg, before, rfl⟩
  · constructor
    · omega
    · omega
  · constructor
    · omega
    · omega
  · constructor
    · omega
    · omega

end Tiles

/-- What one iteration does, whatever `write` returns. -/
theorem step_cases {replay next : Replay} {ret : WriteResult}
    (stepped : replay.step memory n ret = some next) :
    (replay.flow = .running ∧ replay.cur < n) ∧
      next.writes =
        replay.writes ++ [⟨replay.cur, headerLen + lengthInt memory replay.cur, ret⟩] ∧
      (next.flow = .running →
        next.cur = replay.cur + (headerLen + lengthInt memory replay.cur)) := by
  have possible : replay.flow = .running ∧ replay.cur < n := by
    by_contra impossible
    rw [Replay.step, if_neg impossible] at stepped
    cases stepped
  rw [Replay.step, if_pos possible] at stepped
  refine ⟨possible, ?_⟩
  cases ret with
  | count writen =>
      simp only [Option.some.injEq] at stepped
      subst stepped
      exact ⟨rfl, fun _ => rfl⟩
  | error errno =>
      simp only at stepped
      split at stepped
      · cases stepped
        exact ⟨rfl, by simp⟩
      · cases stepped
        exact ⟨rfl, by simp⟩

/-- What holds of the loop over a frame which is cut into messages. -/
structure Replay.OnTiles (memory : ℤ → Byte) (n : ℤ) (replay : Replay) : Prop where
  written : ∀ write ∈ replay.writes, write.Inside n
  start : replay.flow = .running → firstMessage ≤ replay.cur
  tiles : replay.flow = .running → Tiles memory n replay.cur

theorem Replay.OnTiles.step {replay next : Replay} {ret : WriteResult}
    (on : replay.OnTiles memory n) (stepped : replay.step memory n ret = some next) :
    next.OnTiles memory n := by
  rcases step_cases stepped with ⟨⟨running, inside⟩, writes, moved⟩
  have start := on.start running
  have tiles := on.tiles running
  have nonneg := tiles.nonneg inside
  have fits := tiles.fits inside
  constructor
  · intro write writeMem
    rw [writes, List.mem_append, List.mem_singleton] at writeMem
    rcases writeMem with before | rfl
    · exact on.written write before
    · exact ⟨start, nonneg, fits⟩
  · intro goesOn
    rw [moved goesOn]
    omega
  · intro goesOn
    rw [moved goesOn]
    exact tiles.next inside

theorem staysInside_of_tiles (tiles : Tiles memory n firstMessage) : StaysInside memory n := by
  intro rets replay guarded
  have on : replay.OnTiles memory n := by
    apply guarded.invariant (Replay.OnTiles memory n)
    · intro _ _ _ on _ stepped
      exact on.step stepped
    · exact ⟨nofun, fun _ => le_rfl, fun _ => tiles⟩
  refine ⟨on.written, ?_⟩
  intro running inside offset read
  exact (on.tiles running).reads_inside inside (on.start running) read

/-- Where the loop comes to with a `write` which takes everything, there the frame is cut into
messages: the measure is what is left of it. -/
theorem tiles_of_staysInside (inside : StaysInside memory n) {rets : List WriteResult}
    {replay : Replay}
    (guarded : Machine.RunsUnder (Replay.step memory n) (Returns memory) .start rets replay)
    (running : replay.flow = .running) : Tiles memory n replay.cur := by
  induction left : (n - replay.cur).toNat using Nat.strong_induction_on
    generalizing rets replay with
  | h left ih =>
      by_cases atBound : n ≤ replay.cur
      · exact .behind atBound
      · have before : replay.cur < n := not_le.mp atBound
        have header : replay.cur + headerLen ≤ n := by
          have last := (inside rets replay guarded).2 running before (replay.cur + 7) (by
            simp [Reads])
          simp only [headerLen]
          omega
        -- a `write` without room ends the frame here, so that what it was offered is known
        have offered : Write.Inside
            ⟨replay.cur, headerLen + lengthInt memory replay.cur, .error .eagain⟩ n := by
          have stepped : replay.step memory n (.error .eagain) =
              some ⟨replay.cur, replay.writes ++
                [⟨replay.cur, headerLen + lengthInt memory replay.cur, .error .eagain⟩],
                .again⟩ := by
            rw [Replay.step, if_pos ⟨running, before⟩]
            rfl
          have permitted : Returns memory replay (.error .eagain) := trivial
          have ended := Machine.RunsUnder.concat_iff.mpr ⟨replay, guarded, permitted, stepped⟩
          apply (inside _ _ ended).1
          simp
        have nonneg : 0 ≤ headerLen + lengthInt memory replay.cur := offered.nonneg
        have fits : replay.cur + (headerLen + lengthInt memory replay.cur) ≤ n := offered.stop
        rcases nonneg.eq_or_lt with zero | positive
        · exact .empty header zero.symm
        · have whole : Returns memory replay
              (.count (headerLen + lengthInt memory replay.cur).toNat) := by
            simp only [Returns]
            omega
          have goesOn := Machine.RunsUnder.concat_iff.mpr
            ⟨replay, guarded, whole, step_count running before _⟩
          apply Tiles.message header positive fits
          apply ih _ _ goesOn rfl rfl
          rw [← left]
          simp only
          omega

/--
For every content of the buffer and every length of the frame, the loop reads and writes
the frame only if and only if the decoded lengths cut the frame into messages, each with a
whole header in it. That fails for a last message which is truncated, for a tail of less
than 8 bytes and for a negative length.
-/
theorem staysInside_iff_tiles (memory : ℤ → Byte) (n : ℤ) :
    StaysInside memory n ↔ Tiles memory n firstMessage := by
  constructor
  · intro inside
    exact tiles_of_staysInside inside (.nil Replay.start) rfl
  · exact staysInside_of_tiles

/-- A segment with one message of 8 bytes, in which the length is 100. -/
def overlong (offset : ℤ) : Byte := if offset = 61 then 100 else sampleFrame 6 5 48 offset

/-- The loop sends 108 bytes of a frame of 62, of which 100 lie behind the frame. -/
theorem not_staysInside_overlong :
    Accepts overlong ∧ walks overlong 62 = some (54, 62) ∧
      (∃ rets replay,
        Machine.RunsUnder (Replay.step overlong 62) (Returns overlong) .start rets replay ∧
          replay.writes = [⟨54, 108, .count 108⟩]) ∧
      ¬StaysInside overlong 62 := by
  have accepts : Accepts overlong := by decide +kernel
  rcases @Machine.RunsUnder.exists_of_any _ _ (Replay.step overlong 62) (Returns overlong) _
      .start [.count 108] (fun replay => replay.writes = [⟨54, 108, .count 108⟩])
      (by decide +kernel) with ⟨replay, guarded, written⟩
  have sent := of_decide_eq_true written
  refine ⟨accepts, if_pos accepts, ⟨_, replay, guarded, sent⟩, ?_⟩
  intro inside
  have stop := ((inside _ replay guarded).1 ⟨54, 108, .count 108⟩ (by simp [sent])).stop
  exact absurd stop (by decide)

end LoadBalance.Grub
