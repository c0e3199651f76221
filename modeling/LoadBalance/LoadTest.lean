import Mathlib.Data.List.Basic
import LoadBalance.Lib.Machine
import LoadBalance.Posix

/-!
# The load on the disk

`load_test.cc` writes a buffer into a file again and again. The loop around `write` takes
off what each call returns, so a call which fails adds one to what is asked for next, and
the requests can come to reach over the end of the buffer.
-/

namespace LoadBalance.LoadTest

/-- `1024*1024*512`, the length of the buffer. What is proved holds for every length. -/
def len : ℕ := 1024 * 1024 * 512

/-- The memory from `buf` on: the buffer, and what lies behind it. -/
def memory (len : ℕ) (behind : ℕ → Byte) (index : ℕ) : Byte :=
  if index < len then 0x61 else behind index

inductive Pc where
  | opening
  /-- At the head of the loop around `write`. -/
  | writing
  | exited (status : ℤ)
deriving DecidableEq, Repr

inductive Event where
  | openFile (fd : ℤ)
  | write (n : ℤ)
  | lseek

/-- The program, with the offset and the content of its file. `results` is not a variable of
it: it keeps what the writes of this pass have returned. -/
structure Load where
  pc : Pc
  l : ℤ
  offset : ℕ
  file : List Byte
  results : List ℤ
deriving DecidableEq

namespace Load

/-- The file may be there already, and it is not truncated. -/
def start (file : List Byte) : Load where
  pc := .opening
  l := 0
  offset := 0
  file := file
  results := []

/-- The beginning of a pass. -/
def pass (len : ℕ) (load : Load) : Load :=
  { load with
    pc := .writing
    l := len
    offset := 0
    results := [] }

/-- `n = write(fd, buf, l); l -= n;` -/
def put (len : ℕ) (behind : ℕ → Byte) (load : Load) (n : ℤ) : Load :=
  let data := (List.range n.toNat).map (memory len behind)
  { load with
    l := load.l - n
    offset := load.offset + data.length
    file := load.file.take load.offset ++ data ++ load.file.drop (load.offset + data.length)
    results := load.results ++ [n] }

def step (len : ℕ) (behind : ℕ → Byte) (load : Load) : Event → Option Load
  | .openFile fd =>
      if load.pc = .opening then
        some (if fd < 0 then { load with pc := .exited 1 } else load.pass len)
      else none
  | .write n => if load.pc = .writing ∧ 0 < load.l then some (load.put len behind n) else none
  | .lseek => if load.pc = .writing ∧ ¬0 < load.l then some (load.pass len) else none

/-- A `write` fails, or it moves no more than it was asked to. -/
def Possible (load : Load) : Event → Prop
  | .write n => n = -1 ∨ 0 ≤ n ∧ n ≤ load.l
  | .openFile _ | .lseek => True

/-- The request of a `write` does not reach over the end of the buffer. -/
def Inside (len : ℕ) (load : Load) (event : Event) : Prop :=
  load.Possible event ∧ match event with
    | .write _ => load.l ≤ len
    | .openFile _ | .lseek => True

instance (load : Load) : ∀ event, Decidable (load.Possible event)
  | .write _ => inferInstanceAs (Decidable (_ ∨ _))
  | .openFile _ | .lseek => inferInstanceAs (Decidable True)

instance (len : ℕ) (load : Load) : ∀ event, Decidable (load.Inside len event)
  | .write _ => inferInstanceAs (Decidable (_ ∧ _))
  | .openFile _ | .lseek => inferInstanceAs (Decidable (_ ∧ True))

/-- The writes of this pass which have failed. -/
def failures (load : Load) : ℕ := load.results.count (-1)

/-- The bytes which this pass has moved. -/
def moved (load : Load) : ℕ := (load.results.map Int.toNat).sum

/-- What holds of a pass. -/
structure Account (len : ℕ) (load : Load) : Prop where
  left : load.pc = .writing → load.l + load.moved = len + load.failures
  nonneg : load.pc = .writing → 0 ≤ load.l
  offset : load.offset = load.moved

variable {len : ℕ} {behind : ℕ → Byte} {initial : List Byte} {load next : Load} {event : Event}

theorem account_start (initial : List Byte) : (start initial).Account len :=
  ⟨nofun, nofun, rfl⟩

theorem account_pass (load : Load) : (load.pass len).Account len where
  left _ := rfl
  nonneg _ := Int.natCast_nonneg len
  offset := rfl

/-- A failed write adds one to what is left, and any other takes off what it has moved. -/
theorem Account.put (account : load.Account len) {n : ℤ} (writing : load.pc = .writing)
    (possible : n = -1 ∨ 0 ≤ n ∧ n ≤ load.l) : (load.put len behind n).Account len := by
  have left := account.left writing
  have nonneg := account.nonneg writing
  have offset := account.offset
  have moved : (load.put len behind n).moved = load.moved + n.toNat := by
    simp [Load.put, Load.moved]
  have failures : (load.put len behind n).failures =
      load.failures + if n = -1 then 1 else 0 := by
    simp [Load.put, Load.failures, List.count_singleton]
  have newL : (load.put len behind n).l = load.l - n := rfl
  have newOffset : (load.put len behind n).offset = load.offset + n.toNat := by
    simp [Load.put]
  refine ⟨fun _ => ?_, fun _ => ?_, ?_⟩
  · rw [newL, moved, failures]
    rcases possible with rfl | ⟨positive, _⟩
    · simp only [if_true]
      push_cast
      omega
    · rw [if_neg (by omega)]
      push_cast
      omega
  · rw [newL]
    omega
  · rw [newOffset, moved, offset]

theorem Account.step (account : load.Account len) (possible : load.Possible event)
    (stepped : load.step len behind event = some next) : next.Account len := by
  cases event with
  | openFile fd =>
      rcases Option.ite_none_right_eq_some.mp stepped with ⟨opening, same⟩
      cases same
      by_cases failed : fd < 0
      · rw [if_pos failed]
        exact ⟨nofun, nofun, account.offset⟩
      · rw [if_neg failed]
        exact account_pass load
  | write n =>
      rcases Option.ite_none_right_eq_some.mp stepped with ⟨⟨writing, _⟩, same⟩
      cases same
      exact account.put writing possible
  | lseek =>
      rcases Option.ite_none_right_eq_some.mp stepped with ⟨_, same⟩
      cases same
      exact account_pass load

/-- The file has the letter as far as it was written, and then what it had before. -/
def Clean (initial : List Byte) (load : Load) : Prop :=
  ∃ reached, load.offset ≤ reached ∧
    load.file = List.replicate reached 0x61 ++ initial.drop reached

theorem overwrite_replicate {offset reached : ℕ} (inside : offset ≤ reached) (count : ℕ)
    (letter : Byte) (initial : List Byte) :
    (List.replicate reached letter ++ initial.drop reached).take offset ++
        List.replicate count letter ++
        (List.replicate reached letter ++ initial.drop reached).drop (offset + count) =
      List.replicate (max reached (offset + count)) letter ++
        initial.drop (max reached (offset + count)) := by
  have front : offset + count + (reached - (offset + count)) = max reached (offset + count) := by
    omega
  have back : reached + (offset + count - reached) = max reached (offset + count) := by omega
  rw [List.take_append_of_le_length (by rw [List.length_replicate]; exact inside),
    List.take_replicate, min_eq_left inside, List.drop_append, List.drop_replicate,
    List.length_replicate, List.drop_drop, back, ← List.append_assoc,
    List.replicate_append_replicate, List.replicate_append_replicate, front]

theorem Clean.step (clean : load.Clean initial) (inside : load.Inside len event)
    (stepped : load.step len behind event = some next) : next.Clean initial := by
  rcases clean with ⟨reached, offset, file⟩
  cases event with
  | openFile fd =>
      rcases Option.ite_none_right_eq_some.mp stepped with ⟨opening, same⟩
      cases same
      by_cases failed : fd < 0
      · rw [if_pos failed]
        exact ⟨reached, offset, file⟩
      · rw [if_neg failed]
        exact ⟨reached, Nat.zero_le _, file⟩
  | write n =>
      rcases Option.ite_none_right_eq_some.mp stepped with ⟨_, same⟩
      cases same
      have short : n.toNat ≤ len := by
        have asked : n = -1 ∨ 0 ≤ n ∧ n ≤ load.l := inside.1
        have whole : load.l ≤ len := inside.2
        omega
      have letters : (List.range n.toNat).map (memory len behind) =
          List.replicate n.toNat 0x61 := by
        rw [List.eq_replicate_iff]
        refine ⟨by simp, ?_⟩
        intro byte byteMem
        rcases List.mem_map.mp byteMem with ⟨index, indexMem, rfl⟩
        exact if_pos ((List.mem_range.mp indexMem).trans_le short)
      refine ⟨max reached (load.offset + n.toNat), ?_, ?_⟩
      · simp only [put, letters, List.length_replicate]
        exact le_max_right _ _
      · simp only [put, letters, List.length_replicate, file]
        exact overwrite_replicate offset n.toNat 0x61 initial
  | lseek =>
      rcases Option.ite_none_right_eq_some.mp stepped with ⟨_, same⟩
      cases same
      exact ⟨reached, Nat.zero_le _, file⟩

/--
For every length of the buffer, whatever the file had before and whatever its writes return:
what is left of a pass is the length with one more for each failed write, less what was moved.
So a write reaches over the end of the buffer if and only if more writes of its pass have
failed than bytes were moved, and the pass ends if and only if it has moved the whole
length and one byte for each failed write. As long as no write reaches over the end, the
file has nothing but the letter as far as it was written.
-/
theorem load_of_run (len : ℕ) (behind : ℕ → Byte) (initial : List Byte) {events : List Event}
    {final : Load}
    (guarded : Machine.RunsUnder (step len behind) Possible (start initial) events final) :
    (final.pc = .writing →
      final.l = len + final.failures - final.moved ∧ final.offset = final.moved ∧
        (len < final.l ↔ final.moved < final.failures) ∧
        ((final.step len behind .lseek).isSome ↔ final.moved = len + final.failures)) ∧
    (Machine.RunsUnder (step len behind) (Inside len) (start initial) events final →
      ∃ reached, final.offset ≤ reached ∧
        final.file = List.replicate reached 0x61 ++ initial.drop reached) := by
  constructor
  · intro writing
    have account := guarded.invariant (Account len)
      (fun account possible stepped => account.step possible stepped) (account_start initial)
    have left := account.left writing
    have nonneg := account.nonneg writing
    refine ⟨by omega, account.offset, by omega, ?_⟩
    rw [step]
    by_cases more : 0 < final.l
    · rw [if_neg (fun ended => ended.2 more)]
      simp only [Option.isSome_none, Bool.false_eq_true, false_iff]
      omega
    · rw [if_pos ⟨writing, more⟩]
      simp only [Option.isSome_some, true_iff]
      omega
  · intro stays
    exact stays.invariant (Clean initial) (fun clean inside stepped => clean.step inside stepped)
      ⟨0, Nat.le_refl 0, rfl⟩

/-- With more failures than bytes, the next write reaches over the end of the buffer. -/
theorem load_of_run_overlong :
    ∃ final, Machine.RunsUnder (step LoadTest.len fun _ => 0x62) Possible (start [0x7A, 0x7A, 0x7A])
        [.openFile 5, .write 2, .write (-1), .write (-1), .write (-1)] final ∧
      final.file = [0x61, 0x61, 0x7A] ∧ LoadTest.len < final.l := by
  rcases @Machine.RunsUnder.exists_of_any _ _ (step LoadTest.len fun _ => 0x62) Possible _
      (start [0x7A, 0x7A, 0x7A])
      [.openFile 5, .write 2, .write (-1), .write (-1), .write (-1)]
      (fun final => final.pc = .writing ∧ final.moved < final.failures ∧
        final.file = [0x61, 0x61, 0x7A]) (by decide +kernel) with ⟨final, guarded, shown⟩
  rcases of_decide_eq_true shown with ⟨writing, more, file⟩
  have account := (load_of_run LoadTest.len (fun _ => 0x62) [0x7A, 0x7A, 0x7A] guarded).1 writing
  exact ⟨final, guarded, file, account.2.2.1.mpr more⟩

end Load

end LoadBalance.LoadTest
