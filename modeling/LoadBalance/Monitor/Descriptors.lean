import Mathlib.Data.Finset.Card
import LoadBalance.Lib.Machine
import LoadBalance.Monitor.Process

/-!
# The descriptors of the monitor of one process

`readProcFile` opens the file of the process, reads it piece by piece and returns, and it
does not close what it has opened. A descriptor is one of the numbers below the limit of the
process, and `open` fails only if none of them is free, as long as the file exists.
-/

universe u

namespace LoadBalance.Process

/-- The loop of `readProcFile`, if it is left with the last of these reads. -/
def readLoop : List Char → List (ReadResult Char) → Option (List Char)
  | _, [] => none
  | content, .data (char :: chars) :: reads => readLoop (content ++ char :: chars) reads
  | content, _ :: reads => if reads = [] then some content else none

/-- Whether the monitor goes on, has called `exit`, or was ended by an exception. -/
inductive Flow where
  | running
  | exited (status : ℤ)
  | terminated
deriving DecidableEq, Repr

/-- The monitor in the loop of `main`. -/
structure Watch (R : Type u) where
  pm : Procmon R
  descriptors : Finset ℤ
  flow : Flow

/-- What the calls of one tick return, and what its uninitialised variables hold. -/
structure Calls where
  fd : ℤ
  reads : List (ReadResult Char)
  stale : Stale

namespace Watch

variable {R : Type u}

def start (pm : Procmon R) (descriptors : Finset ℤ) : Watch R := ⟨pm, descriptors, .running⟩

/-- One tick: `open`, the reads, and what `Procmon::tick` makes of the content. -/
def step [Double R] (kP : R) (watch : Watch R) (calls : Calls) : Option (Watch R) :=
  match watch.flow with
  | .running =>
      if calls.fd < 0 then some { watch with flow := .exited 1 }
      else (readLoop [] calls.reads).map fun content =>
        let descriptors := insert calls.fd watch.descriptors
        match watch.pm.tick kP calls.stale content with
        | none => { watch with descriptors, flow := .terminated }
        | some ticked => { watch with descriptors, pm := ticked.pm }
  | .exited _ | .terminated => none

end Watch

/-- The numbers which are left for new descriptors. -/
def free (limit : ℕ) (descriptors : Finset ℤ) : Finset ℕ :=
  (Finset.range limit).filter fun number => (number : ℤ) ∉ descriptors

/-- `open` takes a free number, and it fails if there is none. -/
def Opens {R : Type u} (limit : ℕ) (watch : Watch R) (calls : Calls) : Prop :=
  (∃ number ∈ free limit watch.descriptors, calls.fd = number) ∨
    (free limit watch.descriptors = ∅ ∧ calls.fd < 0)

instance {R : Type u} (limit : ℕ) (watch : Watch R) (calls : Calls) :
    Decidable (Opens limit watch calls) := inferInstanceAs (Decidable (_ ∨ _))

theorem free_insert (limit number : ℕ) (descriptors : Finset ℤ) :
    free limit (insert (number : ℤ) descriptors) = (free limit descriptors).erase number := by
  ext other
  simp only [free, Finset.mem_filter, Finset.mem_range, Finset.mem_insert, Finset.mem_erase,
    not_or, Nat.cast_inj]
  constructor
  · rintro ⟨below, different, closed⟩
    exact ⟨different, below, closed⟩
  · rintro ⟨different, below, closed⟩
    exact ⟨below, different, closed⟩

theorem not_mem_of_free {limit number : ℕ} {descriptors : Finset ℤ}
    (isFree : number ∈ free limit descriptors) : (number : ℤ) ∉ descriptors :=
  (Finset.mem_filter.mp isFree).2

namespace Watch

variable {R : Type u} [Double R] {kP : R} {limit : ℕ} {watch next : Watch R} {calls : Calls}

/-- A tick which is completed has opened one descriptor more. -/
theorem descriptors_of_step (opens : Opens limit watch calls)
    (stepped : watch.step kP calls = some next) (running : next.flow = .running) :
    ∃ number ∈ free limit watch.descriptors,
      next.descriptors = insert (number : ℤ) watch.descriptors := by
  rw [step] at stepped
  split at stepped
  · split at stepped
    · cases stepped
      cases running
    · rename_i opened
      rcases opens with ⟨number, isFree, fd⟩ | ⟨_, failed⟩
      · refine ⟨number, isFree, ?_⟩
        rcases Option.map_eq_some_iff.mp stepped with ⟨content, _, rfl⟩
        rw [← fd]
        split
        · rfl
        · rfl
      · exact absurd failed opened
  · cases stepped
  · cases stepped

theorem running_of_step (stepped : watch.step kP calls = some next) : watch.flow = .running := by
  rw [step] at stepped
  split at stepped
  · assumption
  · cases stepped
  · cases stepped

/-- Each completed tick of a run has used up one of the free numbers. -/
theorem length_add_card_free {final : Watch R} {ticks : List Calls}
    (guarded : Machine.RunsUnder (step kP) (Opens limit) watch ticks final)
    (running : final.flow = .running) :
    ticks.length + (free limit final.descriptors).card = (free limit watch.descriptors).card := by
  induction guarded with
  | nil => exact Nat.zero_add _
  | @cons before middle final calls ticks opens stepped rest ih =>
      have goesOn : middle.flow = .running := by
        cases rest with
        | nil => exact running
        | cons _ steppedNext _ => exact running_of_step steppedNext
      rcases descriptors_of_step opens stepped goesOn with ⟨number, isFree, opened⟩
      have later := ih running
      have positive := Finset.card_pos.mpr ⟨number, isFree⟩
      rw [opened, free_insert, Finset.card_erase_of_mem isFree] at later
      rw [List.length_cons]
      omega

/-- The process is there all the time, and its file is empty. -/
theorem exists_exited (kP : R) (limit : ℕ) (pm : Procmon R) (descriptors : Finset ℤ) :
    ∃ ticks final,
      Machine.RunsUnder (step kP) (Opens limit) (start pm descriptors) ticks final ∧
        ticks.length = (free limit descriptors).card + 1 ∧ final.flow = .exited 1 := by
  induction left : (free limit descriptors).card generalizing descriptors with
  | zero =>
      have none := Finset.card_eq_zero.mp left
      refine ⟨[⟨-1, [], ⟨0, 0⟩⟩], _, .cons ?_ rfl (.nil _), rfl, rfl⟩
      exact .inr ⟨none, by decide⟩
  | succ count ih =>
      have room : 0 < (free limit descriptors).card := by omega
      rcases Finset.card_pos.mp room with ⟨number, isFree⟩
      have fewer : (free limit (insert (number : ℤ) descriptors)).card = count := by
        rw [free_insert, Finset.card_erase_of_mem isFree, left, Nat.add_sub_cancel]
      rcases ih _ fewer with ⟨ticks, final, guarded, length, exited⟩
      have opened : ¬(number : ℤ) < 0 := by omega
      have stepped : (start pm descriptors).step kP ⟨number, [.data []], ⟨0, 0⟩⟩ =
          some (start pm (insert (number : ℤ) descriptors)) := by
        simp [step, start, opened, readLoop, Procmon.tick]
      refine ⟨_ :: ticks, final, .cons (.inl ⟨number, isFree, rfl⟩) stepped guarded, ?_, exited⟩
      rw [List.length_cons, length]

/--
For every limit, whatever is open at the start and whatever is read: no completed tick leaves
the descriptors as they were, each of them uses up one of the free numbers, and so the
monitor gets to a tick whose `open` fails and exits.
-/
theorem descriptors_used_up (kP : R) (limit : ℕ) (pm : Procmon R) (descriptors : Finset ℤ) :
    (∀ calls next, Opens limit (start pm descriptors) calls →
      (start pm descriptors).step kP calls = some next → next.flow = .running →
        next.descriptors ≠ descriptors) ∧
    (∀ ticks final,
      Machine.RunsUnder (step kP) (Opens limit) (start pm descriptors) ticks final →
        final.flow = .running →
          ticks.length + (free limit final.descriptors).card = (free limit descriptors).card) ∧
    ∃ ticks final,
      Machine.RunsUnder (step kP) (Opens limit) (start pm descriptors) ticks final ∧
        ticks.length = (free limit descriptors).card + 1 ∧ final.flow = .exited 1 := by
  refine ⟨?_, ?_, exists_exited kP limit pm descriptors⟩
  · intro calls next opens stepped running same
    rcases descriptors_of_step opens stepped running with ⟨number, isFree, opened⟩
    rw [opened] at same
    exact not_mem_of_free isFree (Finset.insert_eq_self.mp same)
  · intro ticks final guarded running
    exact length_add_card_free guarded running

/-- With room for one more descriptor: the first tick takes it, and the second one exits. -/
theorem exited_after_one_tick :
    (free 4 {0, 1, 2}).Nonempty ∧
    ∃ watch final, Machine.RunsUnder (step (3 : ℚ)) (Opens 4) (start (.new 4 100) {0, 1, 2})
        [⟨3, [.data "7 (sh) S 1 ".toList, .data "7 7".toList, .data []], ⟨0, 0⟩⟩] watch ∧
      watch.flow = .running ∧ watch.descriptors = {0, 1, 2, 3} ∧
      Machine.RunsUnder (step (3 : ℚ)) (Opens 4) (start (.new 4 100) {0, 1, 2})
        [⟨3, [.data "7 (sh) S 1 ".toList, .data "7 7".toList, .data []], ⟨0, 0⟩⟩,
          ⟨-1, [], ⟨0, 0⟩⟩] final ∧ final.flow = .exited 1 := by
  rcases @Machine.RunsUnder.exists_of_any _ _ (step (3 : ℚ)) (Opens 4) _
      (start (.new 4 100) {0, 1, 2})
      [⟨3, [.data "7 (sh) S 1 ".toList, .data "7 7".toList, .data []], ⟨0, 0⟩⟩]
      (fun watch => watch.flow = .running ∧ watch.descriptors = {0, 1, 2, 3})
      (by decide +kernel) with ⟨watch, guarded, shown⟩
  rcases @Machine.RunsUnder.exists_of_any _ _ (step (3 : ℚ)) (Opens 4) _
      (start (.new 4 100) {0, 1, 2})
      [⟨3, [.data "7 (sh) S 1 ".toList, .data "7 7".toList, .data []], ⟨0, 0⟩⟩,
        ⟨-1, [], ⟨0, 0⟩⟩]
      (fun final => final.flow = .exited 1) (by decide +kernel) with ⟨final, guarded', exited⟩
  rcases of_decide_eq_true shown with ⟨running, opened⟩
  exact ⟨⟨3, by decide⟩, watch, final, guarded, running, opened, guarded',
    of_decide_eq_true exited⟩

end Watch

end LoadBalance.Process
