import Mathlib.Data.List.Count
import Mathlib.Order.Interval.Finset.Nat

/-!
# Places visited in turn

A list of places follows the rotation of a given size if every entry is the one after
the entry before it, with the first place following the last. In every window of such a
list any two places are visited equally often up to one, since a window of full length
visits every place once, and a shorter one visits none twice.
-/

namespace Rotation

/-- The first `count` visits, where `start` visits have been made before. -/
def visits (size start count : ℕ) : List ℕ :=
  (List.range' start count).map (· % size)

variable {size start : ℕ}

@[simp]
theorem length_visits (count : ℕ) : (visits size start count).length = count := by
  simp [visits]

theorem visits_add (first second : ℕ) :
    visits size start (first + second) =
      visits size start first ++ visits size (start + first) second := by
  rw [visits, ← List.range'_append_1, List.map_append]
  rfl

theorem visits_succ (count : ℕ) :
    visits size start (count + 1) = visits size start count ++ [(start + count) % size] :=
  visits_add count 1

theorem getElem?_visits {count index : ℕ} (inside : index < count) :
    (visits size start count)[index]? = some ((start + index) % size) := by
  rw [visits, List.getElem?_map, List.getElem?_range' inside]
  simp

/-- A window of a rotation is a rotation. -/
theorem eq_visits_of_append {count : ℕ} {before window after : List ℕ}
    (cut : visits size start count = before ++ window ++ after) :
    window = visits size (start + before.length) window.length := by
  have lengths := congrArg List.length cut
  simp only [length_visits, List.length_append] at lengths
  rw [lengths, visits_add, visits_add] at cut
  have front := List.append_inj_left cut (by simp)
  exact (List.append_inj_right front (by simp)).symm

theorem count_visits_round {place : ℕ} (isPlace : place < size) :
    (visits size start size).count place = 1 := by
  have places := Nat.multiset_Ico_map_mod start size
  have counted := congrArg (Multiset.count place) places
  have window : Multiset.Ico start (start + size) = ↑(List.range' start size) := by
    change ((List.range' start (start + size - start) : List ℕ) : Multiset ℕ) = _
    rw [Nat.add_sub_cancel_left]
  rw [window, Multiset.map_coe, Multiset.coe_count] at counted
  rw [visits, counted]
  exact Multiset.count_eq_one_of_mem (Multiset.nodup_range size) (Multiset.mem_range.mpr isPlace)

theorem count_visits_le_one {count place : ℕ} (short : count ≤ size) (isPlace : place < size) :
    (visits size start count).count place ≤ 1 := by
  have round := @count_visits_round size start place isPlace
  have split : visits size start size =
      visits size start count ++ visits size (start + count) (size - count) := by
    rw [← visits_add, Nat.add_sub_of_le short]
  rw [split, List.count_append] at round
  omega

/-- In every window the numbers of visits to two places differ by at most one. -/
theorem count_visits_le_count_add_one {first second : ℕ} (firstPlace : first < size)
    (secondPlace : second < size) (start count : ℕ) :
    (visits size start count).count first ≤ (visits size start count).count second + 1 := by
  induction count using Nat.strongRecOn generalizing start with
  | ind count ih =>
      by_cases short : count ≤ size
      · have once := @count_visits_le_one size start count first short firstPlace
        omega
      · have rest : count - size < count := by omega
        have split : visits size start count =
            visits size start size ++ visits size (start + size) (count - size) := by
          rw [← visits_add, Nat.add_sub_of_le (by omega)]
        have tail := ih (count - size) rest (start + size)
        rw [split, List.count_append, List.count_append, count_visits_round firstPlace,
          count_visits_round secondPlace]
        omega

end Rotation
