import Mathlib.Data.List.Count
import Mathlib.Algebra.Order.Ring.Nat
import Mathlib.Algebra.Order.BigOperators.Group.List

/-!
# Fields with a mark behind each

A text which is written field by field, with the same mark behind every field. Cut at the
marks it gives the fields back, unless a field contains the mark itself: then there are
more pieces than fields.
-/

universe u

namespace Terminated

variable {α : Type u}

def join (mark : α) (fields : List (List α)) : List α := fields.flatMap fun field => field ++ [mark]

@[simp]
theorem join_nil (mark : α) : join mark [] = [] := rfl

@[simp]
theorem join_cons (mark : α) (field : List α) (fields : List (List α)) :
    join mark (field :: fields) = field ++ mark :: join mark fields := by
  simp [join]

theorem join_append (mark : α) (first second : List (List α)) :
    join mark (first ++ second) = join mark first ++ join mark second := List.flatMap_append

variable [DecidableEq α]

/-- The pieces in front of the marks. What is behind the last mark is left out. -/
def split (mark : α) (text : List α) : List (List α) := (text.splitOn mark).dropLast

theorem length_splitOn (mark : α) (text : List α) :
    (text.splitOn mark).length = text.count mark + 1 := by
  induction text with
  | nil => simp
  | cons item text ih =>
      rw [List.splitOn_cons_eq_if_modifyHead, List.count_cons]
      split
      · rw [List.length_cons, ih]
      · rw [List.length_modifyHead, ih, Nat.add_zero]

theorem length_split (mark : α) (text : List α) : (split mark text).length = text.count mark := by
  rw [split, List.length_dropLast, length_splitOn, Nat.add_sub_cancel]

theorem split_append_cons {mark : α} {field : List α} (absent : mark ∉ field) (rest : List α) :
    split mark (field ++ mark :: rest) = field :: split mark rest := by
  rw [split, List.splitOn_append_cons_self_of_not_mem absent,
    List.dropLast_cons_of_ne_nil (List.splitOn_ne_nil _ _), split]

theorem split_join {mark : α} {fields : List (List α)} (absent : ∀ field ∈ fields, mark ∉ field) :
    split mark (join mark fields) = fields := by
  induction fields with
  | nil => rfl
  | cons field fields ih =>
      simp only [List.forall_mem_cons] at absent
      rw [join_cons, split_append_cons absent.1, ih absent.2]

/-- Every field has its mark, and there are the marks inside of the fields. -/
theorem count_join (mark : α) (fields : List (List α)) :
    (join mark fields).count mark = fields.length + (fields.map (List.count mark)).sum := by
  induction fields with
  | nil => rfl
  | cons field fields ih =>
      rw [join_cons, List.count_append, List.count_cons_self, ih, List.length_cons, List.map_cons,
        List.sum_cons]
      omega

/-- As many fields are found as were joined if and only if no field contains the mark. -/
theorem length_split_join_iff (mark : α) (fields : List (List α)) :
    (split mark (join mark fields)).length = fields.length ↔ ∀ field ∈ fields, mark ∉ field := by
  constructor
  · intro same field fieldMem markMem
    rw [length_split, count_join] at same
    have some : field.count mark ≤ (fields.map (List.count mark)).sum :=
      List.single_le_sum (fun _ _ => Nat.zero_le _) _ (List.mem_map_of_mem fieldMem)
    have positive := List.count_pos_iff.mpr markMem
    omega
  · intro absent
    rw [split_join absent]

end Terminated
