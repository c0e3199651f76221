import Mathlib.Data.List.TakeWhile

/-!
# Positions in a text

The first and the last place of an item in a text, and the part of a text in front of the
first item of some kind, which for the byte 0 is what a pointer to characters stands for.
-/

namespace Text

variable {α : Type*} [DecidableEq α] {item : α} {text first last : List α}

/-- `find` -/
def find (item : α) (text : List α) : Option ℕ := text.findIdx? fun here => here = item

/-- `rfind` -/
def rfind (item : α) (text : List α) : Option ℕ :=
  (find item text.reverse).map fun behind => text.length - 1 - behind

def upTo (item : α) (text : List α) : List α := text.takeWhile fun here => here ≠ item

theorem find_append (absent : item ∉ first) :
    find item (first ++ item :: last) = some first.length := by
  have notFirst : first.findIdx? (fun here => decide (here = item)) = none := by
    rw [List.findIdx?_eq_none_iff]
    intro here hereMem
    apply decide_eq_false
    rintro rfl
    exact absent hereMem
  rw [find, List.findIdx?_append, notFirst, Option.none_or, List.findIdx?_cons,
    if_pos (decide_eq_true rfl)]
  simp

theorem find_eq_none_iff : find item text = none ↔ item ∉ text := by
  rw [find, List.findIdx?_eq_none_iff]
  constructor
  · intro different present
    exact of_decide_eq_false (different item present) rfl
  · intro absent here hereMem
    apply decide_eq_false
    rintro rfl
    exact absent hereMem

/-- The first place of an item cuts the text into what is in front of it and behind it. -/
theorem find_eq_some_iff {index : ℕ} :
    find item text = some index ↔
      ∃ first last, text = first ++ item :: last ∧ item ∉ first ∧ index = first.length := by
  constructor
  · intro found
    have present : item ∈ text := by
      by_contra absent
      rw [find_eq_none_iff.mpr absent] at found
      cases found
    rcases List.eq_append_cons_of_mem present with ⟨first, last, split, absent⟩
    rw [split, find_append absent, Option.some.injEq] at found
    exact ⟨first, last, split, absent, found.symm⟩
  · rintro ⟨first, last, rfl, absent, rfl⟩
    exact find_append absent

theorem rfind_append (absent : item ∉ last) :
    rfind item (first ++ item :: last) = some first.length := by
  have reversed : (first ++ item :: last).reverse = last.reverse ++ item :: first.reverse := by
    simp
  have notLast : item ∉ last.reverse := by rwa [List.mem_reverse]
  rw [rfind, reversed, find_append notLast, Option.map_some, Option.some.injEq,
    List.length_append, List.length_cons, List.length_reverse]
  omega

/-- The first places of two items, the one in front of the other. -/
theorem find_lt_find_iff {other : α} {here behind : ℕ} (different : item ≠ other) :
    find item text = some here ∧ find other text = some behind ∧ here < behind ↔
      ∃ first middle last, text = first ++ item :: (middle ++ other :: last) ∧ item ∉ first ∧
        other ∉ first ∧ other ∉ middle ∧ here = first.length ∧
        behind = first.length + 1 + middle.length := by
  constructor
  · rintro ⟨found, foundOther, before⟩
    rcases find_eq_some_iff.mp found with ⟨first, rest, split, absent, rfl⟩
    rcases find_eq_some_iff.mp foundOther with ⟨front, last, splitOther, absentOther, rfl⟩
    rw [split] at splitOther
    rcases List.append_eq_append_iff.mp splitOther with ⟨middle, rfl, tail⟩ | ⟨middle, rfl, _⟩
    · cases middle with
      | nil => simp at before
      | cons head middle =>
          rw [List.cons_append, List.cons.injEq] at tail
          rcases tail with ⟨rfl, rfl⟩
          simp only [List.mem_append, List.mem_cons, not_or] at absentOther
          refine ⟨first, middle, last, split, absent, absentOther.1, absentOther.2.2, rfl, ?_⟩
          simp only [List.length_append, List.length_cons]
          omega
    · simp only [List.length_append] at before
      omega
  · rintro ⟨first, middle, last, rfl, absent, absentFirst, absentMiddle, rfl, rfl⟩
    have regrouped : first ++ item :: (middle ++ other :: last) =
        (first ++ item :: middle) ++ other :: last := by simp
    refine ⟨find_append absent, ?_, by omega⟩
    rw [regrouped, find_append, Option.some.injEq]
    · simp only [List.length_append, List.length_cons]
      omega
    · simp only [List.mem_append, List.mem_cons, not_or]
      exact ⟨absentFirst, different.symm, absentMiddle⟩

theorem upTo_append (absent : item ∉ first) : upTo item (first ++ item :: last) = first := by
  rw [upTo, List.takeWhile_append_of_pos]
  · simp
  · intro here hereMem
    apply decide_eq_true
    rintro rfl
    exact absent hereMem

theorem upTo_of_notMem (absent : item ∉ text) : upTo item text = text := by
  rw [upTo, List.takeWhile_eq_self_iff]
  intro here hereMem
  apply decide_eq_true
  rintro rfl
  exact absent hereMem

end Text
