import Mathlib.Algebra.BigOperators.Fin
import Mathlib.Algebra.BigOperators.Ring.Finset
import Mathlib.Algebra.Order.BigOperators.Group.Finset
import Mathlib.Algebra.Order.Field.Basic
import Mathlib.Algebra.Order.Ring.Rat
import Mathlib.Data.List.OfFn

/-!
# Choosing an index by weights

A family of weights defines a distribution when none of them is negative and they do
not all vanish. A choice divides the total into consecutive shares, one for each
index and as long as its weight, and takes the index into whose share a ticket falls.
-/

universe u

namespace Weights

section Valid

variable {ι : Type*} [Fintype ι] {R : Type u} [AddCommMonoid R] [LinearOrder R]
  [IsOrderedCancelAddMonoid R]

/-- The weights define a distribution. -/
structure Valid (weights : ι → R) : Prop where
  nonneg : ∀ index, 0 ≤ weights index
  sum_pos : 0 < ∑ index, weights index

/-- Weights which are not negative define a distribution once one of them counts. -/
theorem valid_iff_exists_pos {weights : ι → R} (nonneg : ∀ index, 0 ≤ weights index) :
    Valid weights ↔ ∃ index, 0 < weights index := by
  have sumPos : 0 < ∑ index, weights index ↔ ∃ index ∈ Finset.univ, 0 < weights index :=
    Finset.sum_pos_iff_of_nonneg fun index _ => nonneg index
  constructor
  · intro valid
    rcases sumPos.mp valid.sum_pos with ⟨index, -, pos⟩
    exact ⟨index, pos⟩
  · rintro ⟨index, pos⟩
    exact ⟨nonneg, sumPos.mpr ⟨index, Finset.mem_univ index, pos⟩⟩

instance [DecidableLE R] [DecidableLT R] (weights : ι → R) : Decidable (Valid weights) :=
  decidable_of_iff ((∀ index, 0 ≤ weights index) ∧ 0 < ∑ index, weights index)
    ⟨fun both => ⟨both.1, both.2⟩, fun valid => ⟨valid.nonneg, valid.sum_pos⟩⟩

end Valid

section Share

variable {ι : Type*} [Fintype ι] {R : Type u} [Field R] [LinearOrder R] [IsStrictOrderedRing R]
  {weights : ι → R} {index other : ι}

/-- The probability of an index in the distribution with these weights. -/
def share (weights : ι → R) (index : ι) : R := weights index / ∑ other, weights other

theorem Valid.share_le_share_iff (valid : Valid weights) :
    share weights index ≤ share weights other ↔ weights index ≤ weights other :=
  div_le_div_iff_of_pos_right valid.sum_pos

theorem Valid.share_lt_share_iff (valid : Valid weights) :
    share weights index < share weights other ↔ weights index < weights other :=
  div_lt_div_iff_of_pos_right valid.sum_pos

theorem Valid.share_lt_mul_share_iff (valid : Valid weights) (factor : R) :
    share weights index < factor * share weights other ↔
      weights index < factor * weights other := by
  rw [share, share, ← mul_div_assoc]
  exact div_lt_div_iff_of_pos_right valid.sum_pos

end Share

section Pick

variable {R : Type u} [AddCommGroup R] [LinearOrder R] [IsOrderedAddMonoid R]

/-- Walk along the shares to the one which holds the ticket. -/
def pick : List R → R → ℕ
  | [], _ => 0
  | weight :: weights, ticket =>
      if ticket < weight then 0 else pick weights (ticket - weight) + 1

/-- A ticket below the total falls into a share, and no empty share holds a ticket. -/
theorem exists_getElem?_pick {weights : List R} {ticket : R} (nonneg : 0 ≤ ticket)
    (bounded : ticket < weights.sum) :
    ∃ weight, weights[pick weights ticket]? = some weight ∧ 0 < weight := by
  induction weights generalizing ticket with
  | nil =>
      rw [List.sum_nil] at bounded
      exact absurd bounded (not_lt.mpr nonneg)
  | cons weight weights ih =>
      rw [pick]
      split
      · rename_i inside
        exact ⟨weight, rfl, lt_of_le_of_lt nonneg inside⟩
      · rename_i outside
        have rest : ticket - weight < weights.sum := by
          rw [List.sum_cons] at bounded
          exact sub_left_lt_of_lt_add bounded
        exact ih (sub_nonneg.mpr (not_lt.mp outside)) rest

def choose {size : ℕ} [NeZero size] (weights : Fin size → R) (ticket : R) : Fin size :=
  Fin.ofNat size (pick (List.ofFn weights) ticket)

theorem choose_pos {size : ℕ} [NeZero size] {weights : Fin size → R} {ticket : R}
    (nonneg : 0 ≤ ticket) (bounded : ticket < ∑ index, weights index) :
    0 < weights (choose weights ticket) := by
  rw [← List.sum_ofFn] at bounded
  rcases exists_getElem?_pick nonneg bounded with ⟨weight, found, pos⟩
  rcases List.getElem?_eq_some_iff.mp found with ⟨inside, atPick⟩
  have small : pick (List.ofFn weights) ticket < size := by simpa using inside
  have chosen : choose weights ticket = ⟨pick (List.ofFn weights) ticket, small⟩ :=
    Fin.ext (Nat.mod_eq_of_lt small)
  rw [List.getElem_ofFn] at atPick
  rw [chosen, atPick]
  exact pos

end Pick

end Weights
