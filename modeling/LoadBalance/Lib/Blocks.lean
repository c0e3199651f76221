import Mathlib.Data.List.Count
import Mathlib.Algebra.Order.BigOperators.Group.List

/-!
# Streams cut into blocks

A stream protocol writes blocks of one fixed length and the transport hands the bytes
over in pieces of its own choice. The pieces are the blocks as soon as every piece has
the length of a block, and the number of pieces of that length decides it: no other
cut of the same bytes has as many of them.
-/

universe u

namespace Blocks

variable {α : Type u}

/-- Two cuts of one stream into pieces of the same length are the same cut. -/
theorem eq_of_flatten_eq {size : ℕ} {pieces blocks : List (List α)} (positive : 0 < size)
    (piecesSize : ∀ piece ∈ pieces, piece.length = size)
    (blocksSize : ∀ block ∈ blocks, block.length = size)
    (sameStream : pieces.flatten = blocks.flatten) : pieces = blocks := by
  have piecesLengths : pieces.map List.length = List.replicate pieces.length size :=
    List.map_eq_replicate_iff.mpr piecesSize
  have blocksLengths : blocks.map List.length = List.replicate blocks.length size :=
    List.map_eq_replicate_iff.mpr blocksSize
  have sameLength : pieces.length = blocks.length := by
    have total := congrArg List.length sameStream
    simp only [List.length_flatten, piecesLengths, blocksLengths, List.sum_replicate_nat] at total
    exact Nat.eq_of_mul_eq_mul_right positive total
  rw [List.eq_iff_flatten_eq, piecesLengths, blocksLengths, sameLength]
  exact ⟨sameStream, rfl⟩

theorem countP_mul_le_length_flatten (size : ℕ) (pieces : List (List α)) :
    pieces.countP (fun piece => piece.length = size) * size ≤ pieces.flatten.length := by
  induction pieces with
  | nil => simp
  | cons piece pieces ih =>
      by_cases full : piece.length = size
      · simp only [full, decide_true, List.countP_cons_of_pos, List.flatten_cons,
          List.length_append]
        rw [Nat.add_mul]
        omega
      · simp only [full, decide_false, Bool.false_eq_true, not_false_eq_true,
          List.countP_cons_of_neg, List.flatten_cons, List.length_append]
        omega

theorem forall_length_eq_of_countP {size : ℕ} {pieces : List (List α)}
    (nonempty : ∀ piece ∈ pieces, 0 < piece.length)
    (accounted : pieces.flatten.length =
      pieces.countP (fun piece => piece.length = size) * size) :
    ∀ piece ∈ pieces, piece.length = size := by
  induction pieces with
  | nil => simp
  | cons piece pieces ih =>
      have rest := countP_mul_le_length_flatten size pieces
      have headPositive := nonempty piece (by simp)
      by_cases full : piece.length = size
      · simp only [full, decide_true, List.countP_cons_of_pos, List.flatten_cons,
          List.length_append, Nat.add_mul] at accounted
        simp only [List.forall_mem_cons, full, true_and]
        exact ih (fun other mem => nonempty other (by simp [mem])) (by omega)
      · simp only [full, decide_false, Bool.false_eq_true, not_false_eq_true,
          List.countP_cons_of_neg, List.flatten_cons, List.length_append] at accounted
        omega

/-- A stream of `count` blocks has `count` full pieces only in the cut into its blocks. -/
theorem forall_length_eq_iff_countP {size : ℕ} {pieces blocks : List (List α)} (positive : 0 < size)
    (nonempty : ∀ piece ∈ pieces, 0 < piece.length)
    (blocksSize : ∀ block ∈ blocks, block.length = size)
    (sameStream : pieces.flatten = blocks.flatten) :
    (∀ piece ∈ pieces, piece.length = size) ↔
      pieces.countP (fun piece => piece.length = size) = blocks.length := by
  have total : blocks.flatten.length = blocks.length * size := by
    rw [List.length_flatten, List.map_eq_replicate_iff.mpr blocksSize, List.sum_replicate_nat]
  constructor
  · intro full
    rw [eq_of_flatten_eq positive full blocksSize sameStream]
    simpa [List.countP_eq_length] using blocksSize
  · intro counted
    apply forall_length_eq_of_countP nonempty
    rw [sameStream, total, counted]

end Blocks
