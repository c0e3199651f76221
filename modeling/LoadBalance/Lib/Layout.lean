import Mathlib.Data.List.Basic

/-!
# Values laid out in a buffer

Values of one fixed size are stored one after the other in a buffer of cells, and loaded
from it again. What is stored at an index is found there, and a store changes nothing at
the other indices.
-/

universe u v

namespace Layout

/-- Values which take the same number of cells each, and are kept by them. -/
class Image (Value : Type u) (Cell : outParam (Type v)) where
  size : ℕ
  size_pos : 0 < size
  image : Value → List Cell
  ofImage : List Cell → Value
  length_image : ∀ value, (image value).length = size
  ofImage_image : ∀ value, ofImage (image value) = value

attribute [simp] Image.length_image Image.ofImage_image

open Image (size image ofImage)

variable {Value : Type u} {Cell : Type v} [Image Value Cell]

/-- The buffer after `*(values + index) = value`. -/
def store (buffer : List Cell) (index : ℕ) (value : Value) : List Cell :=
  buffer.take (index * size Value) ++ image value ++ buffer.drop ((index + 1) * size Value)

/-- The value of `*(values + index)`. -/
def load (buffer : List Cell) (index : ℕ) : Value :=
  ofImage ((buffer.drop (index * size Value)).take (size Value))

def images (values : List Value) : List Cell := values.flatMap image

theorem length_images (values : List Value) :
    (images values).length = values.length * size Value := by
  induction values with
  | nil => simp [images]
  | cons value values ih =>
      simp only [images, List.flatMap_cons, List.length_append, Image.length_image] at ih ⊢
      rw [ih, List.length_cons, Nat.succ_mul, Nat.add_comm]

theorem load_images {values : List Value} {index : ℕ} {value : Value}
    (found : values[index]? = some value) : load (images values) index = value := by
  induction values generalizing index with
  | nil => cases found
  | cons first values ih =>
      have front : (image first : List Cell).length = size Value := Image.length_image first
      cases index with
      | zero =>
          cases found
          rw [load, Nat.zero_mul, List.drop_zero, images, List.flatMap_cons, ← front,
            List.take_left, Image.ofImage_image]
      | succ index =>
          have skipped : (images (first :: values)).drop ((index + 1) * size Value) =
              (images values).drop (index * size Value) := by
            rw [Nat.succ_mul, Nat.add_comm, ← List.drop_drop, ← front, images, List.flatMap_cons,
              List.drop_left, images]
          rw [load, skipped]
          exact ih found

/-- A store behind the values which are already there adds its value to them. -/
theorem store_images (values : List Value) (value : Value) (rest : List Cell) :
    store (images values ++ rest) values.length value =
      images (values ++ [value]) ++ rest.drop (size Value) := by
  have front : (images values : List Cell).length = values.length * size Value :=
    length_images values
  have added : images (values ++ [value]) = images values ++ image value := by
    simp [images]
  have behind : (images values ++ rest).drop ((values.length + 1) * size Value) =
      rest.drop (size Value) := by
    rw [Nat.succ_mul, ← List.drop_drop, ← front, List.drop_left]
  rw [store, behind, ← front, List.take_left, added]

end Layout
