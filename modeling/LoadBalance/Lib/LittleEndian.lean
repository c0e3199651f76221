import Mathlib.Data.List.Basic
import Mathlib.Tactic.Ring

/-!
# Little-endian bytes

The memory image of an unsigned number on a little-endian machine, least significant
byte first, and the number stored in such an image.
-/

namespace LittleEndian

/-- The `width` low bytes of `value`, least significant first. -/
def encode : ℕ → ℕ → List (BitVec 8)
  | 0, _ => []
  | width + 1, value => BitVec.ofNat 8 value :: encode width (value / 256)

/-- The number stored in the given bytes. -/
def decode : List (BitVec 8) → ℕ
  | [] => 0
  | byte :: bytes => byte.toNat + 256 * decode bytes

@[simp]
theorem length_encode (width value : ℕ) : (encode width value).length = width := by
  induction width generalizing value with
  | zero => rfl
  | succ width ih => simp [encode, ih]

theorem decode_encode (width value : ℕ) : decode (encode width value) = value % 256 ^ width := by
  induction width generalizing value with
  | zero => simp [encode, decode, Nat.mod_one]
  | succ width ih =>
      simp only [encode, decode, ih, BitVec.toNat_ofNat]
      change value % 256 + 256 * (value / 256 % 256 ^ width) = value % 256 ^ (width + 1)
      rw [pow_succ' 256 width, Nat.mod_mul]

theorem decode_lt (bytes : List (BitVec 8)) : decode bytes < 256 ^ bytes.length := by
  induction bytes with
  | nil => simp [decode]
  | cons byte bytes ih =>
      have byteLt : byte.toNat < 256 := byte.isLt
      simp only [decode, List.length_cons, pow_succ']
      omega

theorem encode_decode (bytes : List (BitVec 8)) : encode bytes.length (decode bytes) = bytes := by
  induction bytes with
  | nil => rfl
  | cons byte bytes ih =>
      have byteLt : byte.toNat < 256 := byte.isLt
      have quotient : (byte.toNat + 256 * decode bytes) / 256 = decode bytes := by omega
      simp only [List.length_cons, decode, encode, quotient, ih, List.cons.injEq, and_true]
      apply BitVec.eq_of_toNat_eq
      simp only [BitVec.toNat_ofNat]
      omega

theorem decode_injective {first second : List (BitVec 8)}
    (sameLength : first.length = second.length) (equal : decode first = decode second) :
    first = second := by
  rw [← encode_decode first, ← encode_decode second, sameLength, equal]

theorem base_pow (count : ℕ) : 256 ^ count = 2 ^ (8 * count) := by
  rw [pow_mul]
  norm_num

/-- The machine word stored in the given bytes. -/
def word (width : ℕ) (bytes : List (BitVec 8)) : BitVec width :=
  BitVec.ofNat width (decode bytes)

/-- Storing a word over its whole width and loading it again gives the word back. -/
theorem word_encode {count : ℕ} (value : BitVec (8 * count)) :
    word (8 * count) (encode count value.toNat) = value := by
  apply BitVec.eq_of_toNat_eq
  have wide := base_pow count
  rw [word, decode_encode, BitVec.toNat_ofNat, wide, Nat.mod_mod]
  exact Nat.mod_eq_of_lt value.isLt

theorem word_injective {count : ℕ} {first second : List (BitVec 8)}
    (firstLength : first.length = count) (secondLength : second.length = count)
    (equal : word (8 * count) first = word (8 * count) second) : first = second := by
  have wide := base_pow count
  have firstLt : decode first < 2 ^ (8 * count) := by
    simpa [firstLength, wide] using decode_lt first
  have secondLt : decode second < 2 ^ (8 * count) := by
    simpa [secondLength, wide] using decode_lt second
  have values := congrArg BitVec.toNat equal
  simp only [word, BitVec.toNat_ofNat, Nat.mod_eq_of_lt firstLt, Nat.mod_eq_of_lt secondLt]
    at values
  exact decode_injective (firstLength.trans secondLength.symm) values

end LittleEndian
