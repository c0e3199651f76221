import Mathlib.Algebra.Order.Field.Rat
import LoadBalance.Lib.Layout
import LoadBalance.Lib.LittleEndian
import LoadBalance.Posix

/-!
# The type double

What is proved about programs which compute with `double` holds for any arithmetic, and
the results which need more than the order of the operations take the rational numbers.
In memory a `double` is the little-endian image of its 64-bit pattern.
-/

universe u

namespace LoadBalance

open Float.Model (Format)
open Float.Model.UnpackedFloat (unpackExponent unpackMantissa packedNaN)

/-- The operations of `double` which the programs use. They need not satisfy any law. -/
class Double (R : Type u) extends Add R, Sub R, Mul R, Div R, LE R where
  ofRat : ℚ → R
  decidableLE : DecidableLE R

instance Double.instDecidableLE {R : Type u} [Double R] : DecidableLE R := Double.decidableLE

/-- The conversion of an integer. -/
def Double.ofInt {R : Type u} [Double R] (value : ℤ) : R := Double.ofRat value

/-- Exact arithmetic. -/
instance : Double ℚ where
  ofRat value := value
  decidableLE := inferInstance

/-- The arithmetic of the machine. A quotient of two integers is rounded once if both are
below 2^53. -/
instance : Double Float where
  ofRat value := Float.ofInt value.num / Float.ofInt value.den
  decidableLE := Float.decLe

example : (Double.ofRat (6 / 10) : Float).toBits = 0x3FE3333333333333 := by decide +kernel

/-- There is only one pattern for what is not a number. -/
instance decidableValid (pattern : BitVec 64) : Decidable (Format.binary64.Valid pattern) :=
  decidable_of_iff
    (@unpackExponent .binary64 pattern = (-1#_) → @unpackMantissa .binary64 pattern ≠ 0#_ →
      pattern = packedNaN .binary64)
    ⟨fun canonical => ⟨canonical⟩, fun valid => valid.eq_packedNaN⟩

def floatOfPattern (pattern : BitVec 64) : Float :=
  if valid : Format.binary64.Valid pattern then .ofModel ⟨.ofBitVec pattern, valid⟩
  else .ofModel (.pack .notANumber)

theorem floatOfPattern_toBits (value : Float) :
    floatOfPattern value.toBits.toBitVec = value := dif_pos value.toModel.valid

/-- The number for which a finite value stands. -/
def ratOfFloat (value : Float) : ℚ :=
  let pattern := value.toBits.toBitVec.toNat
  let mantissa : ℕ := pattern % 2 ^ 52
  let exponent : ℕ := pattern / 2 ^ 52 % 2 ^ 11
  let magnitude :=
    if exponent = 0 then mkRat mantissa (2 ^ 1074)
    else mkRat ((2 ^ 52 + mantissa) * 2 ^ exponent) (2 ^ 1075)
  if pattern < 2 ^ 63 then magnitude else -magnitude

example : ratOfFloat (Double.ofRat (-3 / 8)) = -3 / 8 := by decide +kernel

instance : Layout.Image Float Byte where
  size := 8
  size_pos := by decide
  image value := LittleEndian.encode 8 value.toBits.toBitVec.toNat
  ofImage bytes := floatOfPattern (LittleEndian.word 64 bytes)
  length_image _ := LittleEndian.length_encode _ _
  ofImage_image value := by
    rw [@LittleEndian.word_encode 8 value.toBits.toBitVec]
    exact floatOfPattern_toBits value

end LoadBalance
