import Mathlib.Data.Finset.Basic
import LoadBalance.Lib.LittleEndian

/-!
# The calls of the operating system

The values which the system calls of the programs take and return. A call is not
modelled by what the kernel does, but by the answers it may give: the programs are
functions of these answers, and each environment says which answers are possible.
-/

universe u

namespace LoadBalance

abbrev Byte := BitVec 8

/-- A descriptor, stored as a C `int`. -/
abbrev Fd := BitVec 32

/-- The error numbers which the programs or their environments tell apart. -/
inductive Errno where
  | eagain
  | econnaborted
  | econnreset
  | emfile
  | other (code : ℕ)
deriving DecidableEq, Repr

/-- What `read` returns: the bytes it has moved, none of them at end of file, or -1. -/
inductive ReadResult (α : Type u) where
  | data (bytes : List α)
  | error (errno : Errno)
deriving DecidableEq, Repr

def ReadResult.map {α β : Type*} (change : α → β) : ReadResult α → ReadResult β
  | .data bytes => .data (bytes.map change)
  | .error errno => .error errno

/-- The two ways in which a program ends itself on an error. -/
inductive Halt where
  | exit (message : String)
  | assertion (condition : String)
deriving DecidableEq, Repr

/-- The event bit of a descriptor which can be read. -/
def EPOLLIN : BitVec 32 := 1

/--
A memory cell holding one byte. The programs only move the bytes of a request, so
they are modelled over any kind of cell which a byte can be put into and read from.
-/
class Cell (α : Type u) where
  ofByte : Byte → α
  toByte : α → Byte
  toByte_ofByte : ∀ byte, toByte (ofByte byte) = byte

attribute [simp] Cell.toByte_ofByte

/-- The cells of the real machine. -/
instance : Cell Byte where
  ofByte byte := byte
  toByte byte := byte
  toByte_ofByte _ := rfl

@[simp]
theorem map_toByte_map_ofByte {α : Type u} [Cell α] (bytes : List Byte) :
    (bytes.map (Cell.ofByte : Byte → α)).map Cell.toByte = bytes := by
  simp [Function.comp_def]

end LoadBalance
