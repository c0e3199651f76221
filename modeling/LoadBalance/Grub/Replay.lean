import LoadBalance.Lib.Machine
import LoadBalance.Posix

/-!
# The replay of captured messages

The loop over the SOME/IP messages of a captured frame in `main` of `my_grub.c`. The
frame lies at the start of `buffer`, and what the loop finds outside of the frame is
left open; addresses are offsets from `buffer`. A `char` is signed, so the length of a
message is the sum of two signed bytes.
-/

namespace LoadBalance.Grub

/-- The offset of the first message: Ethernet, IP and TCP header without options. -/
def firstMessage : ℤ := 54

def bufferLen : ℕ := 2048

/-- The bytes of a message which its length field does not count. -/
def headerLen : ℕ := 8

/-- What `write` returns: the number of bytes it has taken, or -1. -/
inductive WriteResult where
  | count (writen : ℕ)
  | error (errno : Errno)
deriving DecidableEq, Repr

/-- A call of `write` on `fd`. -/
structure Write where
  offset : ℤ
  count : ℤ
  ret : WriteResult
deriving DecidableEq

/-- Whether the loop goes on, has been left on `EAGAIN`, or has ended the process. -/
inductive Flow where
  | running
  | again
  | exited
deriving DecidableEq, Repr

structure Replay where
  cur : ℤ
  writes : List Write
  flow : Flow
deriving DecidableEq

def Replay.start : Replay where
  cur := firstMessage
  writes := []
  flow := .running

/-- `length_int`, for the message at `cur`. -/
def lengthInt (memory : ℤ → Byte) (cur : ℤ) : ℤ :=
  (memory (cur + 6)).toInt * 2 ^ 8 + (memory (cur + 7)).toInt

/-- One iteration of the loop over a frame of `n` bytes, for the result of its `write`. -/
def Replay.step (memory : ℤ → Byte) (n : ℤ) (replay : Replay) (ret : WriteResult) :
    Option Replay :=
  if replay.flow = .running ∧ replay.cur < n then
    let count := headerLen + lengthInt memory replay.cur
    let writes := replay.writes ++ [⟨replay.cur, count, ret⟩]
    match ret with
    | .count _ => some ⟨replay.cur + count, writes, .running⟩
    | .error errno =>
        if errno = .eagain then some ⟨replay.cur, writes, .again⟩
        else some ⟨replay.cur, writes, .exited⟩
  else none

section Memory

/-- The given bytes lie in memory from an offset on. -/
def Holds (memory : ℤ → Byte) (offset : ℤ) (bytes : List Byte) : Prop :=
  ∀ (index : ℕ) (byte : Byte), bytes[index]? = some byte → memory (offset + index) = byte

def load (memory : ℤ → Byte) (offset : ℤ) (count : ℕ) : List Byte :=
  (List.range count).map fun index : ℕ => memory (offset + index)

def Write.data (memory : ℤ → Byte) (write : Write) : List Byte :=
  load memory write.offset write.count.toNat

variable {memory : ℤ → Byte} {offset : ℤ}

@[simp]
theorem length_load (count : ℕ) : (load memory offset count).length = count := by
  simp [load]

theorem load_of_holds {bytes : List Byte} (held : Holds memory offset bytes) :
    load memory offset bytes.length = bytes := by
  apply List.ext_getElem
  · exact length_load bytes.length
  · intro index _ inside
    simp only [load, List.getElem_map, List.getElem_range]
    exact held index bytes[index] (List.getElem?_eq_getElem inside)

theorem holds_append {first second : List Byte} (held : Holds memory offset (first ++ second)) :
    Holds memory offset first ∧ Holds memory (offset + first.length) second := by
  constructor
  · intro index byte found
    apply held index byte
    rw [List.getElem?_append_left (List.getElem?_eq_some_iff.mp found).choose, found]
  · intro index byte found
    have shifted := held (first.length + index) byte (by
      rw [List.getElem?_append_right (by omega), Nat.add_sub_cancel_left, found])
    rw [← shifted]
    congr 1
    push_cast
    ring

end Memory

end LoadBalance.Grub
