import LoadBalance.Posix

/-!
# The message between distributor and inner server

`struct message` is an `int` followed by 16 characters. Both programs address it by
its fields and also as 20 raw bytes, so its value here is the memory image.
-/

universe u

namespace LoadBalance

/-- The size of `struct message`. -/
def messLen : ℕ := 20

/-- The size of a request and of a reply of the outer protocol. -/
def normalLen : ℕ := 16

/-- The size of the field `fd`, and the offset of the field `m`. -/
def fdLen : ℕ := 4

/-- A variable of type `struct message`. -/
@[ext]
structure Message (α : Type u) where
  bytes : List α
  length_bytes : bytes.length = messLen
deriving DecidableEq

/-- An array of 16 characters with an initialiser for the first: the others are zero. -/
def charArray {α : Type u} [Cell α] (first : Byte) : List α :=
  Cell.ofByte first :: List.replicate (normalLen - 1) (Cell.ofByte 0)

/-- `correct_res`, which starts with the character `a`. -/
def correctRes {α : Type u} [Cell α] : List α := charArray 0x61

/-- `err_res`, which starts with the character `b`. -/
def errRes {α : Type u} [Cell α] : List α := charArray 0x62

/-- The bytes of an `int` holding a descriptor. -/
def fdBytes {α : Type u} [Cell α] (fd : Fd) : List α :=
  (LittleEndian.encode fdLen fd.toNat).map Cell.ofByte

/-- The descriptor whose bytes stand at the start of a memory image. -/
def loadFd {α : Type u} [Cell α] (bytes : List α) : Fd :=
  LittleEndian.word 32 ((bytes.take fdLen).map Cell.toByte)

namespace Message

variable {α : Type u}

/-- Overwrite the bytes from an offset on, as `read` and `memcpy` do. -/
def store (mess : Message α) (offset : ℕ) (data : List α) : Message α where
  bytes := (mess.bytes.take offset ++ data ++ mess.bytes.drop (offset + data.length)).take messLen
  length_bytes := by
    have size := mess.length_bytes
    simp only [List.length_take, List.length_append, List.length_drop, size]
    omega

variable [Cell α]

def zero : Message α where
  bytes := List.replicate messLen (Cell.ofByte 0)
  length_bytes := List.length_replicate

/-- A message which is the same constant in every kind of cell. -/
def ofBytes (mess : Message Byte) : Message α where
  bytes := mess.bytes.map Cell.ofByte
  length_bytes := by rw [List.length_map, mess.length_bytes]

def fd (mess : Message α) : Fd := loadFd mess.bytes

def setFd (mess : Message α) (fd : Fd) : Message α := mess.store 0 (fdBytes fd)

end Message

variable {α : Type u}

@[simp]
theorem length_charArray [Cell α] (first : Byte) :
    (charArray first : List α).length = normalLen := by
  simp [charArray, normalLen]

@[simp]
theorem length_correctRes [Cell α] : (correctRes : List α).length = normalLen := by
  simp [correctRes]

@[simp]
theorem length_errRes [Cell α] : (errRes : List α).length = normalLen := by simp [errRes]

@[simp]
theorem length_fdBytes [Cell α] (fd : Fd) : (fdBytes fd : List α).length = fdLen := by
  simp [fdBytes]

@[simp]
theorem loadFd_fdBytes_append [Cell α] (fd : Fd) (rest : List α) :
    loadFd (fdBytes fd ++ rest) = fd := by
  have taken : (fdBytes fd ++ rest).take fdLen = fdBytes fd := List.take_left' (length_fdBytes fd)
  rw [loadFd, taken, fdBytes, map_toByte_map_ofByte]
  exact @LittleEndian.word_encode 4 fd

/-- Four bytes are determined by the descriptor they stand for. -/
theorem map_toByte_eq_of_loadFd [Cell α] {first second : List α}
    (firstLength : fdLen ≤ first.length) (secondLength : fdLen ≤ second.length)
    (equal : loadFd first = loadFd second) :
    (first.take fdLen).map Cell.toByte = (second.take fdLen).map Cell.toByte := by
  apply @LittleEndian.word_injective fdLen
  · simpa using firstLength
  · simpa using secondLength
  · exact equal

theorem correctRes_ne_errRes [Cell α] : (correctRes : List α) ≠ errRes := by
  intro equal
  have firsts := congrArg (fun cells => cells.map Cell.toByte) equal
  simp [correctRes, errRes, charArray] at firsts

namespace Message

theorem bytes_store (mess : Message α) (offset : ℕ) (data : List α) :
    (mess.store offset data).bytes =
      (mess.bytes.take offset ++ data ++ mess.bytes.drop (offset + data.length)).take messLen := rfl

theorem bytes_store_whole (mess : Message α) {data : List α} (whole : data.length = messLen) :
    (mess.store 0 data).bytes = data := by
  have size := mess.length_bytes
  simp only [bytes_store, List.take_zero, List.nil_append, Nat.zero_add, whole]
  rw [List.drop_of_length_le (by omega), List.append_nil, List.take_of_length_le (by omega)]

theorem bytes_setFd_store [Cell α] (mess : Message α) (fd : Fd) {buf : List α}
    (whole : buf.length = normalLen) :
    ((mess.setFd fd).store fdLen buf).bytes = fdBytes fd ++ buf := by
  have size := mess.length_bytes
  have image : (fdBytes fd : List α).length = fdLen := length_fdBytes fd
  have fields : fdLen + normalLen = messLen := rfl
  have first : (mess.setFd fd).bytes.take fdLen = fdBytes fd := by
    have inside : fdLen ≤ messLen := by decide
    simp only [setFd, bytes_store, List.take_zero, List.nil_append, List.take_take,
      min_eq_left inside]
    exact List.take_left' image
  have last : (mess.setFd fd).bytes.drop (fdLen + buf.length) = [] := by
    apply List.drop_of_length_le
    rw [(mess.setFd fd).length_bytes]
    omega
  rw [bytes_store, first, last, List.append_nil]
  apply List.take_of_length_le
  rw [List.length_append]
  omega

theorem fd_eq_of_bytes [Cell α] {mess : Message α} {fd : Fd} {rest : List α}
    (image : mess.bytes = fdBytes fd ++ rest) : mess.fd = fd := by
  rw [Message.fd, image, loadFd_fdBytes_append]

end Message

end LoadBalance
