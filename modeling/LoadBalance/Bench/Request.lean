import Mathlib.Data.List.GetD
import LoadBalance.Bench.Core

/-!
# The request of the benchmark

`build_request` puts the header of a SOME/IP message together in `request`. It writes
through `cur`, which is a pointer to numbers of 16 bits and stays one: the cast to `char *`
does not change the type of the variable. So the four fields of one byte at the end of the
header are written as two bytes each. The machine is little-endian.
-/

namespace LoadBalance.Bench

/-- The ids and the type of the message, as the command line gives them. -/
structure Parameters where
  serviceId : BitVec 16
  methodId : BitVec 16
  clientId : BitVec 16
  sessionId : BitVec 16
  messageType : BitVec 8
deriving DecidableEq, Repr

/-- `REQUEST_SIZE` -/
def Program.requestSize : Program → ℕ
  | .testBench => 16
  | .someipBench => 2048

/-- What a number of 16 bits looks like in memory. -/
def image (value : BitVec 16) : List Byte := LittleEndian.encode 2 value.toNat

/-- `htons`, on a little-endian machine -/
def htons (value : BitVec 16) : BitVec 16 := LittleEndian.word 16 (image value).reverse

/-- The memory from `request` on, and `cur` in it, with the offsets which have been written
through `cur`. -/
structure Cursor where
  memory : ℕ → Byte
  cur : ℕ
  written : List ℕ

/-- `*cur++ = value` -/
def Cursor.put (cursor : Cursor) (value : BitVec 16) : Cursor where
  memory offset :=
    if offset < cursor.cur then cursor.memory offset
    else (image value).getD (offset - cursor.cur) (cursor.memory offset)
  cur := cursor.cur + 2
  written := cursor.written ++ [cursor.cur, cursor.cur + 1]

/-- The part of `build_request` which builds the header, from what memory holds before. -/
def buildHeader (program : Program) (memory : ℕ → Byte) (parameters : Parameters) : Cursor :=
  let serviceId := htons parameters.serviceId
  let methodId := htons parameters.methodId
  let clientId := htons parameters.clientId
  let sessionId := htons parameters.sessionId
  let cursor : Cursor :=
    { memory := fun offset => if offset < program.requestSize then 0 else memory offset
      cur := 0
      written := [] }
  let cursor := cursor.put serviceId
  let cursor := cursor.put methodId
  let cursor := cursor.put (htons 0)
  let cursor := cursor.put (htons 8)
  let cursor := cursor.put clientId
  let cursor := cursor.put sessionId
  let cursor := cursor.put 1
  let cursor := cursor.put 1
  let cursor := cursor.put (parameters.messageType.setWidth 16)
  cursor.put 0

/-- The header of a message, by the format of SOME/IP. -/
structure Header where
  serviceId : ℕ
  methodId : ℕ
  length : ℕ
  clientId : ℕ
  sessionId : ℕ
  protocolVersion : ℕ
  interfaceVersion : ℕ
  messageType : ℕ
  returnCode : ℕ
deriving DecidableEq, Repr

/-- The number in some bytes in network order. -/
def field (bytes : List Byte) (offset count : ℕ) : ℕ :=
  LittleEndian.decode ((bytes.drop offset).take count).reverse

def Header.ofBytes (bytes : List Byte) : Header where
  serviceId := field bytes 0 2
  methodId := field bytes 2 2
  length := field bytes 4 4
  clientId := field bytes 8 2
  sessionId := field bytes 10 2
  protocolVersion := field bytes 12 1
  interfaceVersion := field bytes 13 1
  messageType := field bytes 14 1
  returnCode := field bytes 15 1

/-- The header of a request without payload. -/
def Parameters.header (parameters : Parameters) : Header where
  serviceId := parameters.serviceId.toNat
  methodId := parameters.methodId.toNat
  length := 8
  clientId := parameters.clientId.toNat
  sessionId := parameters.sessionId.toNat
  protocolVersion := 1
  interfaceVersion := 1
  messageType := parameters.messageType.toNat
  returnCode := 0

/-- What is sent to the server. -/
def request (program : Program) (memory : ℕ → Byte) (parameters : Parameters) : List Byte :=
  (List.range rlen).map (buildHeader program memory parameters).memory

/-- The header is written into the first 16 bytes only, it is right, and it is one of these
parameters only. -/
structure EncodesHeader (program : Program) (memory : ℕ → Byte) (parameters : Parameters) :
    Prop where
  inside : ∀ offset ∈ (buildHeader program memory parameters).written, offset < 16
  decodes : Header.ofBytes (request program memory parameters) = parameters.header
  distinct : ∀ other, other ≠ parameters →
    request program memory other ≠ request program memory parameters

section Cursor

@[simp]
theorem length_image (value : BitVec 16) : (image value).length = 2 :=
  LittleEndian.length_encode 2 value.toNat

theorem image_htons (value : BitVec 16) : image (htons value) = (image value).reverse := by
  have whole : (image value).reverse.length = 2 := by simp
  have small := LittleEndian.decode_lt (image value).reverse
  rw [whole] at small
  have stored : (htons value).toNat = LittleEndian.decode (image value).reverse := by
    rw [htons, LittleEndian.word, BitVec.toNat_ofNat]
    exact Nat.mod_eq_of_lt small
  rw [image, stored]
  exact whole ▸ LittleEndian.encode_decode (image value).reverse

/-- The bytes which are written one after the other, each number as it lies in memory. -/
def images (values : List (BitVec 16)) : List Byte := values.flatMap image

/-- Some numbers in a row: they are found from where `cur` was, and the memory in front of them
and behind them is as before. -/
theorem memory_foldl_put (values : List (BitVec 16)) (cursor : Cursor) (offset : ℕ) :
    (values.foldl Cursor.put cursor).memory offset =
      if offset < cursor.cur then cursor.memory offset
      else (images values).getD (offset - cursor.cur) (cursor.memory offset) := by
  induction values generalizing cursor with
  | nil => simp [images]
  | cons value values ih =>
      have length := length_image value
      have first : images (value :: values) = image value ++ images values := rfl
      have moved : (cursor.put value).cur = cursor.cur + 2 := rfl
      have stored : (cursor.put value).memory offset = if offset < cursor.cur
          then cursor.memory offset
          else (image value).getD (offset - cursor.cur) (cursor.memory offset) := rfl
      rw [List.foldl_cons, ih, moved, stored, first]
      by_cases before : offset < cursor.cur
      · rw [if_pos (by omega), if_pos before, if_pos before]
      · rw [if_neg before, if_neg before]
        by_cases here : offset < cursor.cur + 2
        · rw [if_pos here, List.getD_append _ _ _ _ (by omega)]
        · rw [if_neg here, List.getD_append_right _ _ _ _ (by omega),
            List.getD_eq_default (image value) _ (by omega)]
          congr 1

theorem written_foldl_put (values : List (BitVec 16)) (cursor : Cursor) :
    (values.foldl Cursor.put cursor).written =
      cursor.written ++ List.range' cursor.cur (2 * values.length) := by
  induction values generalizing cursor with
  | nil => simp
  | cons value values ih =>
      rw [List.foldl_cons, ih, List.length_cons, Nat.mul_succ, Nat.add_comm _ 2]
      simp [Cursor.put, List.range'_succ, Nat.add_comm 2]

end Cursor

section Header

variable {program : Program} {memory : ℕ → Byte} {parameters other : Parameters}

/-- What is written, in the order of the assignments. -/
def Parameters.assigned (parameters : Parameters) : List (BitVec 16) :=
  [htons parameters.serviceId, htons parameters.methodId, htons 0, htons 8,
    htons parameters.clientId, htons parameters.sessionId, 1, 1,
    parameters.messageType.setWidth 16, 0]

/-- The high and the low byte of a number. -/
def network (value : BitVec 16) : List Byte := (image value).reverse

theorem images_assigned (parameters : Parameters) :
    images parameters.assigned =
      network parameters.serviceId ++ network parameters.methodId ++ [0, 0, 0, 8] ++
        network parameters.clientId ++ network parameters.sessionId ++ [1, 0, 1, 0] ++
        (image (parameters.messageType.setWidth 16) ++ [0, 0]) := by
  simp only [images, Parameters.assigned, List.flatMap_cons, List.flatMap_nil, image_htons, network]
  simp only [List.append_assoc]
  rfl

/-- The type of the message and the return code do not come into the request. -/
theorem request_eq (program : Program) (memory : ℕ → Byte) (parameters : Parameters) :
    request program memory parameters =
      network parameters.serviceId ++ network parameters.methodId ++ [0, 0, 0, 8] ++
        network parameters.clientId ++ network parameters.sessionId ++ [1, 0, 1, 0] := by
  have built : (buildHeader program memory parameters).memory = fun offset =>
      (images parameters.assigned).getD offset
        (if offset < program.requestSize then 0 else memory offset) := by
    funext offset
    exact memory_foldl_put parameters.assigned _ offset
  rw [request, built, images_assigned]
  rfl

theorem field_network (value : BitVec 16) : LittleEndian.decode (network value).reverse =
    value.toNat := by
  rw [network, List.reverse_reverse, image, LittleEndian.decode_encode]
  exact Nat.mod_eq_of_lt value.isLt

/-- The header which the server reads: the ids and the length are right. -/
theorem ofBytes_request (program : Program) (memory : ℕ → Byte) (parameters : Parameters) :
    Header.ofBytes (request program memory parameters) =
      { parameters.header with interfaceVersion := 0, messageType := 1 } := by
  have service := field_network parameters.serviceId
  have method := field_network parameters.methodId
  have client := field_network parameters.clientId
  have session := field_network parameters.sessionId
  rw [request_eq]
  simp only [Parameters.header, ← service, ← method, ← client, ← session]
  rfl

theorem written_eq (program : Program) (memory : ℕ → Byte) (parameters : Parameters) :
    (buildHeader program memory parameters).written = List.range 20 :=
  written_foldl_put parameters.assigned _

theorem not_inside (program : Program) (memory : ℕ → Byte) (parameters : Parameters) :
    ¬∀ offset ∈ (buildHeader program memory parameters).written, offset < 16 := by
  intro inside
  rw [written_eq] at inside
  exact absurd (inside 16 (by decide)) (by decide)

theorem not_distinct (program : Program) (memory : ℕ → Byte) (parameters : Parameters) :
    ∃ other, other ≠ parameters ∧
      request program memory other = request program memory parameters := by
  refine ⟨{ parameters with messageType := parameters.messageType + 1 }, ?_, ?_⟩
  · intro equal
    have types := congrArg Parameters.messageType equal
    simp at types
  · rw [request_eq, request_eq]

/--
For all ids and message types, the header is wrong in every respect: `build_request` writes
20 bytes, the interface version is 0 and the message type 1 in what is sent, and the
message type which was asked for does not come into it.
-/
theorem not_encodesHeader (program : Program) (memory : ℕ → Byte) (parameters : Parameters) :
    ¬EncodesHeader program memory parameters ∧
      (buildHeader program memory parameters).written = List.range 20 ∧
      Header.ofBytes (request program memory parameters) =
        { parameters.header with interfaceVersion := 0, messageType := 1 } ∧
      ∃ other, other ≠ parameters ∧
        request program memory other = request program memory parameters := by
  refine ⟨?_, written_eq program memory parameters, ofBytes_request program memory parameters,
    not_distinct program memory parameters⟩
  intro encodes
  exact not_inside program memory parameters encodes.inside

/-- The ids which the program has without options: two bytes are written behind an array of
16, and a server reads interface version 0. -/
theorem not_encodesHeader_default :
    request .testBench (fun _ => 0xFF) ⟨1, 2, 3, 4, 1⟩ =
        [0, 1, 0, 2, 0, 0, 0, 8, 0, 3, 0, 4, 1, 0, 1, 0] ∧
      (buildHeader .testBench (fun _ => 0xFF) ⟨1, 2, 3, 4, 1⟩).memory 16 = 1 ∧
      (buildHeader .testBench (fun _ => 0xFF) ⟨1, 2, 3, 4, 1⟩).memory 17 = 0 ∧
      ¬EncodesHeader .testBench (fun _ => 0xFF) ⟨1, 2, 3, 4, 1⟩ := by
  refine ⟨by decide +kernel, by decide +kernel, by decide +kernel, ?_⟩
  intro encodes
  exact not_inside .testBench (fun _ => 0xFF) ⟨1, 2, 3, 4, 1⟩ encodes.inside

end Header

end LoadBalance.Bench
