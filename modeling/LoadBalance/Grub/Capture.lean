import LoadBalance.Grub.Replay

/-!
# Which frames are replayed

The test which `main` of `my_grub.c` applies to a captured frame, and the region over
which its message loop then goes. The test computes the length of the TCP payload from
the total length of the IP packet and from the data offset; the loop starts behind a TCP
header without options whatever the data offset says, and it ends with the frame.
-/

namespace LoadBalance.Grub

/-- `buffer + 14`, behind the Ethernet header. -/
def iphead : ℤ := 14

/-- A number of two bytes in network order. -/
def bigEndian (memory : ℤ → Byte) (offset : ℤ) : ℤ :=
  (memory offset).toNat * 2 ^ 8 + (memory (offset + 1)).toNat

/-- `tcp_len`, what the IP packet holds behind its header of 20 bytes. -/
def tcpLen (memory : ℤ → Byte) : ℤ := bigEndian memory (iphead + 2) - 20

/-- `tcp_head_len_int`. -/
def tcpHeadLenInt (memory : ℤ → Byte) : ℤ := ((memory (iphead + 32)).toNat / 2 ^ 4 : ℕ) * 4

def someipLen (memory : ℤ → Byte) : ℤ := tcpLen memory - tcpHeadLenInt memory

/-- The test: not sent from a loopback address, an IP header of 20 bytes, a payload, and the
port of the service. -/
def Accepts (memory : ℤ → Byte) : Prop :=
  (memory (iphead + 12)).toNat ≠ 127 ∧
    (memory iphead = 0x45 ∧ 0 < someipLen memory ∧ bigEndian memory (iphead + 22) = 9527)

instance (memory : ℤ → Byte) : Decidable (Accepts memory) :=
  inferInstanceAs (Decidable (_ ∧ _ ∧ _ ∧ _))

/-- The start and the bound of the message loop for a frame of `n` bytes, if it is entered. -/
def walks (memory : ℤ → Byte) (n : ℤ) : Option (ℤ × ℤ) :=
  if Accepts memory then some (Replay.start.cur, n) else none

/-- The fields of a frame with an IP header of 20 bytes, by the formats of Ethernet, IP and
TCP. -/
structure Frame where
  protocol : ℕ
  totalLength : ℕ
  destinationPort : ℕ
  /-- The length of the TCP header, in words of four bytes. -/
  dataOffset : ℕ
deriving DecidableEq, Repr

def Frame.ofMemory (memory : ℤ → Byte) : Frame where
  protocol := (memory 23).toNat
  totalLength := (memory 16).toNat * 256 + (memory 17).toNat
  destinationPort := (memory 36).toNat * 256 + (memory 37).toNat
  dataOffset := (memory 46).toNat / 16

/-- The number which stands for TCP in an IP header. -/
def tcpProtocol : ℕ := 6

namespace Frame

def payloadStart (frame : Frame) : ℤ := 14 + 20 + 4 * frame.dataOffset

/-- The end of the IP packet; what follows in the frame is padding. -/
def payloadEnd (frame : Frame) : ℤ := 14 + frame.totalLength

/-- A TCP segment for the service which has a payload. -/
structure ForService (frame : Frame) : Prop where
  protocol : frame.protocol = tcpProtocol
  port : frame.destinationPort = 9527
  nonempty : frame.payloadStart < frame.payloadEnd

end Frame

/-- The loop is entered for segments of the service only, and then it goes over the payload. -/
def ReplaysPayload (memory : ℤ → Byte) (n : ℤ) : Prop :=
  ∀ first last, walks memory n = some (first, last) →
    (Frame.ofMemory memory).ForService ∧
      first = (Frame.ofMemory memory).payloadStart ∧ last = (Frame.ofMemory memory).payloadEnd

variable {memory : ℤ → Byte}

theorem someipLen_eq (memory : ℤ → Byte) :
    someipLen memory =
      (Frame.ofMemory memory).payloadEnd - (Frame.ofMemory memory).payloadStart := by
  simp only [someipLen, tcpLen, tcpHeadLenInt, bigEndian, iphead, Frame.payloadEnd,
    Frame.payloadStart, Frame.ofMemory]
  norm_num
  ring

theorem port_of_accepts (accepts : Accepts memory) :
    (Frame.ofMemory memory).destinationPort = 9527 := by
  have port := accepts.2.2.2
  simp only [bigEndian, iphead] at port
  norm_num at port
  simp only [Frame.ofMemory]
  omega

theorem nonempty_of_accepts (accepts : Accepts memory) :
    (Frame.ofMemory memory).payloadStart < (Frame.ofMemory memory).payloadEnd := by
  have positive := accepts.2.2.1
  rw [someipLen_eq] at positive
  omega

/--
For every frame, only TCP payload for the service is replayed, and all of it, if and only
if the frame does not pass the test, or is a TCP segment without options and without
padding behind it.
-/
theorem replaysPayload_iff (memory : ℤ → Byte) (n : ℤ) :
    ReplaysPayload memory n ↔
      (Accepts memory → (Frame.ofMemory memory).protocol = tcpProtocol ∧
        (Frame.ofMemory memory).dataOffset = 5 ∧
        n = 14 + (Frame.ofMemory memory).totalLength) := by
  constructor
  · intro replays accepts
    have entered : walks memory n = some (firstMessage, n) := if_pos accepts
    rcases replays _ _ entered with ⟨service, first, last⟩
    refine ⟨service.protocol, ?_, last⟩
    simp only [firstMessage, Frame.payloadStart] at first
    omega
  · intro plain first last entered
    by_cases accepts : Accepts memory
    · rcases plain accepts with ⟨protocol, dataOffset, whole⟩
      rw [walks, if_pos accepts, Option.some.injEq, Prod.mk.injEq] at entered
      rcases entered with ⟨rfl, rfl⟩
      refine ⟨⟨protocol, port_of_accepts accepts, nonempty_of_accepts accepts⟩, ?_, whole⟩
      simp only [Replay.start, firstMessage, Frame.payloadStart]
      omega
    · rw [walks, if_neg accepts] at entered
      cases entered

/-- A frame with the given protocol and data offset, for port 9527, from 10.0.0.1. -/
def sampleFrame (protocol dataOffset totalLength : ℕ) (offset : ℤ) : Byte :=
  let bytes : List Byte :=
    List.replicate 14 0 ++
    [0x45, 0, BitVec.ofNat 8 (totalLength / 256), BitVec.ofNat 8 totalLength, 0, 0, 0, 0, 64,
      BitVec.ofNat 8 protocol, 0, 0, 10, 0, 0, 1, 10, 0, 0, 2] ++
    [0x9c, 0x40, 0x25, 0x37, 0, 0, 0, 0, 0, 0, 0, 0, BitVec.ofNat 8 (dataOffset * 16)]
  bytes.getD offset.toNat 0

/-- A segment with the timestamp option, as is usual: the loop starts in the options. -/
theorem not_replaysPayload_of_options :
    (Frame.ofMemory (sampleFrame 6 8 68)).protocol = tcpProtocol ∧
      Accepts (sampleFrame 6 8 68) ∧ walks (sampleFrame 6 8 68) 82 = some (54, 82) ∧
      (Frame.ofMemory (sampleFrame 6 8 68)).payloadStart = 66 ∧
      ¬ReplaysPayload (sampleFrame 6 8 68) 82 := by
  have accepts : Accepts (sampleFrame 6 8 68) := by decide +kernel
  refine ⟨by decide +kernel, accepts, if_pos accepts, by decide +kernel, ?_⟩
  intro replays
  have first := (replays _ _ (if_pos accepts)).2.1
  exact absurd first (by decide +kernel)

end LoadBalance.Grub
