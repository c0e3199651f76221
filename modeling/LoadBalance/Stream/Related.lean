import LoadBalance.Distributor.LoopBody
import LoadBalance.Stream.Line

/-!
# Runs over related memory

The programs move the bytes of a request and never look at them, so a run over one kind
of cell is followed by a run over any other, cell by cell, as long as constants are
stored alike. Only the reply branch looks at bytes which it has read: it takes four of
them for a descriptor, and there the two runs must agree.
-/

universe u v

namespace LoadBalance.Stream

open Distributor (Thread Answers Call loopBody)

variable {servers : ℕ} {α : Type u} {β : Type v} [Cell α] [Cell β]

/-- The same constant, stored in two kinds of cells, gives related cells. -/
def KeepsConstants (rel : α → β → Prop) : Prop :=
  ∀ byte, rel (Cell.ofByte byte) (Cell.ofByte byte)

theorem map_toByte_eq {rel : α → β → Prop} {cells : List α} {cells' : List β}
    (related : List.Forall₂ rel cells cells')
    (agree : ∀ cell ∈ cells, ∀ cell', rel cell cell' → Cell.toByte cell = Cell.toByte cell') :
    cells.map Cell.toByte = cells'.map Cell.toByte := by
  induction related with
  | nil => rfl
  | cons head _ ih =>
      rw [List.forall_mem_cons] at agree
      rw [List.map_cons, List.map_cons, agree.1 _ head, ih agree.2]

section Values

variable (rel : α → β → Prop)

/-- The same result of a `read`, up to the cells. -/
inductive ReadRelated : ReadResult α → ReadResult β → Prop where
  | data {bytes : List α} {bytes' : List β} (cells : List.Forall₂ rel bytes bytes') :
      ReadRelated (.data bytes) (.data bytes')
  | error (errno : Errno) : ReadRelated (.error errno) (.error errno)

structure AnswersRelated (answers : Answers servers α) (answers' : Answers servers β) : Prop where
  accepted : answers.accepted = answers'.accepted
  acceptErrno : answers.acceptErrno = answers'.acceptErrno
  readn : ReadRelated rel answers.readn answers'.readn
  index : answers.index = answers'.index
  writen : answers.writen = answers'.writen

structure ThreadRelated (thread : Thread servers α) (thread' : Thread servers β) : Prop where
  tables : thread.tables = thread'.tables
  interest : thread.interest = thread'.interest
  mess : List.Forall₂ rel thread.mess.bytes thread'.mess.bytes

inductive CallRelated : Call α → Call β → Prop where
  | write (fd : Fd) {data : List α} {data' : List β} (cells : List.Forall₂ rel data data') :
      CallRelated (.write fd data) (.write fd data')
  | close (fd : Fd) : CallRelated (.close fd) (.close fd)

inductive ResultRelated : Except Halt (Thread servers α × List (Call α)) →
    Except Halt (Thread servers β × List (Call β)) → Prop where
  | error (halt : Halt) : ResultRelated (.error halt) (.error halt)
  | ok {thread : Thread servers α} {thread' : Thread servers β} {calls : List (Call α)}
      {calls' : List (Call β)} (threads : ThreadRelated rel thread thread')
      (callsRelated : List.Forall₂ (CallRelated rel) calls calls') :
      ResultRelated (.ok (thread, calls)) (.ok (thread', calls'))

end Values

section Messages

variable {rel : α → β → Prop}

omit [Cell α] [Cell β] in
theorem store_related {mess : Message α} {mess' : Message β} {data : List α} {data' : List β}
    (messes : List.Forall₂ rel mess.bytes mess'.bytes) (cells : List.Forall₂ rel data data')
    (offset : ℕ) :
    List.Forall₂ rel (mess.store offset data).bytes (mess'.store offset data').bytes := by
  rw [Message.bytes_store, Message.bytes_store, cells.length_eq]
  apply List.forall₂_take
  apply List.rel_append
  · exact List.rel_append (List.forall₂_take offset messes) cells
  · exact List.forall₂_drop _ messes

theorem constants_related (keeps : KeepsConstants rel) (bytes : List Byte) :
    List.Forall₂ rel (bytes.map Cell.ofByte) (bytes.map Cell.ofByte) := by
  rw [List.forall₂_map_left_iff, List.forall₂_map_right_iff, List.forall₂_same]
  exact fun byte _ => keeps byte

theorem charArray_related (keeps : KeepsConstants rel) (first : Byte) :
    List.Forall₂ rel (charArray first) (charArray first) := by
  have constants := constants_related keeps (first :: List.replicate (normalLen - 1) 0)
  simpa [charArray] using constants

theorem setFd_related (keeps : KeepsConstants rel) {mess : Message α} {mess' : Message β}
    (messes : List.Forall₂ rel mess.bytes mess'.bytes) (fd : Fd) :
    List.Forall₂ rel (mess.setFd fd).bytes (mess'.setFd fd).bytes :=
  store_related messes (constants_related keeps _) 0

end Messages

section Branches

variable {rel : α → β → Prop} {thread : Thread servers α} {thread' : Thread servers β}
  {answers : Answers servers α} {answers' : Answers servers β}

omit [Cell α] [Cell β] in
theorem closeConnect_related (threads : ThreadRelated rel thread thread') (fd : Fd) :
    ResultRelated rel (Distributor.closeConnect thread fd)
      (Distributor.closeConnect thread' fd) := by
  simp only [Distributor.closeConnect, ← threads.interest]
  split
  · refine .ok ⟨threads.tables, rfl, threads.mess⟩ (.cons (.close fd) .nil)
  · exact .error _

theorem errRes_related (keeps : KeepsConstants rel) (threads : ThreadRelated rel thread thread')
    (fd : Fd) :
    ResultRelated rel (.ok (thread, [.write fd errRes])) (.ok (thread', [.write fd errRes])) :=
  .ok threads (.cons (.write fd (charArray_related keeps _)) .nil)

theorem requestBranch_related (keeps : KeepsConstants rel)
    (threads : ThreadRelated rel thread thread') (answered : AnswersRelated rel answers answers')
    (fd : Fd) :
    ResultRelated rel (Distributor.requestBranch thread fd answers)
      (Distributor.requestBranch thread' fd answers') := by
  have readn := answered.readn
  have selected : Distributor.getCurSelectedServerFd thread answers.index =
      Distributor.getCurSelectedServerFd thread' answers'.index := by
    have inner := congrArg (fun tables => tables.2.2) threads.tables
    rw [answered.index]
    exact congrArg (fun inner => (inner answers'.index).1) inner
  simp only [Distributor.requestBranch]
  generalize answers.readn = read at readn
  generalize answers'.readn = read' at readn
  cases readn with
  | error errno =>
      simp only
      split
      · exact closeConnect_related threads fd
      · exact errRes_related keeps threads fd
  | @data buf buf' cells =>
      have sameLength := cells.length_eq
      have sameEmpty : buf = [] ↔ buf' = [] := by
        rw [← List.length_eq_zero_iff, sameLength, List.length_eq_zero_iff]
      simp only [sameEmpty, sameLength]
      split
      · exact closeConnect_related threads fd
      · split
        · have messes := store_related (setFd_related keeps threads.mess fd) cells fdLen
          have forward : CallRelated rel
              (.write (Distributor.getCurSelectedServerFd thread answers.index)
                ((thread.mess.setFd fd).store fdLen buf).bytes)
              (.write (Distributor.getCurSelectedServerFd thread' answers'.index)
                ((thread'.mess.setFd fd).store fdLen buf').bytes) := by
            rw [selected]
            exact .write _ messes
          rw [answered.writen]
          refine .ok ⟨threads.tables, threads.interest, messes⟩ ?_
          split
          · exact .cons forward (.cons (.write fd (charArray_related keeps _)) .nil)
          · exact .cons forward .nil
        · exact errRes_related keeps threads fd

/-- The reply branch does the same with the same descriptor in `mess`. -/
theorem replyBranch_related (keeps : KeepsConstants rel)
    (threads : ThreadRelated rel thread thread') {bytes : List α} {bytes' : List β}
    (cells : List.Forall₂ rel bytes bytes') (readn : answers.readn = .data bytes)
    (readn' : answers'.readn = .data bytes')
    (sameFd : (thread.mess.store 0 bytes).fd = (thread'.mess.store 0 bytes').fd) :
    ResultRelated rel (Distributor.replyBranch thread answers)
      (Distributor.replyBranch thread' answers') := by
  have sameLength := cells.length_eq
  have sameEmpty : bytes = [] ↔ bytes' = [] := by
    rw [← List.length_eq_zero_iff, sameLength, List.length_eq_zero_iff]
  have messes := store_related threads.mess cells 0
  simp only [Distributor.replyBranch, readn, readn', sameEmpty, sameLength, sameFd]
  split
  · exact .error _
  · split
    · refine .ok ⟨threads.tables, threads.interest, messes⟩ (.cons (.write _ ?_) .nil)
      split
      · exact charArray_related keeps _
      · exact charArray_related keeps _
    · exact .error _

theorem loopBody_related_listen (threads : ThreadRelated rel thread thread')
    (answered : AnswersRelated rel answers answers') {fd : Fd} {events : BitVec 32}
    (listening : fd = thread.listenFdOuter) :
    ResultRelated rel (loopBody thread fd events answers)
      (loopBody thread' fd events answers') := by
  have listening' : fd = thread'.listenFdOuter :=
    listening.trans (congrArg Prod.fst threads.tables)
  rw [loopBody, if_pos listening, loopBody, if_pos listening', ← threads.interest,
    ← answered.accepted, ← answered.acceptErrno]
  split
  · exact .error _
  · exact .ok ⟨threads.tables, rfl, threads.mess⟩ .nil

theorem loopBody_related_client (keeps : KeepsConstants rel)
    (threads : ThreadRelated rel thread thread') (answered : AnswersRelated rel answers answers')
    {fd : Fd} (notListening : fd ≠ thread.listenFdOuter) (notServer : fd ∉ thread.serverFdSet) :
    ResultRelated rel (loopBody thread fd EPOLLIN answers)
      (loopBody thread' fd EPOLLIN answers') := by
  have sameListening : thread.listenFdOuter = thread'.listenFdOuter :=
    congrArg Prod.fst threads.tables
  have sameSet : thread.serverFdSet = thread'.serverFdSet :=
    congrArg (fun tables => tables.2.1) threads.tables
  rw [Distributor.loopBody_client notListening Distributor.readable_EPOLLIN notServer,
    Distributor.loopBody_client (sameListening ▸ notListening) Distributor.readable_EPOLLIN
      (sameSet ▸ notServer)]
  exact requestBranch_related keeps threads answered fd

end Branches

end LoadBalance.Stream
