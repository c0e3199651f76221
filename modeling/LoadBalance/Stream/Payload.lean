import LoadBalance.Stream.Steering

/-!
# Requests do not steer the replies

The machine of the byte streams over marked bytes: a byte which comes out of a client's
`read` carries the mark, and everything the programs store themselves does not. Two runs
of the same shape agree wherever the mark is not set. As long as every reply is sent to a
positive descriptor without a marked byte, they write to the same descriptors; the first
reply which is not shows two runs which do not.
-/

universe u v

namespace LoadBalance.Stream.Steering

open Distributor (Thread Answers Call loopBody)
open Relay (Boot Obj)

/-- A byte with the mark of the clients' requests. -/
structure Marked where
  byte : Byte
  payload : Bool
deriving DecidableEq

/-- What the programs store is not marked. -/
instance : Cell Marked where
  ofByte byte := ⟨byte, false⟩
  toByte cell := cell.byte
  toByte_ofByte _ := rfl

variable {servers : ℕ}

/-- The same event with the cells of a request changed. -/
def Event.map {α : Type u} {β : Type v} (change : α → β) : Event servers α → Event servers β
  | .pass fd answers => .pass fd {
      accepted := answers.accepted
      acceptErrno := answers.acceptErrno
      readn := answers.readn.map change
      index := answers.index
      writen := answers.writen
    }
  | .reply server count moved => .reply server count moved
  | .serverRead server count => .serverRead server count
  | .serverWrite server count => .serverWrite server count

/-- The bytes of a request are marked when they are read. -/
def Event.mark : Event servers Byte → Event servers Marked := Event.map fun byte => ⟨byte, true⟩

/-- Two events which differ in the bytes of a request only. -/
def SameShape : Event servers Byte → Event servers Byte → Prop := EventRelated fun _ _ => True

namespace EventRelated

variable {α : Type u} {β : Type v} {event : Event servers α} {event' : Event servers β}

theorem refl {rel : α → α → Prop} (all : ∀ cell, rel cell cell) : EventRelated rel event event := by
  cases event with
  | pass fd answers =>
      refine .pass fd ⟨rfl, rfl, ?_, rfl, rfl⟩
      cases answers.readn with
      | data bytes => exact .data (List.forall₂_same.mpr fun cell _ => all cell)
      | error errno => exact .error errno
  | reply server count moved => exact .reply server count moved
  | serverRead server count => exact .serverRead server count
  | serverWrite server count => exact .serverWrite server count

theorem map_left {γ : Type*} {rel : γ → β → Prop} {change : α → γ}
    (related : EventRelated (fun cell cell' => rel (change cell) cell') event event') :
    EventRelated rel (event.map change) event' := by
  cases related with
  | @pass fd answers answers' answered =>
      refine .pass fd ⟨answered.accepted, answered.acceptErrno, ?_, answered.index, answered.writen⟩
      have readn := answered.readn
      generalize answers.readn = read at readn ⊢
      generalize answers'.readn = read' at readn ⊢
      cases readn with
      | data cells => exact .data (List.forall₂_map_left_iff.mpr cells)
      | error errno => exact .error errno
  | reply server count moved => exact .reply server count moved
  | serverRead server count => exact .serverRead server count
  | serverWrite server count => exact .serverWrite server count

theorem map_right {γ : Type*} {rel : α → γ → Prop} {change : β → γ}
    (related : EventRelated (fun cell cell' => rel cell (change cell')) event event') :
    EventRelated rel event (event'.map change) := by
  cases related with
  | @pass fd answers answers' answered =>
      refine .pass fd ⟨answered.accepted, answered.acceptErrno, ?_, answered.index, answered.writen⟩
      have readn := answered.readn
      generalize answers.readn = read at readn ⊢
      generalize answers'.readn = read' at readn ⊢
      cases readn with
      | data cells => exact .data (List.forall₂_map_right_iff.mpr cells)
      | error errno => exact .error errno
  | reply server count moved => exact .reply server count moved
  | serverRead server count => exact .serverRead server count
  | serverWrite server count => exact .serverWrite server count

theorem mono {rel weaker : α → β → Prop} (weaken : ∀ cell cell', rel cell cell' → weaker cell cell')
    (related : EventRelated rel event event') : EventRelated weaker event event' := by
  cases related with
  | @pass fd answers answers' answered =>
      refine .pass fd ⟨answered.accepted, answered.acceptErrno, ?_, answered.index, answered.writen⟩
      have readn := answered.readn
      generalize answers.readn = read at readn ⊢
      generalize answers'.readn = read' at readn ⊢
      cases readn with
      | data cells => exact .data (cells.imp weaken)
      | error errno => exact .error errno
  | reply server count moved => exact .reply server count moved
  | serverRead server count => exact .serverRead server count
  | serverWrite server count => exact .serverWrite server count

end EventRelated

namespace Streams

variable {boot : Boot servers} {garbage : Fin servers → Message Byte}

/-- A reply is sent to a positive descriptor which holds no byte of a request. -/
def NamesOwn (streams : Streams servers Marked) : Event servers Marked → Prop
  | .reply server count _ =>
      (∀ cell ∈ fdCells (streams.readReply server count), cell.payload = false) ∧
        0 < (streams.readReply server count).fd.toInt
  | _ => True

instance (streams : Streams servers Marked) : ∀ event, Decidable (streams.NamesOwn event)
  | .reply server count _ =>
      inferInstanceAs (Decidable ((∀ cell ∈ fdCells (streams.readReply server count),
        cell.payload = false) ∧ 0 < (streams.readReply server count).fd.toInt))
  | .pass _ _ => inferInstanceAs (Decidable True)
  | .serverRead _ _ => inferInstanceAs (Decidable True)
  | .serverWrite _ _ => inferInstanceAs (Decidable True)

/--
The requests do not steer the replies of a run: whatever the clients send in the same
shape, up to any point of the run the distributor writes to the same descriptors and its
assertion does not fail.
-/
def Steered (boot : Boot servers) (garbage : Fin servers → Message Byte)
    (events : List (Event servers Byte)) : Prop :=
  ∀ before, before <+: events → ∀ first second, List.Forall₂ SameShape before first →
    List.Forall₂ SameShape before second → ∀ final final',
      Machine.run (step boot) (start boot garbage) first = some final →
      Machine.run (step boot) (start boot garbage) second = some final' →
        final.written = final'.written ∧ ∀ condition, final.halted ≠ some (.assertion condition)

theorem Steered.of_prefix {before events : List (Event servers Byte)}
    (steered : Steered boot garbage events) (shorter : before <+: events) :
    Steered boot garbage before :=
  fun earlier inside => steered earlier (inside.trans shorter)

section Relations

/-- The two cells hold the same byte, unless it is part of a request. -/
def Own (cell : Marked) (byte : Byte) : Prop := cell.payload = false → cell.byte = byte

theorem keepsConstants_own : KeepsConstants Own := fun _ _ => rfl

end Relations

section Sufficient

variable {streams next : Streams servers Marked} {event : Event servers Marked}

theorem not_assertion_of_namesOwn (booted : streams.Booted boot)
    (permitted : streams.NamesOwn event) (stepped : streams.step boot event = some next)
    (condition : String) :
    next.halted ≠ some (.assertion condition) := by
  cases event with
  | reply server count moved =>
      rcases step_reply booted stepped with ⟨_, _, _, _, outcome⟩
      rw [if_pos permitted.2] at outcome
      simp [outcome.2]
  | pass fd answers =>
      simp only [step] at stepped
      split at stepped
      · cases stepped
      · rename_i running
        rw [not_not] at running
        split at stepped
        · rename_i possible
          cases stepped
          cases served : loopBody streams.thread fd EPOLLIN answers with
          | error halt =>
              have notReply : fd = streams.thread.listenFdOuter ∨
                  fd ∉ streams.thread.serverFdSet :=
                possible.1.imp (fun listening => listening.trans booted.listenFdOuter.symm)
                  booted.notMem_serverFdSet
              rcases Distributor.loopBody_error_exit notReply served with ⟨message, rfl⟩
              simp [enter]
          | ok value =>
              rcases value with ⟨thread, calls⟩
              simp [enter, foldl_perform_halted, running]
        · cases stepped
  | serverRead server count =>
      simp only [step] at stepped
      split at stepped
      · cases stepped
      · rename_i running
        rw [not_not] at running
        rcases Option.map_eq_some_iff.mp stepped with ⟨after, _, rfl⟩
        simp [running]
  | serverWrite server count =>
      simp only [step] at stepped
      split at stepped
      · cases stepped
      · rename_i running
        rw [not_not] at running
        split at stepped
        · cases stepped
          simp [running]
        · cases stepped

/-- A guarded run is followed over all cells which agree with it on the unmarked ones. -/
theorem exists_run_of_namesOwn {rel : Marked → Byte → Prop} (keeps : KeepsConstants rel)
    (unmarked : ∀ cell byte, rel cell byte → Own cell byte) {events : List (Event servers Marked)}
    (guarded : Machine.RunsUnder (step boot) NamesOwn (start boot garbage) events streams)
    {other : List (Event servers Byte)} (related : List.Forall₂ (EventRelated rel) events other) :
    ∃ final, Machine.run (step boot) (start boot garbage) other = some final ∧
      final.Booted boot ∧ Related rel streams final := by
  refine exists_related_run keeps (fun {streams plain event} cells permitted => ?_) guarded related
  cases event with
  | reply server count moved =>
      exact cells.sameFd fun cell cellMem cell' same =>
        unmarked cell cell' same (permitted.1 cell cellMem)
  | _ => trivial

theorem own_of_sameShape {events other : List (Event servers Byte)}
    (shape : List.Forall₂ SameShape events other) :
    List.Forall₂ (EventRelated Own) (events.map Event.mark) other := by
  rw [List.forall₂_map_left_iff]
  apply shape.imp
  intro event event' same
  refine EventRelated.map_left (same.mono fun _ _ _ => ?_)
  exact fun unmarked => by cases unmarked

theorem not_assertion_of_guarded {events : List (Event servers Marked)}
    (guarded : Machine.RunsUnder (step boot) NamesOwn (start boot garbage) events streams)
    (condition : String) : streams.halted ≠ some (.assertion condition) := by
  have both := guarded.invariant (fun state => state.Booted boot ∧
      ∀ condition, state.halted ≠ some (.assertion condition))
    (fun before permitted stepped =>
      ⟨before.1.step stepped, not_assertion_of_namesOwn before.1 permitted stepped⟩)
    ⟨booted_start boot garbage, by simp [start]⟩
  exact both.2 condition

theorem steered_of_namesOwn {events : List (Event servers Byte)}
    (guarded : Machine.RunsUnder (step boot) NamesOwn (start boot garbage)
      (events.map Event.mark) streams) : Steered boot garbage events := by
  rintro before ⟨after, rfl⟩ first second firstShape secondShape final final' ran ran'
  rw [List.map_append] at guarded
  rcases guarded.of_append with ⟨middle, guardedBefore, _⟩
  rcases exists_run_of_namesOwn keepsConstants_own (fun _ _ own => own) guardedBefore
    (own_of_sameShape firstShape) with ⟨_, same, _, related⟩
  rcases exists_run_of_namesOwn keepsConstants_own (fun _ _ own => own) guardedBefore
    (own_of_sameShape secondShape) with ⟨_, same', _, related'⟩
  rw [ran, Option.some.injEq] at same
  rw [ran', Option.some.injEq] at same'
  subst same same'
  refine ⟨related.written.symm.trans related'.written, ?_⟩
  intro condition
  rw [← related.halted]
  exact not_assertion_of_guarded guardedBefore condition

end Sufficient

section Necessary

/-- A marked byte next to the same byte without a mark. -/
def SameByte (byte : Byte) (cell : Marked) : Prop := byte = cell.byte

theorem exists_marked_run {events : List (Event servers Byte)} {final : Streams servers Byte}
    (ran : Machine.run (step boot) (start boot garbage) events = some final) :
    ∃ marked, Machine.run (step boot) (start boot garbage) (events.map Event.mark) =
      some marked := by
  have keeps : KeepsConstants SameByte := fun _ => rfl
  have related : List.Forall₂ (EventRelated SameByte) events (events.map Event.mark) := by
    rw [List.forall₂_map_right_iff, List.forall₂_same]
    exact fun event _ => EventRelated.map_right (EventRelated.refl fun _ => rfl)
  have sameFd : ∀ {streams : Streams servers Byte} {marked : Streams servers Marked} {event},
      Related SameByte streams marked → True → streams.SameFd marked event := by
    intro streams marked event cells _
    cases event with
    | reply server count moved => exact cells.sameFd fun _ _ _ same => same
    | _ => trivial
  have guarded := Machine.RunsUnder.of_run (fun _ _ => trivial) ran
  rcases exists_related_run keeps sameFd guarded related with ⟨marked, ranMarked, _⟩
  exact ⟨marked, ranMarked⟩

/-- The byte which a second run has where the first has a byte of a request: another one. -/
def flip (byte : Byte) : Byte := byte + 1

theorem flip_ne (byte : Byte) : flip byte ≠ byte := by
  intro same
  simp [flip] at same

/-- The cells of the first and of the second run, next to the marked ones. -/
def First (cell : Marked) (byte : Byte) : Prop := byte = cell.byte

def Second (cell : Marked) (byte : Byte) : Prop :=
  byte = if cell.payload then flip cell.byte else cell.byte

theorem exists_first_run {before : List (Event servers Byte)}
    (guarded : Machine.RunsUnder (step boot) NamesOwn (start boot garbage)
      (before.map Event.mark) streams) :
    ∃ plain, Machine.run (step boot) (start boot garbage) before = some plain ∧
      plain.Booted boot ∧ Related First streams plain := by
  apply exists_run_of_namesOwn (fun _ => rfl) (fun _ _ same _ => same.symm) guarded
  rw [List.forall₂_map_left_iff, List.forall₂_same]
  exact fun event _ => EventRelated.map_left (EventRelated.refl fun _ => rfl)

theorem exists_second_run {before : List (Event servers Byte)}
    (guarded : Machine.RunsUnder (step boot) NamesOwn (start boot garbage)
      (before.map Event.mark) streams) :
    ∃ plain, Machine.run (step boot) (start boot garbage) (before.map (Event.map flip)) =
        some plain ∧
      plain.Booted boot ∧ Related Second streams plain := by
  refine exists_run_of_namesOwn (fun _ => rfl) ?_ guarded ?_
  · rintro cell byte rfl unmarked
    simp [unmarked]
  · rw [List.forall₂_map_left_iff, List.forall₂_map_right_iff, List.forall₂_same]
    exact fun event _ => EventRelated.map_left (EventRelated.map_right (EventRelated.refl
      fun _ => rfl))

theorem unmarked_of_same {cells : List Marked} {bytes : List Byte}
    (first : List.Forall₂ First cells bytes) (second : List.Forall₂ Second cells bytes) :
    ∀ cell ∈ cells, cell.payload = false := by
  induction first with
  | nil => simp
  | cons head _ ih =>
      cases second with
      | cons head' tail' =>
          rw [List.forall_mem_cons]
          refine ⟨?_, ih tail'⟩
          by_contra marked
          rw [Second, Bool.not_eq_false _ |>.mp marked, if_pos rfl, head] at head'
          exact flip_ne _ head'.symm

/-- A reply to a descriptor with a marked byte, or to none, is steered by the requests. -/
theorem not_steered_of_violation {before : List (Event servers Byte)} {server : Fin servers}
    {count moved : ℕ} {middle next : Streams servers Marked}
    (guarded : Machine.RunsUnder (step boot) NamesOwn (start boot garbage)
      (before.map Event.mark) middle) (booted : middle.Booted boot)
    (violated : ¬middle.NamesOwn (.reply server count moved))
    (stepped : middle.step boot (.reply server count moved) = some next) :
    ¬Steered boot garbage (before ++ [.reply server count moved]) := by
  intro steered
  rcases step_reply booted stepped with ⟨running, positive, bound, inside, _⟩
  rcases exists_first_run guarded with ⟨first, ranFirst, bootedFirst, relatedFirst⟩
  rcases exists_second_run guarded with ⟨second, ranSecond, bootedSecond, relatedSecond⟩
  rcases exists_step_reply (relatedFirst.halted ▸ running) positive bound
    ((relatedFirst.line server).fromServer.length_eq ▸ inside) moved with ⟨first', steppedFirst⟩
  rcases exists_step_reply (relatedSecond.halted ▸ running) positive bound
    ((relatedSecond.line server).fromServer.length_eq ▸ inside) moved with ⟨second', steppedSecond⟩
  have shape : List.Forall₂ SameShape (before ++ [.reply server count moved])
      (before ++ [.reply server count moved]) :=
    List.forall₂_same.mpr fun event _ => EventRelated.refl fun _ => trivial
  have flipped : List.Forall₂ SameShape (before ++ [.reply server count moved])
      (before.map (Event.map flip) ++ [.reply server count moved]) := by
    refine List.rel_append ?_ (.cons (.reply server count moved) .nil)
    rw [List.forall₂_map_right_iff, List.forall₂_same]
    exact fun event _ => EventRelated.map_right (EventRelated.refl fun _ => trivial)
  have runFirst := Machine.run_concat_eq_some.mpr ⟨first, ranFirst, steppedFirst⟩
  have runSecond := Machine.run_concat_eq_some.mpr ⟨second, ranSecond, steppedSecond⟩
  have all := List.prefix_refl (before ++ [Event.reply server count moved])
  rcases steered _ all _ _ shape flipped _ _ runFirst runSecond with ⟨sameWritten, notFirst⟩
  have notSecond := (steered _ all _ _ flipped flipped _ _ runSecond runSecond).2
  rcases step_reply bootedFirst steppedFirst with ⟨_, _, _, _, outcomeFirst⟩
  rcases step_reply bootedSecond steppedSecond with ⟨_, _, _, _, outcomeSecond⟩
  split at outcomeFirst
  · rename_i named
    split at outcomeSecond
    · -- both replies are sent, to the same descriptor, so no byte of it is marked
      rw [outcomeFirst.1, outcomeSecond.1, ← relatedFirst.written, ← relatedSecond.written,
        List.append_cancel_left_eq, List.singleton_inj] at sameWritten
      have sameBytes : fdCells (first.readReply server count) =
          fdCells (second.readReply server count) := by
        have enough : fdLen ≤ messLen := by decide
        have bytes := map_toByte_eq_of_loadFd
          (enough.trans_eq (first.readReply server count).length_bytes.symm)
          (enough.trans_eq (second.readReply server count).length_bytes.symm) sameWritten
        simpa [Cell.toByte, fdCells] using bytes
      have cellsFirst := List.forall₂_take fdLen (relatedFirst.readReply server count)
      have cellsSecond := List.forall₂_take fdLen (relatedSecond.readReply server count)
      have sameFd : (middle.readReply server count).fd = (first.readReply server count).fd :=
        relatedFirst.sameFd fun _ _ _ same => same.symm
      refine violated ⟨unmarked_of_same cellsFirst ?_, sameFd ▸ named⟩
      rw [fdCells, fdCells] at sameBytes
      rw [sameBytes]
      exact cellsSecond
    · exact notSecond _ outcomeSecond
  · exact notFirst _ outcomeFirst

end Necessary

/--
In every run, the requests do not steer the replies if and only if every reply is sent to a
positive descriptor which holds no byte of a request.
-/
theorem steered_iff_namesOwn {events : List (Event servers Byte)} {final : Streams servers Byte}
    (ran : Machine.run (step boot) (start boot garbage) events = some final) :
    Steered boot garbage events ↔
      ∃ marked, Machine.RunsUnder (step boot) NamesOwn (start boot garbage)
        (events.map Event.mark) marked := by
  constructor
  · intro steered
    rcases exists_marked_run ran with ⟨marked, ranMarked⟩
    rcases Machine.RunsUnder.or_exists_violation ranMarked with
      guarded | ⟨before, event, after, middle, split, guarded, violated, next, stepped⟩
    · exact ⟨marked, guarded⟩
    · rcases List.map_eq_append_iff.mp split with ⟨plainBefore, rest, rfl, rfl, restMarked⟩
      rcases List.map_eq_cons_iff.mp restMarked with ⟨plain, plainAfter, rfl, rfl, _⟩
      cases plain with
      | reply server count moved =>
          have booted := booted_of_run guarded.run
          refine absurd (steered.of_prefix ?_) (not_steered_of_violation guarded booted violated
            stepped)
          exact ⟨plainAfter, by simp⟩
      | _ => exact absurd trivial violated
  · rintro ⟨marked, guarded⟩
    exact steered_of_namesOwn guarded

/-- A client is accepted and its request, of one byte repeated, comes back as a reply, which
is read in pieces of the given lengths. -/
def replied (byte : Byte) (pieces : List ℕ) : List (Event 1 Byte) :=
  [.pass 6 ⟨[(8, 0, 0)], .eagain, .error .eagain, Boot.server, messLen⟩,
    .pass 8 ⟨[], .eagain, .data (byte :: List.replicate (normalLen - 1) 0), Boot.server, messLen⟩,
    .serverRead Boot.server messLen, .serverWrite Boot.server messLen] ++
  pieces.map fun count => .reply Boot.server count normalLen

theorem replied_sameShape (byte byte' : Byte) (pieces : List ℕ) :
    List.Forall₂ SameShape (replied byte pieces) (replied byte' pieces) := by
  have request : List.Forall₂ (fun _ _ => True) (byte :: List.replicate (normalLen - 1) (0 : Byte))
      (byte' :: List.replicate (normalLen - 1) (0 : Byte)) :=
    .cons trivial (List.forall₂_same.mpr fun _ _ => trivial)
  refine .cons (EventRelated.refl fun _ => trivial) (.cons ?_ ?_)
  · exact .pass 8 ⟨rfl, rfl, .data request, rfl, rfl⟩
  · exact List.forall₂_same.mpr fun _ _ => EventRelated.refl fun _ => trivial

/-- Read in two pieces, the rest of the reply is taken for a message to the descriptor which
the request begins with. -/
theorem not_steered_of_short_read :
    (∃ final final',
      Machine.run (step Boot.single) (start Boot.single fun _ => .zero) (replied 9 [4, 16]) =
        some final ∧
      Machine.run (step Boot.single) (start Boot.single fun _ => .zero) (replied 10 [4, 16]) =
        some final' ∧
      final.written = [4, 8, 9] ∧ final'.written = [4, 8, 10]) ∧
    ¬Steered Boot.single (fun _ => .zero) (replied 9 [4, 16]) := by
  have first := Machine.exists_run_of_any
    (show (Machine.run (step Boot.single) (start Boot.single fun _ => .zero)
      (replied 9 [4, 16])).any (fun final => final.written = [4, 8, 9]) = true by decide +kernel)
  have second := Machine.exists_run_of_any
    (show (Machine.run (step Boot.single) (start Boot.single fun _ => .zero)
      (replied 10 [4, 16])).any (fun final => final.written = [4, 8, 10]) = true by decide +kernel)
  rcases first with ⟨final, ran, written⟩
  rcases second with ⟨final', ran', written'⟩
  simp only [decide_eq_true_eq] at written written'
  refine ⟨⟨final, final', ran, ran', written, written'⟩, ?_⟩
  intro steered
  have same := (steered _ (List.prefix_refl _) _ _ (replied_sameShape 9 9 [4, 16])
    (replied_sameShape 9 10 [4, 16]) _ _ ran ran').1
  rw [written, written'] at same
  exact absurd same (by decide)

end Streams

end LoadBalance.Stream.Steering
