import LoadBalance.Lib.General
import LoadBalance.Lib.Terminated
import LoadBalance.Monitor.Reports

/-!
# The files with the usages

After its last round `mainThreadFunc` of the distributor writes three files for each server
and leaves the process. A file holds the values of one usage with six significant digits,
each with a comma behind it.
-/

universe u

namespace LoadBalance.Monitor

open Balancer (usageLimit)
open Layout (Image)
open Machine (Reachable)

/-- Which of the three usages a file holds. -/
inductive Resource where
  | cpu
  | memory
  | io
deriving DecidableEq

namespace Resource

variable {R : Type u}

def usage : Resource → Usage R → R
  | cpu, usage => usage.cpu
  | memory, usage => usage.memory
  | io, usage => usage.io

/-- What follows the number of the server in the name of a file. -/
def suffix : Resource → List Char
  | cpu => ['_', 'c', 'p', 'u', '_', 'u', 's', 'a', 'g', 'e', '_']
  | memory => ['_', 'm', 'e', 'm', 'o', 'r', 'y', '_', 'u', 's', 'a', 'g', 'e', '_']
  | io => ['_', 'i', 'o', '_', 'u', 's', 'a', 'g', 'e']

end Resource

/-- `f1`, `f2` and `f3` -/
def fileName (numOfServer : ℕ) (resource : Resource) : List Char :=
  ['s', 'e', 'r', 'v', 'e', 'r', '_'] ++ (Nat.toDigits 10 numOfServer ++ resource.suffix)

/-- The distributor and its servers, with the files in its directory. -/
structure Session (servers : ℕ) (R : Type u) where
  polls : Polls servers R
  disk : List Char → Option (List Char)

inductive SessionEvent (servers : ℕ) (R : Type u) where
  | poll (event : Event servers R)
  /-- The end of `mainThreadFunc`. It is not noticed that a file could not be opened. -/
  | writeUsage (opened : List Char → Bool)

section Writing

variable {servers : ℕ} {R : Type u}

/-- The loop over `j`, which goes up to the size of `cpu_usage[i]` for all files. There is no
text if it leaves the bounds of the vector. -/
def usageText (value : R → ℚ) (size : ℕ) (usages : List R) : Option (List Char) :=
  if size ≤ usages.length then
    some (Terminated.join ',' ((usages.take size).map fun usage => Scientific.print (value usage)))
  else none

/-- A file which could be opened. -/
def writeFile (opened : List Char → Bool) (disk : List Char → Option (List Char))
    (name text : List Char) : List Char → Option (List Char) :=
  if opened name then Function.update disk name (some text) else disk

/-- The usages of a server, as the distributor has kept them. -/
def Polls.kept (state : Polls servers R) (i : Fin servers) : Resource → List R
  | .cpu => state.cpuUsage i
  | .memory => state.memoryUsage i
  | .io => state.ioUsage i

/-- The body of the loop over the servers. -/
def writeServer (value : R → ℚ) (opened : List Char → Bool) (state : Polls servers R)
    (disk : List Char → Option (List Char)) (i : Fin servers) :
    Option (List Char → Option (List Char)) := do
  let size := (state.cpuUsage i).length
  let cpu ← usageText value size (state.cpuUsage i)
  let memory ← usageText value size (state.memoryUsage i)
  let io ← usageText value size (state.ioUsage i)
  let disk := writeFile opened disk (fileName i .cpu) cpu
  let disk := writeFile opened disk (fileName i .memory) memory
  return writeFile opened disk (fileName i .io) io

/-- The block behind the comparison with 100. -/
def writeUsage (value : R → ℚ) (opened : List Char → Bool) (state : Polls servers R)
    (disk : List Char → Option (List Char)) : Option (List Char → Option (List Char)) :=
  (List.finRange servers).foldlM (writeServer value opened state) disk

/-- The numbers in a file, read back. -/
def fields (text : List Char) : List ℚ :=
  (Terminated.split ',' text).map fun field => (IStream.floating id 0 (.ofText field)).1

namespace Session

variable [Double R] [Image R Byte]

def start (link : Fin servers → Link R) (disk : List Char → Option (List Char)) :
    Session servers R where
  polls := .start link
  disk := disk

def step [NeZero servers] (value : R → ℚ) (session : Session servers R) :
    SessionEvent servers R → Option (Session servers R)
  | .poll .writeUsage => none
  | .poll event => (session.polls.step event).map fun polls => { session with polls }
  | .writeUsage opened =>
      match session.polls.step .writeUsage,
        Monitor.writeUsage value opened session.polls session.disk with
      | some polls, some disk => some { polls, disk }
      | _, _ => none

end Session

end Writing

section Names

/-- No two files have the same name. -/
theorem fileName_inj {first second : ℕ} {resource other : Resource}
    (same : fileName first resource = fileName second other) :
    first = second ∧ resource = other := by
  have rest : Nat.toDigits 10 first ++ resource.suffix =
      Nat.toDigits 10 second ++ other.suffix := by
    rw [fileName, fileName] at same
    exact List.append_cancel_left same
  have stop : ∀ resource : Resource, ∀ char ∈ resource.suffix.head?, char.isDigit = false := by
    intro resource char charMem
    have underscore : char = '_' := by
      cases resource <;> simpa [Resource.suffix, eq_comm] using charMem
    rw [underscore]
    rfl
  have digits : ∀ number : ℕ, ∀ char ∈ Nat.toDigits 10 number, char.isDigit = true :=
    fun number char => Decimal.isDigit_of_mem_toDigits
  have numbers := congrArg (List.takeWhile Char.isDigit) rest
  have suffixes := congrArg (List.dropWhile Char.isDigit) rest
  simp only [Decimal.takeWhile_append_of_stop (digits _) (stop _)] at numbers
  simp only [Decimal.dropWhile_append_of_stop (digits _) (stop _)] at suffixes
  constructor
  · have values := congrArg (fun digits => Nat.ofDigitChars 10 digits 0) numbers
    simpa using values
  · cases resource <;> cases other <;> simp [Resource.suffix] at suffixes ⊢

end Names

section Files

variable {servers : ℕ} {R : Type u} {value : R → ℚ} {opened : List Char → Bool}

/-- Within the bounds of all vectors, the text is there. -/
theorem usageText_length (value : R → ℚ) (usages : List R) :
    usageText value usages.length usages =
      some (Terminated.join ',' (usages.map fun usage => Scientific.print (value usage))) := by
  rw [usageText, if_pos le_rfl, List.take_length]

/-- Each number is found again, up to the digits which were not printed. -/
theorem fields_join (value : R → ℚ) (usages : List R) :
    fields (Terminated.join ',' (usages.map fun usage => Scientific.print (value usage))) =
      usages.map fun usage => (Scientific.general (value usage)).value := by
  have absent : ∀ field ∈ usages.map (fun usage => Scientific.print (value usage)),
      ',' ∉ field := by
    intro field fieldMem comma
    rcases List.mem_map.mp fieldMem with ⟨usage, _, rfl⟩
    rcases Scientific.mem_print comma with digit | mark
    · cases digit
    · simp at mark
  rw [fields, Terminated.split_join absent, List.map_map]
  apply List.map_congr_left
  intro usage _
  exact congrArg Prod.fst (IStream.floating_text id (Scientific.general_printed (value usage)) 0)

theorem writeFile_apply (disk : List Char → Option (List Char)) (name text other : List Char) :
    writeFile opened disk name text other =
      if opened name = true ∧ other = name then some text else disk other := by
  rw [writeFile]
  split
  · rename_i isOpen
    simp only [isOpen, true_and, Function.update_apply]
  · rename_i closed
    exact (if_neg fun both => closed both.1).symm

/-- The text of the file of one server and one of its usages. -/
def Polls.text (value : R → ℚ) (state : Polls servers R) (i : Fin servers)
    (resource : Resource) : List Char :=
  Terminated.join ',' ((state.kept i resource).map fun usage => Scientific.print (value usage))

/-- For every usage, there are as many values as for the first one. -/
def Polls.Even (state : Polls servers R) : Prop :=
  ∀ i resource, (state.kept i resource).length = (state.cpuUsage i).length

variable {state : Polls servers R}

theorem writeServer_spec (even : state.Even) (disk : List Char → Option (List Char))
    (i : Fin servers) :
    ∃ next, writeServer value opened state disk i = some next ∧
      (∀ resource, opened (fileName i resource) = true →
        next (fileName i resource) = some (state.text value i resource)) ∧
      ∀ name, (∀ resource, opened name = true → name ≠ fileName i resource) →
        next name = disk name := by
  have texts : ∀ resource, usageText value (state.cpuUsage i).length (state.kept i resource) =
      some (state.text value i resource) := by
    intro resource
    rw [← even i resource]
    exact usageText_length value (state.kept i resource)
  have apart : ∀ {resource other : Resource}, resource ≠ other →
      fileName i resource ≠ fileName i other :=
    fun different same => different (fileName_inj same).2
  refine ⟨writeFile opened (writeFile opened (writeFile opened disk (fileName i .cpu)
    (state.text value i .cpu)) (fileName i .memory) (state.text value i .memory))
    (fileName i .io) (state.text value i .io), ?_, ?_, ?_⟩
  · have cpu := texts .cpu
    have memory := texts .memory
    have io := texts .io
    simp only [Polls.kept] at cpu memory io
    simp [writeServer, cpu, memory, io]
  · intro resource isOpen
    simp only [writeFile_apply]
    cases resource with
    | cpu =>
        have first : fileName i .cpu ≠ fileName i .memory := apart (by decide)
        have second : fileName i .cpu ≠ fileName i .io := apart (by decide)
        simp [first, second, isOpen]
    | memory =>
        have first : fileName i .memory ≠ fileName i .io := apart (by decide)
        simp [first, isOpen]
    | io => simp [isOpen]
  · intro name elsewhere
    simp only [writeFile_apply]
    have other : ∀ resource,
        ¬(opened (fileName i resource) = true ∧ name = fileName i resource) := by
      rintro resource ⟨isOpen, same⟩
      exact elsewhere resource (same ▸ isOpen) same
    rw [if_neg (other .io), if_neg (other .memory), if_neg (other .cpu)]

/-- What the loop over the servers has written. -/
theorem foldlM_writeServer (even : state.Even) (indices : List (Fin servers))
    (disk : List Char → Option (List Char)) :
    ∃ final, indices.foldlM (writeServer value opened state) disk = some final ∧
      (∀ i ∈ indices, ∀ resource, opened (fileName i resource) = true →
        final (fileName i resource) = some (state.text value i resource)) ∧
      ∀ name, (∀ i ∈ indices, ∀ resource, opened name = true → name ≠ fileName i resource) →
        final name = disk name := by
  induction indices generalizing disk with
  | nil => exact ⟨disk, rfl, by simp, fun _ _ => rfl⟩
  | cons i indices ih =>
      rcases @writeServer_spec _ _ value opened _ even disk i with
        ⟨next, wrote, here, elsewhere⟩
      rcases ih next with ⟨final, rest, written, untouched⟩
      refine ⟨final, by simp [wrote, rest], ?_, ?_⟩
      · intro j jMem resource isOpen
        by_cases later : j ∈ indices
        · exact written j later resource isOpen
        · obtain rfl : j = i := (List.mem_cons.mp jMem).resolve_right later
          rw [untouched _ ?_, here resource isOpen]
          rintro other otherMem resource' _ same
          have equal : j = other := Fin.ext (fileName_inj same).1
          exact later (equal ▸ otherMem)
      · intro name apart
        rw [untouched name fun j jMem => apart j (.tail _ jMem),
          elsewhere name (apart i List.mem_cons_self)]

end Files

section Rounds

variable {servers : ℕ} [NeZero servers] {R : Type u} [Double R] [Image R Byte]

namespace Polls

/-- The loop goes through the servers until there are a hundred values. -/
structure Limited (state : Polls servers R) : Prop where
  running : ∀ index, state.pc = .asking index ∨ state.pc = .waiting index →
    ∃ k, k < usageLimit ∧ state.Rounds k index
  complete : state.pc = .writing → ∀ i, (state.used i).length = usageLimit

omit [Double R] [Image R Byte] in
theorem limited_start (link : Fin servers → Link R) [Double R] [Image R Byte] :
    (start link).Limited where
  running index here := by
    refine ⟨0, by decide, fun j => ?_⟩
    rcases here with here | here
    · cases here
      simp [start]
    · cases here
  complete := by simp [start]

theorem Limited.step {state next : Polls servers R} (limited : state.Limited)
    (charged : ∀ i, state.Charged i) {event : Event servers R}
    (stepped : state.step event = some next) : next.Limited := by
  cases move_of_step stepped with
  | server i link moved => exact ⟨limited.running, limited.complete⟩
  | asks i written atPc =>
      refine ⟨?_, by simp [ask]⟩
      intro index here
      have same : index = i := by simpa [ask, eq_comm] using here
      rw [same]
      exact limited.running i (.inl atPc)
  | fails index atPc => exact ⟨by simp, by simp⟩
  | writes atPc => exact ⟨by simp, by simp⟩
  | receives i bytes atPc short arrived =>
      rw [receive]
      split
      · refine ⟨?_, by simp [charge]⟩
        intro index here
        have same : index = i + 1 := by simpa [charge, eq_comm] using here
        rcases limited.running i (.inr atPc) with ⟨k, below, rounds⟩
        rw [same]
        exact ⟨k, below, Rounds.charge rounds _⟩
      · exact ⟨by simp, by simp⟩
  | sets index atPc asked =>
      rcases limited.running index (.inl atPc) with ⟨k, below, rounds⟩
      have all : ∀ j, (state.used j).length = k + 1 := by
        intro j
        rw [rounds j, if_pos (j.isLt.trans_le asked)]
      have size : (state.cpuUsage 0).length = k + 1 := by
        rw [(charged 0).1, List.length_map, all]
      simp only [nextPass, size]
      split
      · rename_i full
        refine ⟨by simp, fun _ i => ?_⟩
        change (state.used i).length = usageLimit
        rw [all i]
        omega
      · rename_i notFull
        refine ⟨?_, by simp⟩
        intro index here
        have first : index = 0 := by simpa [eq_comm] using here
        rw [first]
        refine ⟨k + 1, by omega, fun j => ?_⟩
        simpa using all j

end Polls

namespace Session

variable {value : R → ℚ} {session : Session servers R}

/-- A step of the session is a step of the polls. -/
theorem exists_step_polls {next : Session servers R} {event : SessionEvent servers R}
    (stepped : session.step value event = some next) :
    ∃ event, session.polls.step event = some next.polls := by
  simp only [step] at stepped
  split at stepped
  · cases stepped
  · rename_i event _
    rcases Option.map_eq_some_iff.mp stepped with ⟨polls, moved, rfl⟩
    exact ⟨event, moved⟩
  · split at stepped
    · rename_i polls disk moved _
      cases stepped
      exact ⟨.writeUsage, moved⟩
    · cases stepped

theorem sound_of_reachable {clock : Fin servers → ℤ} {lastUpData : Fin servers → UpData R}
    {disk : List Char → Option (List Char)}
    (reachable : Reachable (step value)
      (start (fun i => Link.start (clock i) (lastUpData i)) disk) session) :
    session.polls.Sound ∧ session.polls.Limited := by
  apply reachable.invariant (fun session => session.polls.Sound ∧ session.polls.Limited)
  · intro session _ next both stepped
    rcases exists_step_polls stepped with ⟨event, stepped⟩
    exact ⟨both.1.step stepped, both.2.step both.1.charged stepped⟩
  · exact ⟨Polls.sound_start clock lastUpData, Polls.limited_start _⟩

/--
When `mainThreadFunc` has come to the end of its rounds, it always gets through with writing.
Every file which could be opened then holds the hundred values from which the weights of its
server were computed, in this order and up to the sixth digit, and no other file is touched.
-/
theorem files_exact {clock : Fin servers → ℤ} {lastUpData : Fin servers → UpData R}
    {disk : List Char → Option (List Char)}
    (reachable : Reachable (step value)
      (start (fun i => Link.start (clock i) (lastUpData i)) disk) session)
    (writing : session.polls.pc = .writing) (opened : List Char → Bool) :
    (∀ i, (session.polls.used i).length = usageLimit) ∧
      ∃ next, session.step value (.writeUsage opened) = some next ∧
        (∀ (i : Fin servers) (resource : Resource), opened (fileName i resource) = true →
          ∃ text, next.disk (fileName i resource) = some text ∧
            List.Forall₂ (fun (usage : Usage R) read =>
              |read - value (resource.usage usage)| ≤ |value (resource.usage usage)| / 200000)
              (session.polls.used i) (fields text)) ∧
        ∀ name, (∀ (i : Fin servers) (resource : Resource), opened name = true →
          name ≠ fileName i resource) → next.disk name = session.disk name := by
  rcases sound_of_reachable reachable with ⟨sound, limited⟩
  refine ⟨limited.complete writing, ?_⟩
  have kept : ∀ i resource, session.polls.kept i resource =
      (session.polls.used i).map resource.usage := by
    intro i resource
    rcases sound.charged i with ⟨cpu, memory, io, _⟩
    cases resource with
    | cpu => exact cpu
    | memory => exact memory
    | io => exact io
  have even : session.polls.Even := by
    intro i resource
    have cpu := kept i .cpu
    simp only [Polls.kept] at cpu
    rw [kept, cpu, List.length_map, List.length_map]
  rcases @foldlM_writeServer _ _ value opened _ even (List.finRange servers) session.disk with
    ⟨final, wrote, written, untouched⟩
  refine ⟨⟨{ session.polls with pc := .exited (.exit "finished!!") }, final⟩, ?_, ?_, ?_⟩
  · have left : session.polls.step .writeUsage =
        some { session.polls with pc := .exited (.exit "finished!!") } := by
      simp only [Polls.step, writing]
    simp only [step, left, Monitor.writeUsage, wrote]
  · intro i resource isOpen
    refine ⟨_, written i (List.mem_finRange i) resource isOpen, ?_⟩
    rw [Polls.text, kept, fields_join, List.map_map, List.forall₂_map_right_iff,
      List.forall₂_same]
    exact fun usage _ => Scientific.abs_value_general_sub_le _
  · intro name apart
    exact untouched name fun i _ => apart i

/-- The ticks of the sample and a hundred rounds. -/
def sampleRounds : List (SessionEvent 1 Float) :=
  (Polls.sampleTicks ++ (List.replicate 100 Polls.sampleRound).flatten).map .poll

/-- The file with the usage of the memory holds a hundred values, which are all near 75. -/
theorem files_exact_sampleRound :
    ∃ (session next : Session 1 Float) (text : List Char),
      Reachable (step ratOfFloat)
        (start (fun _ => Link.start 100 ⟨Double.ofRat 0⟩) fun _ => none) session ∧
      session.step ratOfFloat (.writeUsage fun _ => true) = some next ∧
      next.disk (fileName 0 .memory) = some text ∧ (fields text).length = 100 ∧
      ∀ read ∈ fields text, |read - 75| ≤ 75 / 200000 := by
  have ran := @Machine.exists_reachable_of_any _ _ (step ratOfFloat)
    (start (fun _ : Fin 1 => Link.start 100 ⟨Double.ofRat 0⟩) fun _ => none)
    sampleRounds
    (fun session => decide (session.polls.pc = .writing ∧
      session.polls.used (Fin.last 0) = List.replicate 100 Polls.sampleUsage)) (by decide +kernel)
  rcases ran with ⟨session, reachable, shown⟩
  rcases of_decide_eq_true shown with ⟨writing, used⟩
  rcases files_exact reachable writing fun _ => true with ⟨rounds, next, wrote, written, _⟩
  rcases written (Fin.last 0) .memory rfl with ⟨text, here, close⟩
  refine ⟨session, next, text, reachable, wrote, here,
    close.length_eq.symm.trans (rounds (Fin.last 0)), ?_⟩
  have memory : ratOfFloat (Resource.memory.usage Polls.sampleUsage) = 75 := by decide +kernel
  have published : ∀ usage ∈ session.polls.used (Fin.last 0), usage = Polls.sampleUsage := by
    rw [used]
    exact fun _ => List.eq_of_mem_replicate
  intro read readMem
  rcases List.get_of_mem readMem with ⟨index, rfl⟩
  have inside : index.val < (session.polls.used (Fin.last 0)).length := by
    rw [close.length_eq]
    exact index.isLt
  have near := (List.forall₂_iff_get.mp close).2 index inside index.isLt
  have size : |(75 : ℚ)| = 75 := abs_of_pos (by norm_num)
  rw [published _ (List.get_mem _ _), memory, size] at near
  exact near

end Session

end Rounds

end LoadBalance.Monitor
