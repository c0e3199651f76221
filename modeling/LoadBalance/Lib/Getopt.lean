import LoadBalance.Lib.Text

/-!
# The options of a command line

`getopt_long` of the GNU library, call by call. The words which are no options are moved
behind the options, and a long option is named by any beginning of its name which stands
for no other one. Options with an optional argument are left out.

What the calls return for a list of words is compared with `Reads`, which says how options
and operands are written down.
-/

namespace Getopt

/-- An entry of the table of long options. -/
structure Long where
  name : List Char
  takesArgument : Bool
  val : Char
deriving DecidableEq

structure Table where
  optstring : List Char
  long : List Long

/-- What a call returns, with `optarg`. -/
structure Found where
  opt : Char
  optarg : Option (List Char)
deriving DecidableEq

structure State where
  /-- What is left of a word of short options. -/
  nextchar : List Char
  words : List (List Char)
  /-- The words which have been moved behind the options. -/
  operands : List (List Char)
deriving DecidableEq

/-- The number of characters ahead, each word with its end. -/
def State.size (state : State) : ℕ :=
  state.nextchar.length + (state.words.flatten.length + state.words.length)

namespace Table

variable (table : Table)

/-- Whether a letter is an option, and whether it takes an argument then. -/
def takesArgument? (letter : Char) : Option Bool :=
  if letter = ':' ∨ letter = ';' then none
  else (Text.find letter table.optstring).map fun place => table.optstring[place + 1]? = some ':'

/-- What is returned for an option whose argument is missing. -/
def missing : Char := if table.optstring.head? = some ':' then ':' else '?'

/-- The option which a name or the beginning of a name stands for. -/
def named (name : List Char) : Option Long :=
  match table.long.find? fun entry => entry.name = name with
  | some entry => some entry
  | none =>
      match table.long.filter fun entry => name <+: entry.name with
      | [] => none
      | entry :: others =>
          if ∀ other ∈ others, other.takesArgument = entry.takesArgument ∧ other.val = entry.val
          then some entry else none

/-- An option whose argument is the rest of its word, or else the next word. -/
def argument (opt : Char) (rest : Option (List Char)) (words operands : List (List Char)) :
    Found × State :=
  match rest, words with
  | some text, words => (⟨opt, some text⟩, ⟨[], words, operands⟩)
  | none, text :: words => (⟨opt, some text⟩, ⟨[], words, operands⟩)
  | none, [] => (⟨table.missing, none⟩, ⟨[], [], operands⟩)

def short (letter : Char) (cluster : List Char) (words operands : List (List Char)) :
    Found × State :=
  match table.takesArgument? letter with
  | none => (⟨'?', none⟩, ⟨cluster, words, operands⟩)
  | some false => (⟨letter, none⟩, ⟨cluster, words, operands⟩)
  | some true =>
      table.argument letter (if cluster = [] then none else some cluster) words operands

/-- The text behind the first `=`. -/
def behindEquals (text : List Char) : Option (List Char) :=
  (Text.find '=' text).map fun place => text.drop (place + 1)

/-- A word which begins with two dashes, from the name on. -/
def byName (text : List Char) (words operands : List (List Char)) : Found × State :=
  match table.named (Text.upTo '=' text) with
  | none => (⟨'?', none⟩, ⟨[], words, operands⟩)
  | some entry =>
      if entry.takesArgument then table.argument entry.val (behindEquals text) words operands
      else (⟨if behindEquals text = none then entry.val else '?', none⟩, ⟨[], words, operands⟩)

/-- From the beginning of a word on. There is nothing to return at the end of the options. -/
def scan (operands : List (List Char)) : List (List Char) → Option Found × State
  | [] => (none, ⟨[], [], operands⟩)
  | word :: words =>
      match word with
      | ['-', '-'] => (none, ⟨[], [], operands ++ words⟩)
      | '-' :: '-' :: text => (table.byName text words operands).map some id
      | '-' :: letter :: cluster => (table.short letter cluster words operands).map some id
      | _ => scan (operands ++ [word]) words

/-- `getopt_long` -/
def next (state : State) : Option Found × State :=
  match state.nextchar with
  | letter :: cluster => (table.short letter cluster state.words state.operands).map some id
  | [] => table.scan state.operands state.words

/-- The ways to write an option with its argument. -/
inductive Writes (opt : Char) (text : List Char) : List (List Char) → Prop where
  | attached (notDash : opt ≠ '-') (takes : table.takesArgument? opt = some true)
      (nonempty : text ≠ []) : Writes opt text ['-' :: opt :: text]
  | apart (notDash : opt ≠ '-') (takes : table.takesArgument? opt = some true) :
      Writes opt text [['-', opt], text]
  | equals (name : List Char) (noEquals : '=' ∉ name) (entry : Long)
      (named : table.named name = some entry) (takes : entry.takesArgument = true)
      (val : entry.val = opt) : Writes opt text ['-' :: '-' :: (name ++ '=' :: text)]
  | behind (name : List Char) (noEquals : '=' ∉ name) (nonempty : name ≠ []) (entry : Long)
      (named : table.named name = some entry) (takes : entry.takesArgument = true)
      (val : entry.val = opt) : Writes opt text ['-' :: '-' :: name, text]

/-- A word which is no option: it does not begin with a dash, or is a dash. -/
def IsOperand (word : List Char) : Prop := word.head? = some '-' → word = ['-']

instance (word : List Char) : Decidable (IsOperand word) := inferInstanceAs (Decidable (_ → _))

/-- The words are these options, each with its argument, and these operands, both in their
order. Behind `--` all words are operands. -/
inductive Reads : List (List Char) → List (Char × List Char) → List (List Char) → Prop where
  | done : Reads [] [] []
  | dashes (rest : List (List Char)) : Reads (['-', '-'] :: rest) [] rest
  | operand {words options operands} (word : List Char) (isOperand : IsOperand word)
      (reads : Reads words options operands) : Reads (word :: words) options (word :: operands)
  | option {words options operands} (opt : Char) (text : List Char) (written : List (List Char))
      (writes : table.Writes opt text written) (reads : Reads words options operands) :
      Reads (written ++ words) ((opt, text) :: options) operands

/-- There is an option with this letter which takes an argument, or which takes none. -/
def Has (opt : Char) (takes : Bool) : Prop :=
  table.takesArgument? opt = some takes ∨
    ∃ entry ∈ table.long, entry.takesArgument = takes ∧ entry.val = opt

section Scan

variable {table : Table} {word cluster text : List Char} {words operands : List (List Char)}
  {opt letter : Char} {found : Found} {state : State}

theorem scan_operand (isOperand : IsOperand word) :
    table.scan operands (word :: words) = table.scan (operands ++ [word]) words := by
  rw [scan]
  · rintro rfl
    cases isOperand rfl
  · rintro text rfl
    cases isOperand rfl
  · rintro letter cluster rfl
    cases isOperand rfl

/-- The three kinds of words which are no operands. -/
theorem exists_of_not_isOperand (notOperand : ¬IsOperand word) :
    word = ['-', '-'] ∨ (∃ text, text ≠ [] ∧ word = '-' :: '-' :: text) ∨
      ∃ letter cluster, letter ≠ '-' ∧ word = '-' :: letter :: cluster := by
  rcases Classical.not_imp.mp notOperand with ⟨dash, more⟩
  rcases List.head?_eq_some_iff.mp dash with ⟨rest, rfl⟩
  cases rest with
  | nil => exact absurd rfl more
  | cons letter cluster =>
      by_cases second : letter = '-'
      · subst second
        by_cases last : cluster = []
        · exact .inl (by rw [last])
        · exact .inr (.inl ⟨cluster, last, rfl⟩)
      · exact .inr (.inr ⟨letter, cluster, second, rfl⟩)

theorem scan_byName (more : text ≠ []) :
    table.scan operands (('-' :: '-' :: text) :: words) =
      (table.byName text words operands).map some id := by
  rw [scan]
  exact fun nothing => more nothing

theorem scan_short (notDash : letter ≠ '-') :
    table.scan operands (('-' :: letter :: cluster) :: words) =
      (table.short letter cluster words operands).map some id := by
  rw [scan]
  · exact fun dash _ => notDash dash
  · exact fun dash => notDash dash

@[simp]
theorem argument_some (opt : Char) (text : List Char) (words operands : List (List Char)) :
    table.argument opt (some text) words operands = (⟨opt, some text⟩, ⟨[], words, operands⟩) :=
  rfl

@[simp]
theorem argument_none_cons (opt : Char) (text : List Char) (words operands : List (List Char)) :
    table.argument opt none (text :: words) operands =
      (⟨opt, some text⟩, ⟨[], words, operands⟩) :=
  rfl

/-- An option which is written in one of the ways is found, whatever follows. -/
theorem Writes.scan {written : List (List Char)} (writes : table.Writes opt text written) :
    table.scan operands (written ++ words) =
      (some ⟨opt, some text⟩, ⟨[], words, operands⟩) := by
  cases writes with
  | attached notDash takes nonempty =>
      rw [List.singleton_append, scan_short notDash]
      simp [short, takes, nonempty]
  | apart notDash takes =>
      rw [List.cons_append, List.singleton_append, scan_short notDash]
      simp [short, takes]
  | equals name noEquals entry named takes val =>
      have cut : Text.upTo '=' (name ++ '=' :: text) = name := Text.upTo_append noEquals
      have behind : behindEquals (name ++ '=' :: text) = some text := by
        rw [behindEquals, Text.find_append noEquals]
        simp
      rw [List.singleton_append, scan_byName (by simp)]
      simp [byName, cut, named, takes, val, behind]
  | behind name noEquals nonempty entry named takes val =>
      have cut : Text.upTo '=' name = name := Text.upTo_of_notMem noEquals
      have behind : behindEquals name = none := by
        rw [behindEquals, Text.find_eq_none_iff.mpr noEquals, Option.map_none]
      rw [List.cons_append, List.singleton_append, scan_byName nonempty]
      simp [byName, cut, named, takes, val, behind]

/-- An argument is the rest of the word, or there is a next word and it is the argument. -/
theorem exists_of_argument {rest : Option (List Char)}
    (returned : table.argument letter rest words operands = (⟨opt, some text⟩, state)) :
    letter = opt ∧ state.nextchar = [] ∧ state.operands = operands ∧
      (rest = some text ∧ state.words = words ∨ rest = none ∧ words = text :: state.words) := by
  unfold argument at returned
  split at returned
  · cases returned
    exact ⟨rfl, rfl, rfl, .inl ⟨rfl, rfl⟩⟩
  · cases returned
    exact ⟨rfl, rfl, rfl, .inr ⟨rfl, rfl⟩⟩
  · cases returned

theorem writes_of_short (notDash : letter ≠ '-')
    (returned : table.short letter cluster words operands = (⟨opt, some text⟩, state)) :
    state.nextchar = [] ∧ state.operands = operands ∧
      ∃ written, table.Writes opt text written ∧
        ('-' :: letter :: cluster) :: words = written ++ state.words := by
  unfold short at returned
  split at returned
  · cases returned
  · cases returned
  · rename_i takes
    rcases exists_of_argument returned with ⟨rfl, noMore, same, ⟨rest, kept⟩ | ⟨rest, split⟩⟩
    · split at rest
      · cases rest
      · rename_i nonempty
        cases rest
        exact ⟨noMore, same, _, .attached notDash takes nonempty, by rw [kept]; rfl⟩
    · split at rest
      · rename_i nothing
        exact ⟨noMore, same, _, .apart notDash takes, by rw [split, nothing]; rfl⟩
      · cases rest

theorem writes_of_byName (more : word ≠ [])
    (returned : table.byName word words operands = (⟨opt, some text⟩, state)) :
    state.nextchar = [] ∧ state.operands = operands ∧
      ∃ written, table.Writes opt text written ∧
        ('-' :: '-' :: word) :: words = written ++ state.words := by
  unfold byName at returned
  split at returned
  · cases returned
  · rename_i entry named
    split at returned
    · rename_i takes
      rcases exists_of_argument returned with ⟨val, noMore, same, ⟨rest, kept⟩ | ⟨rest, split⟩⟩
      · rcases Option.map_eq_some_iff.mp rest with ⟨place, found, behind⟩
        rcases Text.find_eq_some_iff.mp found with ⟨name, last, cut, noEquals, length⟩
        have text_eq : last = text := by
          rw [← behind, cut, length]
          simp
        subst text_eq
        rw [cut, Text.upTo_append noEquals] at named
        refine ⟨noMore, same, _, .equals name noEquals entry named takes val, ?_⟩
        rw [cut, kept]
        rfl
      · rw [behindEquals, Option.map_eq_none_iff, Text.find_eq_none_iff] at rest
        rw [Text.upTo_of_notMem rest] at named
        exact ⟨noMore, same, _, .behind word rest more entry named takes val, by rw [split]; rfl⟩
    · cases returned

theorem eq_of_map_some {returned : Found × State}
    (mapped : returned.map some id = (some found, state)) : returned = (found, state) := by
  cases mapped
  rfl

/-- A call skips operands, and then looks at a word by name or letter by letter. -/
theorem exists_of_scan_some (returned : table.scan operands words = (some found, state)) :
    ∃ skipped word rest, (∀ word ∈ skipped, IsOperand word) ∧ words = skipped ++ word :: rest ∧
      ((∃ text, text ≠ [] ∧ word = '-' :: '-' :: text ∧
          table.byName text rest (operands ++ skipped) = (found, state)) ∨
        ∃ letter cluster, letter ≠ '-' ∧ word = '-' :: letter :: cluster ∧
          table.short letter cluster rest (operands ++ skipped) = (found, state)) := by
  induction words generalizing operands with
  | nil => cases returned
  | cons word words ih =>
      by_cases isOperand : IsOperand word
      · rw [scan_operand isOperand] at returned
        rcases ih returned with ⟨skipped, next, rest, areOperands, split, looked⟩
        rw [List.append_assoc, List.singleton_append] at looked
        refine ⟨word :: skipped, next, rest, ?_, ?_, looked⟩
        · exact List.forall_mem_cons.mpr ⟨isOperand, areOperands⟩
        · rw [split, List.cons_append]
      · refine ⟨[], word, words, List.forall_mem_nil _, rfl, ?_⟩
        rw [List.append_nil]
        rcases exists_of_not_isOperand isOperand with
          rfl | ⟨text, more, rfl⟩ | ⟨letter, cluster, notDash, rfl⟩
        · cases returned
        · rw [scan_byName more] at returned
          exact .inl ⟨text, more, rfl, eq_of_map_some returned⟩
        · rw [scan_short notDash] at returned
          exact .inr ⟨letter, cluster, notDash, rfl, eq_of_map_some returned⟩

/-- Where an option with its argument comes from: operands, and then the option, written in
one of the ways. -/
theorem exists_writes
    (returned : table.scan operands words = (some ⟨opt, some text⟩, state)) :
    state.nextchar = [] ∧ ∃ skipped written, (∀ word ∈ skipped, IsOperand word) ∧
      table.Writes opt text written ∧ words = skipped ++ (written ++ state.words) ∧
      state.operands = operands ++ skipped := by
  rcases exists_of_scan_some returned with ⟨skipped, word, rest, areOperands, split,
    ⟨name, more, rfl, looked⟩ | ⟨letter, cluster, notDash, rfl, looked⟩⟩
  · rcases writes_of_byName more looked with ⟨noMore, same, written, writes, taken⟩
    exact ⟨noMore, skipped, written, areOperands, writes, by rw [split, taken], same⟩
  · rcases writes_of_short notDash looked with ⟨noMore, same, written, writes, taken⟩
    exact ⟨noMore, skipped, written, areOperands, writes, by rw [split, taken], same⟩

/-- The end of the options: what is left are operands. -/
theorem reads_of_scan_none (returned : table.scan operands words = (none, state)) :
    ∃ rest, table.Reads words [] rest ∧ state = ⟨[], [], operands ++ rest⟩ := by
  induction words generalizing operands with
  | nil =>
      cases returned
      exact ⟨[], .done, by rw [List.append_nil]⟩
  | cons word words ih =>
      by_cases isOperand : IsOperand word
      · rw [scan_operand isOperand] at returned
        rcases ih returned with ⟨rest, reads, rfl⟩
        exact ⟨word :: rest, .operand word isOperand reads, by simp⟩
      · rcases exists_of_not_isOperand isOperand with
          rfl | ⟨name, more, rfl⟩ | ⟨letter, cluster, notDash, rfl⟩
        · cases returned
          exact ⟨words, .dashes words, rfl⟩
        · rw [scan_byName more] at returned
          cases returned
        · rw [scan_short notDash] at returned
          cases returned

theorem Reads.skip {skipped rest : List (List Char)} {options : List (Char × List Char)}
    (areOperands : ∀ word ∈ skipped, IsOperand word) (reads : table.Reads words options rest) :
    table.Reads (skipped ++ words) options (skipped ++ rest) := by
  induction skipped with
  | nil => exact reads
  | cons word skipped ih =>
      rw [List.forall_mem_cons] at areOperands
      exact .operand word areOperands.1 (ih areOperands.2)

theorem mem_of_takesArgument {takes : Bool}
    (isOption : table.takesArgument? letter = some takes) : letter ∈ table.optstring := by
  unfold takesArgument? at isOption
  split at isOption
  · cases isOption
  · rcases Option.map_eq_some_iff.mp isOption with ⟨place, found, _⟩
    by_contra absent
    rw [Text.find_eq_none_iff.mpr absent] at found
    cases found

theorem mem_of_named {entry : Long} (found : table.named word = some entry) :
    entry ∈ table.long := by
  unfold named at found
  split at found
  · rename_i whole
    cases found
    exact List.mem_of_find?_eq_some whole
  · split at found
    · cases found
    · rename_i others candidates
      split at found
      · cases found
        have isCandidate : entry ∈ table.long.filter fun entry => word <+: entry.name := by
          rw [candidates]
          exact List.mem_cons_self
        exact (List.mem_filter.mp isCandidate).1
      · cases found

theorem Writes.has {written : List (List Char)} (writes : table.Writes opt text written) :
    table.Has opt true := by
  cases writes with
  | attached _ takes _ => exact .inl takes
  | apart _ takes => exact .inl takes
  | equals _ _ entry named takes val => exact .inr ⟨entry, mem_of_named named, takes, val⟩
  | behind _ _ _ entry named takes val => exact .inr ⟨entry, mem_of_named named, takes, val⟩

theorem eq_missing_of_argument {rest : Option (List Char)}
    (returned : table.argument letter rest words operands = (⟨opt, none⟩, state)) :
    opt = table.missing := by
  unfold argument at returned
  split at returned
  · cases returned
  · cases returned
  · cases returned
    rfl

/-- What can be returned without an argument. -/
theorem has_of_optarg_none (returned : table.scan operands words = (some ⟨opt, none⟩, state)) :
    opt = '?' ∨ opt = table.missing ∨ table.Has opt false := by
  rcases exists_of_scan_some returned with ⟨skipped, word, rest, areOperands, split,
    ⟨name, more, rfl, looked⟩ | ⟨letter, cluster, notDash, rfl, looked⟩⟩
  · unfold byName at looked
    split at looked
    · cases looked
      exact .inl rfl
    · rename_i entry named
      split at looked
      · exact .inr (.inl (eq_missing_of_argument looked))
      · rename_i takesNone
        split at looked
        · cases looked
          exact .inr (.inr (.inr ⟨entry, mem_of_named named, by simpa using takesNone, rfl⟩))
        · cases looked
          exact .inl rfl
  · unfold short at looked
    split at looked
    · cases looked
      exact .inl rfl
    · rename_i takesNone
      cases looked
      exact .inr (.inr (.inl takesNone))
    · exact .inr (.inl (eq_missing_of_argument looked))

section Size

theorem size_argument_le (rest : Option (List Char)) :
    (table.argument opt rest words operands).2.size ≤ words.flatten.length + words.length := by
  cases rest with
  | some text => exact (Nat.zero_add _).le
  | none =>
      cases words with
      | nil => simp [argument, State.size]
      | cons text words =>
          simp only [argument_none_cons, State.size, List.length_nil, List.flatten_cons,
            List.length_append, List.length_cons]
          omega

theorem size_short_le (returned : table.short letter cluster words operands = (found, state)) :
    state.size ≤ cluster.length + (words.flatten.length + words.length) := by
  have second : (table.short letter cluster words operands).2 = state := by rw [returned]
  rw [← second, short]
  split
  · exact le_rfl
  · exact le_rfl
  · exact (size_argument_le _).trans (Nat.le_add_left _ _)

theorem size_byName_le (returned : table.byName text words operands = (found, state)) :
    state.size ≤ words.flatten.length + words.length := by
  have second : (table.byName text words operands).2 = state := by rw [returned]
  rw [← second, byName]
  split
  · exact (Nat.zero_add _).le
  · split
    · exact size_argument_le _
    · exact (Nat.zero_add _).le

theorem size_scan_lt (returned : table.scan operands words = (some found, state)) :
    state.size < words.flatten.length + words.length := by
  rcases exists_of_scan_some returned with ⟨skipped, word, rest, areOperands, rfl,
    ⟨name, more, rfl, looked⟩ | ⟨letter, cluster, notDash, rfl, looked⟩⟩
  · have bound := size_byName_le looked
    simp only [List.flatten_append, List.flatten_cons, List.length_append, List.length_cons]
    omega
  · have bound := size_short_le looked
    simp only [List.flatten_append, List.flatten_cons, List.length_append, List.length_cons]
    omega

/-- Every call which returns an option takes something off the words. -/
theorem size_next_lt {before : State} (returned : table.next before = (some found, state)) :
    state.size < before.size := by
  unfold next at returned
  split at returned
  · rename_i letter cluster ahead
    have bound := size_short_le (eq_of_map_some returned)
    rw [State.size.eq_def before, ahead, List.length_cons]
    omega
  · exact (size_scan_lt returned).trans_le (Nat.le_add_left _ _)

end Size

end Scan

end Table

end Getopt
