import Mathlib.Data.List.Perm.Basic
import LoadBalance.Lib.Getopt
import LoadBalance.Bench.Children
import LoadBalance.Bench.Request
import LoadBalance.Bench.Url

/-!
# The command line of the benchmarks

`main` of `test_bench.c` and of `someip_bench.c` up to the call of `bench`. The words of
the command line are strings, so that no character in them is 0.
-/

namespace LoadBalance.Bench

open Decimal Getopt

/-- `long_options`, and the letters behind it -/
def longOptions : Table where
  optstring :=
    ['V', 'S', ':', 'M', ':', 'C', ':', 'E', ':', 't', ':', 'c', ':', '?', 'h']
  long := [
    ⟨['t', 'i', 'm', 'e'], true, 't'⟩,
    ⟨['s', 'e', 'r', 'v', 'e', 'r', 'i', 'd'], true, 'S'⟩,
    ⟨['m', 'e', 't', 'h', 'o', 'd', 'i', 'd'], true, 'M'⟩,
    ⟨['c', 'l', 'i', 'e', 'n', 't', 'i', 'd'], true, 'C'⟩,
    ⟨['s', 'e', 's', 's', 'i', 'o', 'n', 'i', 'd'], true, 'E'⟩,
    ⟨['h', 'e', 'l', 'p'], false, '?'⟩,
    ⟨['v', 'e', 'r', 's', 'i', 'o', 'n'], false, 'V'⟩,
    ⟨['c', 'l', 'i', 'e', 'n', 't', 's'], true, 'c'⟩]

/-- The global variables which the options set. -/
structure Settings where
  parameters : Parameters
  benchtime : ℤ
  clients : ℤ
deriving DecidableEq, Repr

def Settings.initial : Settings where
  parameters := ⟨1, 2, 3, 4, 1⟩
  benchtime := 30
  clients := 1

/-- What becomes of `main`. -/
inductive Outcome where
  | returned (status : ℤ)
  | exited (status : ℤ)
  | undefined
  /-- `bench` is called. -/
  | benches (settings : Settings) (host : List Char) (port : ℤ)
deriving DecidableEq, Repr

/-- The values of `int` -/
def IsInt (value : ℤ) : Prop := -2 ^ 31 ≤ value ∧ value < 2 ^ 31

instance (value : ℤ) : Decidable (IsInt value) := inferInstanceAs (Decidable (_ ∧ _))

/-- `atoi(optarg)`, which is not defined for a null pointer or a number out of range. -/
def argumentNumber (optarg : Option (List Char)) : Except Outcome ℤ :=
  match optarg with
  | none => .error .undefined
  | some text => if IsInt (atoi text) then .ok (atoi text) else .error .undefined

/-- The assignment of an option. -/
def Settings.assign (settings : Settings) (opt : Char) (value : ℤ) : Settings :=
  let parameters := settings.parameters
  match opt with
  | 't' => { settings with benchtime := value }
  | 'S' => { settings with parameters := { parameters with serviceId := .ofInt 16 value } }
  | 'M' => { settings with parameters := { parameters with methodId := .ofInt 16 value } }
  | 'C' => { settings with parameters := { parameters with clientId := .ofInt 16 value } }
  | 'E' => { settings with parameters := { parameters with sessionId := .ofInt 16 value } }
  | 'c' => { settings with clients := value }
  | _ => settings

/-- `switch(opt)` -/
def Settings.switch (settings : Settings) (found : Found) : Except Outcome Settings :=
  match found.opt with
  | 'V' => .error (.exited 0)
  | ':' | '?' | 'h' => .error (.returned 2)
  | 't' | 'S' | 'M' | 'C' | 'E' | 'c' =>
      (argumentNumber found.optarg).map (settings.assign found.opt)
  | _ => .ok settings

/-- The loop around `getopt_long`, with the words from `argv[optind]` on at its end. -/
def readOptions (state : State) (settings : Settings) :
    Except Outcome (Settings × List (List Char)) :=
  match _ : longOptions.next state with
  | (none, state) => .ok (settings, state.operands)
  | (some found, state) =>
      match settings.switch found with
      | .error outcome => .error outcome
      | .ok settings => readOptions state settings
termination_by state.size
decreasing_by exact Table.size_next_lt ‹_›

/-- `main`, from the words behind the name of the program -/
def main (words : List (List Char)) : Outcome :=
  if words = [] then .returned 2
  else match readOptions ⟨[], words, []⟩ .initial with
    | .error outcome => outcome
    | .ok (_, []) => .returned 2
    | .ok (settings, url :: _) =>
        match parseUrl url with
        | .exited status => .exited status
        | .undefined => .undefined
        | .parsed host port =>
            .benches
              { settings with
                clients := mainClients settings.clients
                benchtime := if settings.benchtime = 0 then 30 else settings.benchtime }
              host port

/-- The number which is given last with an option, or else what the variable holds before. -/
def given (options : List (Char × List Char)) (opt : Char) (initial : ℤ) : ℤ :=
  ((options.filter fun option => option.1 = opt).getLast?.map fun option =>
    atoi option.2).getD initial

/-- The variables after these options, in any order. -/
def asked (options : List (Char × List Char)) : Settings where
  parameters := {
    serviceId := .ofInt 16 (given options 'S' 1)
    methodId := .ofInt 16 (given options 'M' 2)
    clientId := .ofInt 16 (given options 'C' 3)
    sessionId := .ofInt 16 (given options 'E' 4)
    messageType := 1 }
  benchtime := if given options 't' 30 = 0 then 30 else given options 't' 30
  clients := mainClients (given options 'c' 1)

/-- The assignments of these options, one after the other. -/
def Settings.assignAll (settings : Settings) (options : List (Char × List Char)) : Settings :=
  options.foldl (fun settings option => settings.assign option.1 (atoi option.2)) settings

section Letters

variable {opt : Char}

theorem mem_of_has_true (has : longOptions.Has opt true) :
    opt ∈ ['t', 'S', 'M', 'C', 'E', 'c'] := by
  have letters : ∀ opt ∈ longOptions.optstring, longOptions.takesArgument? opt = some true →
      opt ∈ ['t', 'S', 'M', 'C', 'E', 'c'] := by
    intro opt optMem
    simp only [longOptions, List.mem_cons, List.not_mem_nil, or_false] at optMem
    rcases optMem with rfl | rfl | rfl | rfl | rfl | rfl | rfl | rfl | rfl | rfl | rfl | rfl |
      rfl | rfl | rfl
    all_goals decide
  have names : ∀ entry ∈ longOptions.long, entry.takesArgument = true →
      entry.val ∈ ['t', 'S', 'M', 'C', 'E', 'c'] := by decide
  rcases has with takes | ⟨entry, entryMem, takes, rfl⟩
  · exact letters opt (Table.mem_of_takesArgument takes) takes
  · exact names entry entryMem takes

theorem mem_of_has_false (has : longOptions.Has opt false) : opt ∈ ['V', '?', 'h'] := by
  have letters : ∀ opt ∈ longOptions.optstring, longOptions.takesArgument? opt = some false →
      opt ∈ ['V', '?', 'h'] := by
    intro opt optMem
    simp only [longOptions, List.mem_cons, List.not_mem_nil, or_false] at optMem
    rcases optMem with rfl | rfl | rfl | rfl | rfl | rfl | rfl | rfl | rfl | rfl | rfl | rfl |
      rfl | rfl | rfl
    all_goals decide
  have names : ∀ entry ∈ longOptions.long, entry.takesArgument = false →
      entry.val ∈ ['V', '?', 'h'] := by decide
  rcases has with takes | ⟨entry, entryMem, takes, rfl⟩
  · exact letters opt (Table.mem_of_takesArgument takes) takes
  · exact names entry entryMem takes

/-- With an argument, the switch assigns its number. -/
theorem switch_argument (settings : Settings) (text : List Char)
    (letter : opt ∈ ['t', 'S', 'M', 'C', 'E', 'c']) :
    settings.switch ⟨opt, some text⟩ =
      if IsInt (atoi text) then .ok (settings.assign opt (atoi text)) else .error .undefined := by
  have distributes : (argumentNumber (some text)).map (settings.assign opt) =
      if IsInt (atoi text) then .ok (settings.assign opt (atoi text)) else .error .undefined := by
    rw [argumentNumber]
    split
    · rfl
    · rfl
  simp only [List.mem_cons, List.not_mem_nil, or_false] at letter
  rcases letter with rfl | rfl | rfl | rfl | rfl | rfl
  all_goals exact distributes

theorem switch_error {settings : Settings} {found : Found} {outcome : Outcome}
    (left : settings.switch found = .error outcome) :
    outcome = .exited 0 ∨ outcome = .returned 2 ∨ outcome = .undefined := by
  have number : ∀ outcome, (argumentNumber found.optarg).map (settings.assign found.opt) =
      .error outcome → outcome = .undefined := by
    intro outcome failed
    unfold argumentNumber at failed
    split at failed
    · cases failed
      rfl
    · split at failed
      · cases failed
      · cases failed
        rfl
  unfold Settings.switch at left
  split at left
  · cases left
    exact .inl rfl
  · cases left
    exact .inr (.inl rfl)
  · cases left
    exact .inr (.inl rfl)
  · cases left
    exact .inr (.inl rfl)
  all_goals first
    | exact .inr (.inr (number outcome left))
    | cases left

/-- Without an argument, the loop is left. -/
theorem switch_none (settings : Settings) {before after : State}
    (returned : longOptions.next before = (some ⟨opt, none⟩, after))
    (fresh : before.nextchar = []) : ∃ outcome, settings.switch ⟨opt, none⟩ = .error outcome := by
  rw [Table.next, fresh] at returned
  have letter : opt ∈ ['V', '?', 'h'] := by
    rcases Table.has_of_optarg_none returned with rfl | rfl | has
    · decide
    · decide
    · exact mem_of_has_false has
  simp only [List.mem_cons, List.not_mem_nil, or_false] at letter
  rcases letter with rfl | rfl | rfl
  all_goals exact ⟨_, rfl⟩

end Letters

section Loop

variable {words operands rest : List (List Char)} {options : List (Char × List Char)}
  {settings final : Settings} {state : State}

theorem readOptions_eq (state : State) (settings : Settings) :
    readOptions state settings =
      match longOptions.next state with
      | (none, state) => .ok (settings, state.operands)
      | (some found, state) =>
          match settings.switch found with
          | .error outcome => .error outcome
          | .ok settings => readOptions state settings := by
  rw [readOptions]
  split
  · rename_i equal
    rw [equal]
  · rename_i equal
    rw [equal]

/-- The loop reads what is written, whatever it has found before. -/
theorem readOptions_of_reads (reads : longOptions.Reads words options rest)
    (inRange : ∀ option ∈ options, IsInt (atoi option.2)) (before : List (List Char))
    (settings : Settings) :
    readOptions ⟨[], words, before⟩ settings =
      .ok (settings.assignAll options, before ++ rest) := by
  induction reads generalizing before settings with
  | done => rw [readOptions_eq, Table.next, Table.scan, List.append_nil]; rfl
  | dashes rest => rw [readOptions_eq, Table.next, Table.scan]; rfl
  | operand word isOperand _ ih =>
      have skipped := ih inRange (before ++ [word]) settings
      rw [List.append_assoc, List.singleton_append] at skipped
      rw [readOptions_eq, Table.next, Table.scan_operand isOperand, ← skipped,
        readOptions_eq ⟨[], _, before ++ [word]⟩, Table.next]
  | option opt text written writes _ ih =>
      rw [List.forall_mem_cons] at inRange
      rw [readOptions_eq, Table.next, writes.scan]
      simp only [switch_argument settings text (mem_of_has_true writes.has), if_pos inRange.1]
      exact ih inRange.2 before (settings.assign opt (atoi text))

/-- What the loop has read without leaving is written in the words. -/
theorem exists_reads_of_readOptions (fresh : state.nextchar = [])
    (read : readOptions state settings = .ok (final, operands)) :
    ∃ options rest, longOptions.Reads state.words options rest ∧
      (∀ option ∈ options, IsInt (atoi option.2)) ∧ operands = state.operands ++ rest ∧
      final = settings.assignAll options := by
  fun_induction readOptions state settings with
  | case1 before settings after ended =>
      rw [Table.next, fresh] at ended
      rcases Table.reads_of_scan_none ended with ⟨rest, reads, rfl⟩
      cases read
      exact ⟨[], rest, reads, by simp, rfl, rfl⟩
  | case2 before settings found after returned outcome left => cases read
  | case3 before settings found after returned next switched ih =>
      rcases found with ⟨opt, _ | text⟩
      · rcases switch_none settings returned fresh with ⟨outcome, left⟩
        rw [left] at switched
        cases switched
      · rw [Table.next, fresh] at returned
        rcases Table.exists_writes returned with
          ⟨noMore, skipped, written, areOperands, writes, split, moved⟩
        rcases ih noMore read with ⟨options, rest, reads, inRange, operands_eq, final_eq⟩
        rw [switch_argument settings text (mem_of_has_true writes.has)] at switched
        split at switched
        · rename_i isInt
          cases switched
          refine ⟨(opt, text) :: options, skipped ++ rest, ?_, ?_, ?_, final_eq⟩
          · rw [split]
            exact .skip areOperands (.option opt text written writes reads)
          · exact List.forall_mem_cons.mpr ⟨isInt, inRange⟩
          · rw [operands_eq, moved, List.append_assoc]
        · cases switched

/-- The loop is left for one of the exits of `main`. -/
theorem readOptions_ne_benches (state : State) (settings asked : Settings) (host : List Char)
    (port : ℤ) : readOptions state settings ≠ .error (.benches asked host port) := by
  fun_induction readOptions state settings with
  | case1 => simp
  | case2 before settings found after returned outcome left =>
      intro benches
      cases benches
      rcases switch_error left with ended | ended | ended
      all_goals cases ended
  | case3 before settings found after returned next switched ih => exact ih

end Loop

section Given

variable {words operands : List (List Char)} {options : List (Char × List Char)}

theorem given_concat (options : List (Char × List Char)) (option : Char × List Char) (opt : Char)
    (initial : ℤ) :
    given (options ++ [option]) opt initial =
      if option.1 = opt then atoi option.2 else given options opt initial := by
  rw [given, List.filter_append, List.filter_singleton]
  by_cases same : option.1 = opt
  · simp [same]
  · simp [same, given]

/-- The last assignment to a variable is the one which counts. -/
theorem assignAll_initial (options : List (Char × List Char)) :
    Settings.initial.assignAll options =
      { parameters := (asked options).parameters
        benchtime := given options 't' 30
        clients := given options 'c' 1 } := by
  induction options using List.reverseRecOn with
  | nil => rfl
  | append_singleton options option ih =>
      have last : Settings.initial.assignAll (options ++ [option]) =
          (Settings.initial.assignAll options).assign option.1 (atoi option.2) := by
        simp [Settings.assignAll]
      rcases option with ⟨opt, text⟩
      rw [last, ih]
      simp only [asked, given_concat, Settings.assign]
      split
      all_goals simp_all

theorem main_of_reads {url : List Char} {host : List Char} {port : ℤ}
    (reads : longOptions.Reads words options (url :: operands))
    (inRange : ∀ option ∈ options, IsInt (atoi option.2))
    (parsed : parseUrl url = .parsed host port) :
    main words = .benches (asked options) host port := by
  have nonempty : words ≠ [] := by
    rintro rfl
    generalize nothing : ([] : List (List Char)) = none, some : url :: operands = rest at reads
    cases reads with
    | done => cases some
    | dashes => cases nothing
    | operand => cases nothing
    | option _ _ _ writes =>
        cases writes
        all_goals cases nothing
  rw [main, if_neg nonempty, readOptions_of_reads reads inRange, List.nil_append,
    assignAll_initial]
  simp only [parsed]
  rfl

/-- `main` calls `bench` if and only if the words are written as options with numbers and at
least one operand, the first of which is a target which can be parsed. What is left of the
options is the number given last with each of them. -/
theorem main_eq_benches_iff {settings : Settings} {host : List Char} {port : ℤ} :
    main words = .benches settings host port ↔
      ∃ options url operands, longOptions.Reads words options (url :: operands) ∧
        (∀ option ∈ options, IsInt (atoi option.2)) ∧ parseUrl url = .parsed host port ∧
        settings = asked options := by
  constructor
  · intro benches
    unfold main at benches
    split at benches
    · cases benches
    · split at benches
      · rename_i outcome left
        rw [benches] at left
        exact absurd left (readOptions_ne_benches _ _ settings host port)
      · cases benches
      · rename_i final url operands read
        rcases exists_reads_of_readOptions rfl read with
          ⟨options, rest, reads, inRange, operands_eq, rfl⟩
        rw [List.nil_append] at operands_eq
        subst operands_eq
        split at benches
        · cases benches
        · cases benches
        · rename_i host port parsed
          rw [assignAll_initial] at benches
          cases benches
          exact ⟨options, url, operands, reads, inRange, parsed, rfl⟩
  · rintro ⟨options, url, operands, reads, inRange, parsed, rfl⟩
    exact main_of_reads reads inRange parsed

end Given

/-- The options which ask for some settings. -/
def Settings.options (settings : Settings) : List (Char × List Char) :=
  [('t', print settings.benchtime), ('c', print settings.clients),
    ('S', print settings.parameters.serviceId.toNat),
    ('M', print settings.parameters.methodId.toNat),
    ('C', print settings.parameters.clientId.toNat),
    ('E', print settings.parameters.sessionId.toNat)]

/-- The settings which can be asked for: there is no option for the type of the message, and
0 is replaced. -/
structure Settings.Askable (settings : Settings) : Prop where
  time : IsInt settings.benchtime ∧ settings.benchtime ≠ 0
  clients : IsInt settings.clients ∧ settings.clients ≠ 0
  messageType : settings.parameters.messageType = 1

section Printed

variable {words operands : List (List Char)} {settings : Settings}
  {options : List (Char × List Char)}

@[simp]
theorem atoi_print (value : ℤ) : atoi (print value) = value := by
  have noSpace : dropSpace (print value ++ []) = print value ++ [] :=
    dropSpace_append (List.forall_mem_nil _) head_print_append
  have read := numeral_print_append value (show Ends [] by simp [Ends])
  rw [List.append_nil] at noSpace read
  rw [atoi, noSpace, read, value_printed]

theorem isInt_toNat (value : BitVec 16) : IsInt (value.toNat : ℤ) := by
  have small := value.isLt
  unfold IsInt
  omega

/-- Only the one option with a letter decides. -/
theorem given_of_perm (same : options.Perm settings.options) (opt : Char) {text : List Char}
    (single : settings.options.filter (fun option => option.1 = opt) = [(opt, text)])
    (initial : ℤ) : given options opt initial = atoi text := by
  have filtered := same.filter fun option => option.1 = opt
  rw [single, List.perm_singleton] at filtered
  rw [given, filtered]
  rfl

theorem asked_of_perm (askable : settings.Askable) (same : options.Perm settings.options) :
    asked options = settings := by
  have time := given_of_perm same 't' rfl 30
  have clients := given_of_perm same 'c' rfl 1
  have serviceId := given_of_perm same 'S' rfl 1
  have methodId := given_of_perm same 'M' rfl 2
  have clientId := given_of_perm same 'C' rfl 3
  have sessionId := given_of_perm same 'E' rfl 4
  rw [atoi_print] at time clients serviceId methodId clientId sessionId
  rcases settings with ⟨⟨_, _, _, _, messageType⟩, benchtime, number⟩
  have type : messageType = 1 := askable.messageType
  have someTime : benchtime ≠ 0 := askable.time.2
  have someClients : number ≠ 0 := askable.clients.2
  simp [asked, time, clients, serviceId, methodId, clientId, sessionId, mainClients, type, someTime,
    someClients]

theorem isInt_of_perm (askable : settings.Askable) (same : options.Perm settings.options) :
    ∀ option ∈ options, IsInt (atoi option.2) := by
  have printed : ∀ option ∈ settings.options, ∃ value, IsInt value ∧ option.2 = print value := by
    simp only [Settings.options, List.forall_mem_cons]
    exact ⟨⟨_, askable.time.1, rfl⟩, ⟨_, askable.clients.1, rfl⟩, ⟨_, isInt_toNat _, rfl⟩,
      ⟨_, isInt_toNat _, rfl⟩, ⟨_, isInt_toNat _, rfl⟩, ⟨_, isInt_toNat _, rfl⟩,
      List.forall_mem_nil _⟩
  intro option optionMem
  rcases printed option (same.mem_iff.mp optionMem) with ⟨value, isInt, text⟩
  rwa [text, atoi_print]

/-- The settings which are asked for are those of the benchmark, in whatever order and way the
options are written and wherever the target stands between them. -/
theorem main_of_printed {url : CString} {host port rest : List Char} {number : ℤ}
    (askable : settings.Askable) (same : options.Perm settings.options)
    (wellFormed : WellFormed url.text host port rest) (isPort : IsPort port number)
    (reads : longOptions.Reads words options (url.text :: operands)) :
    main words =
      .benches settings (host ++ zeros (maxHostNameLen - host.length)) number := by
  have parsed : parseUrl url.text =
      .parsed (host ++ zeros (maxHostNameLen - host.length)) number := by
    rw [parseUrl, wellFormed.marks.2.1, if_neg (Option.some_ne_none _),
      wellFormed.copies_eq isPort]
  have started := main_of_reads reads (isInt_of_perm askable same) parsed
  rwa [asked_of_perm askable same] at started

theorem main_of_printed_sampleWords :
    main [['-', 'c', '5'], ['-', '-', 't', 'i', 'm', 'e', '=', '9'], ['-', 'S'], ['7'],
        ['h', ':', '1', '/'], ['-', '-', 'm', 'e'], ['8'], ['-', 'C', '2'], ['-', 'E', '3']] =
      .benches ⟨⟨7, 8, 2, 3, 1⟩, 9, 5⟩ (['h'] ++ zeros 63) 1 := by
  have wellFormed : WellFormed ['h', ':', '1', '/'] ['h'] ['1'] [] :=
    ⟨rfl, by decide, by decide, by decide, by decide, 1, by decide, by decide, by decide⟩
  have reads : longOptions.Reads _ [('c', ['5']), ('t', ['9']), ('S', ['7']), ('M', ['8']),
      ('C', ['2']), ('E', ['3'])] [['h', ':', '1', '/']] :=
    .option _ _ _ (.attached (by decide) (by decide) (by decide)) <|
    .option _ _ _ (.equals ['t', 'i', 'm', 'e'] (by decide) _ rfl rfl rfl) <|
    .option _ _ _ (.apart (by decide) (by decide)) <|
    .operand _ (by decide) <|
    .option _ _ _ (.behind ['m', 'e'] (by decide) (by decide) _ rfl rfl rfl) <|
    .option _ _ _ (.attached (by decide) (by decide) (by decide)) <|
    .option _ _ _ (.attached (by decide) (by decide) (by decide)) .done
  exact @main_of_printed _ _ ⟨⟨7, 8, 2, 3, 1⟩, 9, 5⟩ _ ⟨['h', ':', '1', '/'], by decide⟩ _ _ _ 1
    ⟨by decide, by decide, rfl⟩ (by decide +kernel) wellFormed ⟨by decide, by decide, by decide⟩
    reads

end Printed

end LoadBalance.Bench
