import LoadBalance.Lib.Decimal
import LoadBalance.Lib.Text

/-!
# The target of the benchmark

`build_request` takes the host and the port from `url` with `strchr`, `index` and
`strncpy`. Only the absence of a `/` is answered with an exit. What the C standard leaves
undefined has no value here: the difference of a null pointer, a copy which overruns its
array, and a string without end. A character is a byte.
-/

namespace LoadBalance.Bench

open Decimal

/-- An argument of the command line. -/
structure CString where
  text : List Char
  terminated : '\x00' ∉ text

/-- `MAXHOSTNAMELEN` -/
def maxHostNameLen : ℕ := 64

/-- An array after `memset(array, 0, size)`. -/
def zeros (size : ℕ) : List Char := List.replicate size '\x00'

/-- `strncpy(array, text, count)`, which fills up with zeros behind the end of the text. As a
`size_t`, a negative count is larger than every array. -/
def strncpy (array text : List Char) (count : ℤ) : Option (List Char) :=
  if 0 ≤ count ∧ count ≤ array.length then
    some ((text ++ zeros count.toNat).take count.toNat ++ array.drop count.toNat)
  else none

/-- The string in an array, if it ends there. -/
def string (array : List Char) : Option (List Char) :=
  if '\x00' ∈ array then some (Text.upTo '\x00' array) else none

def atoi (text : List Char) : ℤ := (numeral (dropSpace text)).value

/-- `strchr(url,':') - url` -/
def hostCount (url : List Char) : Option ℤ := (Text.find ':' url).map fun colon : ℕ => (colon : ℤ)

/-- `strchr(url,'/') - index(url, ':') - 1` -/
def portCount (url : List Char) : Option ℤ :=
  (Text.find ':' url).bind fun colon =>
    (Text.find '/' url).map fun slash : ℕ => (slash : ℤ) - colon - 1

inductive Target where
  | exited (status : ℤ)
  | undefined
  | parsed (host : List Char) (port : ℤ)
deriving DecidableEq

/-- The two copies, into `host` and into `tmp`, and the number in `tmp`. -/
def copies (url : List Char) : Option (List Char × ℤ) := do
  let count ← hostCount url
  let host ← strncpy (zeros maxHostNameLen) url count
  let colon ← Text.find ':' url
  let count ← portCount url
  let tmp ← strncpy (zeros 10) (url.drop (colon + 1)) count
  let number ← string tmp
  return (host, atoi number)

/-- The part of `build_request` which looks at `url`. -/
def parseUrl (url : List Char) : Target :=
  if Text.find '/' url = none then .exited 2
  else match copies url with
    | none => .undefined
    | some (host, port) => .parsed host port

/-- White space, which `atoi` skips, a number and nothing else. -/
def IsPort (text : List Char) (value : ℤ) : Prop := Denotes (dropSpace text) value

/-- The text is rejected, or a colon is found in front of the slash, the counts leave room for
the end of both strings, and host and port are what the text has there. -/
def ParsesSafely (url : List Char) : Prop :=
  parseUrl url = .exited 2 ∨
    ∃ colon slash, Text.find ':' url = some colon ∧ Text.find '/' url = some slash ∧
      colon < slash ∧
      (∃ count, hostCount url = some count ∧ 0 ≤ count ∧ count ≤ maxHostNameLen - 1) ∧
      (∃ count, portCount url = some count ∧ 0 ≤ count ∧ count ≤ 9) ∧
      ∃ host port, parseUrl url = .parsed host port ∧ string host = some (url.take colon) ∧
        IsPort ((url.drop (colon + 1)).take (slash - colon - 1)) port

/-- A host of less than 64 characters, a colon, a port of less than 10, and a slash. -/
structure WellFormed (url host port rest : List Char) : Prop where
  split : url = host ++ ':' :: (port ++ '/' :: rest)
  noColon : ':' ∉ host
  noSlash : '/' ∉ host ∧ '/' ∉ port
  hostFits : host.length < maxHostNameLen
  portFits : port.length < 10
  number : ∃ value, IsPort port value

theorem strncpy_zeros {size : ℕ} {text rest : List Char} (fits : text.length ≤ size) :
    strncpy (zeros size) (text ++ rest) text.length =
      some (text ++ zeros (size - text.length)) := by
  have inside : (0 : ℤ) ≤ text.length ∧ (text.length : ℤ) ≤ (zeros size).length := by
    simp [zeros, fits]
  rw [strncpy, if_pos inside]
  simp [zeros]

theorem string_zeros {text : List Char} (terminated : '\x00' ∉ text) {count : ℕ}
    (room : 0 < count) : string (text ++ zeros count) = some text := by
  rcases Nat.exists_eq_succ_of_ne_zero room.ne' with ⟨more, rfl⟩
  have ended : zeros (more + 1) = '\x00' :: zeros more := rfl
  rw [string, ended, if_pos (by simp), Text.upTo_append terminated]

/-- The text between the first colon and the first `/` is the port. -/
theorem take_port {text host port rest : List Char}
    (split : text = host ++ ':' :: (port ++ '/' :: rest)) :
    (text.drop (host.length + 1)).take (host.length + 1 + port.length - host.length - 1) =
      port := by
  have length : host.length + 1 + port.length - host.length - 1 = port.length := by omega
  simp [split, ← List.drop_drop, length]

section WellFormed

variable {url : CString} {text host port rest : List Char}

theorem WellFormed.marks (wellFormed : WellFormed text host port rest) :
    Text.find ':' text = some host.length ∧
      Text.find '/' text = some (host.length + 1 + port.length) ∧
      host.length < host.length + 1 + port.length := by
  apply (Text.find_lt_find_iff (by decide)).mpr
  exact ⟨host, port, rest, wellFormed.split, wellFormed.noColon, wellFormed.noSlash.1,
    wellFormed.noSlash.2, rfl, rfl⟩

theorem WellFormed.portCount_eq (wellFormed : WellFormed text host port rest) :
    portCount text = some (port.length : ℤ) := by
  rcases wellFormed.marks with ⟨colon, slash, _⟩
  rw [portCount, colon, slash, Option.bind_some, Option.map_some, Option.some.injEq]
  push_cast
  omega

theorem WellFormed.copies_eq (wellFormed : WellFormed url.text host port rest) {value : ℤ}
    (isPort : IsPort port value) :
    copies url.text = some (host ++ zeros (maxHostNameLen - host.length), value) := by
  have ended := url.terminated
  rw [wellFormed.split] at ended
  simp only [List.mem_append, List.mem_cons, not_or] at ended
  have colon := wellFormed.marks.1
  have hostCopied : strncpy (zeros maxHostNameLen) url.text host.length =
      some (host ++ zeros (maxHostNameLen - host.length)) := by
    rw [wellFormed.split]
    exact strncpy_zeros wellFormed.hostFits.le
  have behind : url.text.drop (host.length + 1) = port ++ '/' :: rest := by
    simp [wellFormed.split, ← List.drop_drop]
  have portCopied : strncpy (zeros 10) (port ++ '/' :: rest) port.length =
      some (port ++ zeros (10 - port.length)) := strncpy_zeros wellFormed.portFits.le
  have read : string (port ++ zeros (10 - port.length)) = some port :=
    string_zeros ended.2.2.1 (Nat.sub_pos_of_lt wellFormed.portFits)
  have number : atoi port = value := isPort.2.2
  simp only [copies, hostCount, colon, Option.map_some, Option.bind_eq_bind, Option.bind_some,
    hostCopied, wellFormed.portCount_eq, behind, portCopied, read, number]
  rfl

theorem WellFormed.parsesSafely (wellFormed : WellFormed url.text host port rest) :
    ParsesSafely url.text := by
  rcases wellFormed.marks with ⟨colon, slash, before⟩
  rcases wellFormed.number with ⟨value, isPort⟩
  have ended := url.terminated
  rw [wellFormed.split] at ended
  simp only [List.mem_append, not_or] at ended
  have hostFits := wellFormed.hostFits
  have portFits := wellFormed.portFits
  refine .inr ⟨_, _, colon, slash, before, ⟨host.length, ?_, by omega, by omega⟩,
    ⟨port.length, wellFormed.portCount_eq, by omega, by omega⟩,
    host ++ zeros (maxHostNameLen - host.length), value, ?_, ?_, ?_⟩
  · rw [hostCount, colon, Option.map_some]
  · rw [parseUrl, slash, if_neg nofun, wellFormed.copies_eq isPort]
  · rw [string_zeros ended.1 (Nat.sub_pos_of_lt hostFits)]
    simp [wellFormed.split]
  · rwa [take_port wellFormed.split]

end WellFormed

/-- What the counts and the number say about the text. -/
theorem exists_wellFormed {url : List Char} (slashMem : '/' ∈ url) (safe : ParsesSafely url) :
    ∃ host port rest, WellFormed url host port rest := by
  rcases safe with exited | ⟨colon, slash, found, foundSlash, before, ⟨hostCount', counted, _,
    hostFits⟩, ⟨portCount', countedPort, _, portFits⟩, host, value, _, _, number⟩
  · rw [parseUrl, if_neg (fun none => Text.find_eq_none_iff.mp none slashMem)] at exited
    split at exited
    · cases exited
    · cases exited
  · rcases (Text.find_lt_find_iff (by decide)).mp ⟨found, foundSlash, before⟩ with
      ⟨host, port, rest, split, noColon, noSlashHost, noSlashPort, rfl, rfl⟩
    rw [take_port split] at number
    rw [hostCount, found, Option.map_some, Option.some.injEq] at counted
    rw [portCount, found, foundSlash, Option.bind_some, Option.map_some, Option.some.injEq]
      at countedPort
    refine ⟨host, port, rest, split, noColon, ⟨noSlashHost, noSlashPort⟩, ?_, ?_, value, number⟩
    · omega
    · push_cast at countedPort
      omega

/--
For every text, the parsing is safe and right if and only if the text has no `/`, or is a
host of less than 64 characters, a colon and a port of less than 10 in front of the
first `/`.
-/
theorem parsesSafely_iff (url : CString) :
    ParsesSafely url.text ↔
      ('/' ∈ url.text → ∃ host port rest, WellFormed url.text host port rest) := by
  constructor
  · intro safe slashMem
    exact exists_wellFormed slashMem safe
  · intro wellFormed
    by_cases slashMem : '/' ∈ url.text
    · rcases wellFormed slashMem with ⟨host, port, rest, wellFormed⟩
      exact wellFormed.parsesSafely
    · exact .inl (if_pos (Text.find_eq_none_iff.mpr slashMem))

/-- A host without a port: there is no colon, and the count is the difference of a null
pointer. -/
theorem not_parsesSafely_without_colon :
    '/' ∈ "localhost/".toList ∧ hostCount "localhost/".toList = none ∧
      parseUrl "localhost/".toList = .undefined ∧ ¬ParsesSafely "localhost/".toList := by
  have undefined : parseUrl "localhost/".toList = .undefined := by decide +kernel
  refine ⟨by decide +kernel, by decide +kernel, undefined, ?_⟩
  rintro (exited | ⟨_, _, _, _, _, _, _, host, port, parsed, _⟩)
  · rw [undefined] at exited
    cases exited
  · rw [undefined] at parsed
    cases parsed

end LoadBalance.Bench
