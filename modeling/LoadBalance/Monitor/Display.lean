import Mathlib.Algebra.BigOperators.Group.List.Basic
import Mathlib.Data.List.Chain
import Mathlib.Tactic.FieldSimp
import Mathlib.Tactic.NormNum
import Mathlib.Tactic.Ring
import LoadBalance.Monitor.Decoding
import LoadBalance.Monitor.ProcFiles

/-!
# What the monitor of a process prints

The loop of `main` in `procmon.cc` prints two percentages in each tick. They are taken of a
fixed period, whatever has passed since the last tick, and a tick which finds the file empty
prints zeros and leaves the times of the process to the next one.
-/

universe u

namespace LoadBalance.Process

open Monitor (FileCalls)

/-- The monitor, with the numbers which `printf` was given. -/
structure Display (R : Type u) where
  watch : Watch R
  lines : List (R × R)

/-- `p.first * 100` and `p.second * 100`, in a tick which returns. -/
def Watch.printed {R : Type u} [Double R] (kP : R) (watch : Watch R) (calls : Calls) :
    Option (R × R) :=
  match watch.flow with
  | .running =>
      if calls.fd < 0 then none
      else (readLoop [] calls.reads).bind fun content =>
        (watch.pm.tick kP calls.stale content).map fun ticked =>
          (ticked.usage.1 * Double.ofRat 100, ticked.usage.2 * Double.ofRat 100)
  | .exited _ | .terminated => none

namespace Display

variable {R : Type u}

def start (pm : Procmon R) (descriptors : Finset ℤ) : Display R := ⟨.start pm descriptors, []⟩

def step [Double R] (kP : R) (display : Display R) (calls : Calls) : Option (Display R) :=
  (display.watch.step kP calls).map fun watch =>
    { watch, lines := display.lines ++ (display.watch.printed kP calls).toList }

end Display

/-- The line is one which a tick decodes. -/
structure StatLine.Fits (kbPerPage : ℤ) (line : StatLine) : Prop where
  short : line.comm.length < 2 ^ 31
  small : line.flags < 2 ^ 31
  resident : -2 ^ 63 ≤ line.rss * kbPerPage ∧ line.rss * kbPerPage ≤ 2 ^ 63 - 1

instance (kbPerPage : ℤ) (line : StatLine) : Decidable (line.Fits kbPerPage) :=
  decidable_of_iff (line.comm.length < 2 ^ 31 ∧ line.flags < 2 ^ 31 ∧
      -2 ^ 63 ≤ line.rss * kbPerPage ∧ line.rss * kbPerPage ≤ 2 ^ 63 - 1)
    ⟨fun ⟨short, small, resident⟩ => ⟨short, small, resident⟩,
      fun fits => ⟨fits.short, fits.small, fits.resident⟩⟩

/-- A tick which finds the line as the kernel prints it, cut into any pieces, or nothing. -/
structure Round (kbPerPage : ℤ) where
  line : Option StatLine
  calls : Calls
  fits : ∀ given ∈ line, given.Fits kbPerPage
  deliver : (FileCalls.mk calls.fd calls.reads).Deliver (line.elim [] StatLine.text)

/-- What the process has worked from one line to the next. A time which has fallen is one of
another process with the same number. -/
def StatLine.work (before after : StatLine) : ℤ :=
  max 0 (after.utime - before.utime) + max 0 (after.stime - before.stime)

/-- The differences of the times are an `int`, and so is what is counted of them. -/
structure StatLine.Near (before after : StatLine) : Prop where
  utime : -2 ^ 31 ≤ after.utime - before.utime ∧ after.utime - before.utime < 2 ^ 31
  stime : -2 ^ 31 ≤ after.stime - before.stime ∧ after.stime - before.stime < 2 ^ 31
  work : before.work after < 2 ^ 31

instance (before after : StatLine) : Decidable (before.Near after) :=
  decidable_of_iff ((-2 ^ 31 ≤ after.utime - before.utime ∧
      after.utime - before.utime < 2 ^ 31) ∧
      (-2 ^ 31 ≤ after.stime - before.stime ∧ after.stime - before.stime < 2 ^ 31) ∧
      before.work after < 2 ^ 31)
    ⟨fun ⟨utime, stime, work⟩ => ⟨utime, stime, work⟩,
      fun near => ⟨near.utime, near.stime, near.work⟩⟩

/-- What the process has worked from each line to the next. -/
def worked : List StatLine → ℤ
  | before :: after :: lines => before.work after + worked (after :: lines)
  | _ => 0

/-- The resident size in percent of the four gigabytes which the program takes for granted. -/
def StatLine.memory (kbPerPage : ℤ) (line : StatLine) : ℚ :=
  ((line.rss * kbPerPage : ℤ) : ℚ) / 4194304 * 100

/-- What is printed of a line, if there was one before, and otherwise. -/
def percent (kP : ℚ) (kbPerPage clock : ℤ) : Option StatLine → Option StatLine → ℚ × ℚ
  | some before, some line =>
      ((before.work line : ℚ) / (clock * kP) / 1 * 100, line.memory kbPerPage)
  | none, _ | some _, none => (0, 0)

/-- What is printed in these ticks, when this line was the last one. -/
def shown {kbPerPage : ℤ} (kP : ℚ) (clock : ℤ) (last : Option StatLine) :
    List (Round kbPerPage) → List (ℚ × ℚ)
  | [] => []
  | round :: rounds =>
      percent kP kbPerPage clock last round.line :: shown kP clock (round.line.or last) rounds

/-- The lines which are found. -/
def found {kbPerPage : ℤ} (rounds : List (Round kbPerPage)) : List StatLine :=
  rounds.filterMap Round.line

/-- The second number which a tick prints, when these lines were found before. -/
def Round.memory {kbPerPage : ℤ} (round : Round kbPerPage) (earlier : List StatLine) : ℚ :=
  match round.line with
  | some line => if earlier = [] then 0 else line.memory kbPerPage
  | none => 0

/-- The times have not fallen. -/
def StatLine.Rises (before after : StatLine) : Prop :=
  before.utime ≤ after.utime ∧ before.stime ≤ after.stime

instance (before after : StatLine) : Decidable (before.Rises after) :=
  inferInstanceAs (Decidable (_ ∧ _))

variable {R : Type u} [Double R] {kbPerPage : ℤ} {line before : StatLine}

theorem found_cons_of_none {round : Round kbPerPage} {rounds : List (Round kbPerPage)}
    (nothing : round.line = none) : found (round :: rounds) = found rounds :=
  List.filterMap_cons_none nothing

theorem found_cons_of_some {round : Round kbPerPage} {rounds : List (Round kbPerPage)}
    (here : round.line = some line) : found (round :: rounds) = line :: found rounds :=
  List.filterMap_cons_some here

theorem text_ne_nil (line : StatLine) : line.text ≠ [] :=
  List.append_ne_nil_of_right_ne_nil _ (List.cons_ne_nil _ _)

/-- A tick on the line of the kernel. -/
theorem exists_tick_text {pm : Procmon R} {kP : R} {stale : Stale} (fits : line.Fits pm.kbPerPage) :
    ∃ data, data.utime = line.utime ∧ data.stime = line.stime ∧
      data.rssKb = line.rss * pm.kbPerPage ∧
      pm.tick kP stale line.text =
        let measured := if pm.ticked then pm.measure kP data else pm
        some ⟨line.comm, { measured with lastStatData := data, ticked := true },
          (measured.curCpuUsage, measured.curMemUsage)⟩ := by
  refine ⟨StatData.zero.parse stale line.fields pm.kbPerPage, ?_, ?_, ?_, ?_⟩
  · rw [parse_fields fits.small]
  · rw [parse_fields fits.small]
  · rw [parse_fields fits.small]
    exact (toLongLong_eq_iff _).mpr fits.resident
  · rw [Procmon.tick, if_neg (text_ne_nil line), name_text_iff.mpr fits.short, startAtState_text]
    rfl

theorem toInt_eq {value : ℤ} (lower : -2 ^ 31 ≤ value) (upper : value < 2 ^ 31) :
    toInt value = value := by
  rw [toInt, BitVec.toInt_ofInt]
  apply Int.bmod_eq_of_le_mul_two
  · omega
  · omega

/-- What the monitor remembers of the last line. -/
structure Procmon.Behind (kbPerPage clock : ℤ) (last : Option StatLine) (pm : Procmon ℚ) :
    Prop where
  ticked : pm.ticked = last.isSome
  times : ∀ line ∈ last, pm.lastStatData.utime = line.utime ∧ pm.lastStatData.stime = line.stime
  fresh : pm.ticked = false → pm.curCpuUsage = 0 ∧ pm.curMemUsage = 0
  kbPerPage : pm.kbPerPage = kbPerPage
  clock : pm.kClockTicksPerSecond = clock

section Ticks

variable {clock : ℤ} {last : Option StatLine} {pm : Procmon ℚ} {kP : ℚ}

theorem behind_new (kbPerPage clock : ℤ) :
    Procmon.Behind kbPerPage clock none (.new kbPerPage clock) where
  ticked := rfl
  times line lineMem := by cases lineMem
  fresh _ := ⟨rfl, rfl⟩
  kbPerPage := rfl
  clock := rfl

theorem measure_near {data : StatData} (near : before.Near line)
    (last : pm.lastStatData.utime = before.utime ∧ pm.lastStatData.stime = before.stime)
    (times : data.utime = line.utime ∧ data.stime = line.stime)
    (resident : data.rssKb = line.rss * pm.kbPerPage) :
    (pm.measure kP data).curCpuUsage =
        (before.work line : ℚ) / (pm.kClockTicksPerSecond * kP) / 1 ∧
      (pm.measure kP data).curMemUsage = ((line.rss * pm.kbPerPage : ℤ) : ℚ) / 4194304 := by
  have utime := toInt_eq near.utime.1 near.utime.2
  have stime := toInt_eq near.stime.1 near.stime.2
  have work : toInt (before.work line) = before.work line := by
    apply toInt_eq
    · rw [StatLine.work]
      omega
    · exact near.work
  simp only [Procmon.measure, CpuTime.cpuUsage, last, times, resident, utime, stime]
  rw [StatLine.work] at work ⊢
  rw [work]
  exact ⟨rfl, rfl⟩

/-- A tick prints what is expected of it, and remembers the line. -/
theorem tick_round (behind : pm.Behind kbPerPage clock last) (round : Round kbPerPage)
    (near : ∀ before ∈ last, ∀ line ∈ round.line, before.Near line) :
    ∃ ticked, pm.tick kP round.calls.stale (round.line.elim [] StatLine.text) = some ticked ∧
      (ticked.usage.1 * 100, ticked.usage.2 * 100) =
        percent kP kbPerPage clock last round.line ∧
      ticked.pm.Behind kbPerPage clock (round.line.or last) := by
  cases here : round.line with
  | none =>
      refine ⟨_, rfl, ?_, behind⟩
      cases last with
      | none => simp [percent, Double.ofRat]
      | some before => simp [percent, Double.ofRat]
  | some line =>
      have fits := round.fits line here
      rw [← behind.kbPerPage] at fits
      rcases @exists_tick_text _ _ line pm kP round.calls.stale fits with
        ⟨data, utime, stime, resident, stepped⟩
      refine ⟨_, stepped, ?_, ?_⟩
      · cases last with
        | none =>
            have first : pm.ticked = false := behind.ticked
            have fresh := behind.fresh first
            simp [percent, first, fresh]
        | some before =>
            have later : pm.ticked = true := behind.ticked
            have measured := @measure_near _ _ pm kP data (near before rfl line here)
              (behind.times before rfl) ⟨utime, stime⟩ resident
            simp only [percent, later, if_true, measured, behind.clock, behind.kbPerPage,
              StatLine.memory]
      · refine ⟨rfl, ?_, nofun, ?_, ?_⟩
        · rintro _ ⟨⟩
          exact ⟨utime, stime⟩
        · cases pm.ticked
          · exact behind.kbPerPage
          · exact behind.kbPerPage
        · cases pm.ticked
          · exact behind.clock
          · exact behind.clock

theorem readLoop_of_deliver {fd : ℤ} {reads : List (ReadResult Char)} {text : List Char}
    (deliver : (FileCalls.mk fd reads).Deliver text) :
    ¬fd < 0 ∧ readLoop [] reads = some text := by
  rcases deliver with ⟨opened, pieces, last, rfl, nonempty, rfl, ends⟩
  exact ⟨not_lt.mpr opened, Monitor.readLoop_pieces nonempty ends []⟩

/-- One pass of the loop of `main`. -/
theorem step_round {display : Display ℚ} (running : display.watch.flow = .running)
    (behind : display.watch.pm.Behind kbPerPage clock last) (round : Round kbPerPage)
    (near : ∀ before ∈ last, ∀ line ∈ round.line, before.Near line) :
    ∃ next, display.step kP round.calls = some next ∧ next.watch.flow = .running ∧
      next.watch.pm.Behind kbPerPage clock (round.line.or last) ∧
      next.lines = display.lines ++ [percent kP kbPerPage clock last round.line] := by
  rcases @tick_round _ _ _ _ kP behind round near with ⟨ticked, stepped, shows, later⟩
  rcases readLoop_of_deliver round.deliver with ⟨valid, content⟩
  have printed : display.watch.printed kP round.calls =
      some (percent kP kbPerPage clock last round.line) := by
    simp only [Watch.printed, running, valid, if_false, content, Option.bind_some, stepped,
      Option.map_some, ← shows]
    rfl
  refine ⟨⟨⟨ticked.pm, insert round.calls.fd display.watch.descriptors, display.watch.flow⟩,
    display.lines ++ [percent kP kbPerPage clock last round.line]⟩, ?_, running, later, rfl⟩
  simp only [Display.step, Watch.step, running, valid, if_false, content, stepped,
    Option.map_some, printed, Option.toList_some]

/-- The lines which are found, with the one which was there before, are near each other. -/
theorem run_rounds {rounds : List (Round kbPerPage)} {display : Display ℚ}
    (running : display.watch.flow = .running)
    (behind : display.watch.pm.Behind kbPerPage clock last)
    (near : (last.toList ++ found rounds).IsChain StatLine.Near) :
    ∃ final, Machine.run (Display.step kP) display (rounds.map Round.calls) = some final ∧
      final.watch.flow = .running ∧ final.lines = display.lines ++ shown kP clock last rounds := by
  induction rounds generalizing display last with
  | nil => exact ⟨display, rfl, running, (List.append_nil _).symm⟩
  | cons round rounds ih =>
      have nearNext : ∀ before ∈ last, ∀ line ∈ round.line, before.Near line := by
        rintro before ⟨⟩ line here
        rw [found_cons_of_some here] at near
        exact (List.isChain_cons_cons.mp near).1
      have nearLater : ((round.line.or last).toList ++ found rounds).IsChain StatLine.Near := by
        cases here : round.line with
        | none =>
            rw [found_cons_of_none here] at near
            exact near
        | some line =>
            rw [found_cons_of_some here] at near
            cases last with
            | none => exact near
            | some before => exact (List.isChain_cons_cons.mp near).2
      rcases @step_round _ _ _ kP display running behind round nearNext with
        ⟨next, stepped, goesOn, later, lines⟩
      rcases ih goesOn later nearLater with ⟨final, ran, stays, shows⟩
      refine ⟨final, ?_, stays, ?_⟩
      · rw [List.map_cons, Machine.run_cons, stepped]
        exact ran
      · rw [shows, lines, List.append_assoc]
        rfl

end Ticks

section Sums

variable {clock : ℤ} {last : Option StatLine} {kP : ℚ}

theorem length_shown (rounds : List (Round kbPerPage)) :
    (shown kP clock last rounds).length = rounds.length := by
  induction rounds generalizing last with
  | nil => rfl
  | cons round rounds ih => rw [shown, List.length_cons, ih, List.length_cons]

/-- The percentages of the processor, taken back to ticks of the clock. -/
theorem sum_shown (period : kP ≠ 0) (ticks : clock ≠ 0) (rounds : List (Round kbPerPage)) :
    ((shown kP clock last rounds).map Prod.fst).sum * (clock * kP) / 100 =
      worked (last.toList ++ found rounds) := by
  induction rounds generalizing last with
  | nil =>
      cases last with
      | none => simp [shown, found, worked]
      | some before => simp [shown, found, worked]
  | cons round rounds ih =>
      have clockRat : (clock : ℚ) ≠ 0 := by exact_mod_cast ticks
      rw [shown, List.map_cons, List.sum_cons, add_mul, add_div, ih]
      cases here : round.line with
      | none =>
          rw [found_cons_of_none here, Option.none_or]
          cases last with
          | none => simp [percent]
          | some before => simp [percent]
      | some line =>
          rw [found_cons_of_some here, Option.some_or]
          cases last with
          | none => simp [percent]
          | some before =>
              simp only [percent, Option.toList_some, List.singleton_append, worked]
              push_cast
              field_simp

theorem memory_shown {before after : List (Round kbPerPage)} {round : Round kbPerPage} :
    ((shown kP clock last (before ++ round :: after)).map Prod.snd)[before.length]? =
      some (round.memory (last.toList ++ found before)) := by
  induction before generalizing last with
  | nil =>
      rw [List.nil_append, shown, List.map_cons, List.length_nil, List.getElem?_cons_zero,
        Round.memory]
      cases round.line with
      | none =>
          cases last with
          | none => rfl
          | some before => rfl
      | some line =>
          cases last with
          | none => rfl
          | some before => rfl
  | cons first before ih =>
      have earlier : (first.line.or last).toList ++ found before = [] ↔
          last.toList ++ found (first :: before) = [] := by
        cases here : first.line with
        | none => rw [found_cons_of_none here, Option.none_or]
        | some line => simp [found_cons_of_some here]
      rw [List.cons_append, shown, List.map_cons, List.length_cons, List.getElem?_cons_succ, ih,
        Round.memory, Round.memory]
      simp only [earlier]

/-- If the times never fall, only the first line and the last one count. -/
theorem worked_of_rises {first last : StatLine} {lines : List StatLine}
    (rises : (first :: lines).IsChain StatLine.Rises)
    (isLast : (first :: lines).getLast? = some last) :
    worked (first :: lines) = last.utime + last.stime - (first.utime + first.stime) := by
  induction lines generalizing first with
  | nil =>
      rw [List.getLast?_singleton, Option.some.injEq] at isLast
      subst isLast
      simp [worked]
  | cons next lines ih =>
      rcases List.isChain_cons_cons.mp rises with ⟨up, rises⟩
      rw [List.getLast?_cons_cons] at isLast
      rw [worked, ih rises isLast, StatLine.work, max_eq_right (Int.sub_nonneg.mpr up.1),
        max_eq_right (Int.sub_nonneg.mpr up.2)]
      omega

/--
In exact arithmetic and as long as the file can be opened, whatever the reads cut it into, and in
whichever ticks it is empty: the monitor goes on and prints two numbers in every tick. The
percentages of the processor stand for all that the process has worked from each line to the
next, although the ticks with an empty file have printed zeros. The percentage of the memory is
that of the line which the tick has found, but for the first one.
-/
theorem displayed_of_rounds {kP : ℚ} (period : kP ≠ 0) {kbPerPage clock : ℤ} (ticks : 0 < clock)
    (descriptors : Finset ℤ) (rounds : List (Round kbPerPage))
    (near : (found rounds).IsChain StatLine.Near) :
    ∃ final, Machine.run (Display.step kP) (.start (.new kbPerPage clock) descriptors)
        (rounds.map Round.calls) = some final ∧
      final.watch.flow = .running ∧ final.lines.length = rounds.length ∧
      (final.lines.map Prod.fst).sum * (clock * kP) / 100 = worked (found rounds) ∧
      ((found rounds).IsChain StatLine.Rises → ∀ first last, (found rounds).head? = some first →
        (found rounds).getLast? = some last →
          worked (found rounds) = last.utime + last.stime - (first.utime + first.stime)) ∧
      ∀ before round after, rounds = before ++ round :: after →
        (final.lines.map Prod.snd)[before.length]? = some (round.memory (found before)) := by
  rcases @run_rounds _ _ none kP rounds (.start (.new kbPerPage clock) descriptors) rfl
    (behind_new kbPerPage clock) near with ⟨final, ran, running, lines⟩
  rw [Display.start, List.nil_append] at lines
  refine ⟨final, ran, running, ?_, ?_, ?_, ?_⟩
  · rw [lines, length_shown]
  · rw [lines, sum_shown period (ne_of_gt ticks)]
    rfl
  · intro rises first last isFirst isLast
    rcases List.head?_eq_some_iff.mp isFirst with ⟨later, whole⟩
    rw [whole] at rises isLast ⊢
    exact worked_of_rises rises isLast
  · rintro before round after rfl
    rw [lines, memory_shown]
    rfl

/-- The file is read at once. -/
def Round.whole {kbPerPage : ℤ} (line : StatLine) (fits : line.Fits kbPerPage) :
    Round kbPerPage where
  line := some line
  calls := ⟨3, [.data line.text, .data []], ⟨0, 0⟩⟩
  fits _ isLine := Option.some.inj isLine ▸ fits
  deliver := ⟨by simp, [line.text], .data [], rfl, by simpa using (text_ne_nil line).symm, by simp,
    by simp⟩

/-- The file is empty. -/
def Round.empty (kbPerPage : ℤ) : Round kbPerPage where
  line := none
  calls := ⟨4, [.data []], ⟨0, 0⟩⟩
  fits _ isLine := by cases isLine
  deliver := ⟨by simp, [], .data [], rfl, by simp, rfl, by simp⟩

/-- A process which has worked for so many ticks, most of them in the kernel. -/
def StatLine.sample (stime : ℤ) (fits : -2 ^ 63 ≤ stime ∧ stime ≤ 2 ^ 63 - 1) : StatLine :=
  { StatLine.bracket 4194304 (by decide) with
    stime
    longsFit := by simpa [StatLine.bracket] using fits }

theorem displayed_of_rounds_sample :
    ∃ final, Machine.run (Display.step (3 : ℚ)) (.start (.new 4 100) {0, 1, 2})
        ([.whole (.sample 5 (by decide)) (by decide), .empty 4,
          .whole (.sample 65 (by decide)) (by decide)].map Round.calls) = some final ∧
      (final.lines.map Prod.fst).sum * ((100 : ℤ) * 3) / 100 = (60 : ℤ) ∧
      (final.lines.map Prod.snd)[1]? = some 0 := by
  rcases displayed_of_rounds (show (3 : ℚ) ≠ 0 by decide) (show (0 : ℤ) < 100 by decide) {0, 1, 2}
    [.whole (.sample 5 (by decide)) (by decide), .empty 4,
      .whole (.sample 65 (by decide)) (by decide)] (by decide +kernel) with
    ⟨final, ran, _, _, sum, _, memory⟩
  exact ⟨final, ran, sum, memory [_] _ [_] rfl⟩

end Sums

end LoadBalance.Process
