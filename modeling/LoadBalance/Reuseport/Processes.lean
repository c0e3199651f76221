import LoadBalance.Lib.IStream
import LoadBalance.Reuseport.Site

/-!
# The processes of the reuseport server

`main` of `server_reuseport.cc` forks the workers in a loop and then waits until all of
them have ended. A child does not come back to this loop, as `do_work` never returns. Each
worker opens a file of its own, named by its number.
-/

namespace LoadBalance.Reuseport

open Machine (Reachable)

/-- Where the original process is. -/
inductive MainPc where
  | forking
  /-- In the loop around `waitpid`. -/
  | waiting
  | exited (status : ℤ)
deriving DecidableEq, Repr

inductive Life where
  | unborn
  /-- Before its loop. -/
  | starting
  | serving
  | gone
deriving DecidableEq, Repr

structure Proc where
  life : Life
  /-- What the worker has come to since it is at its loop. -/
  site : Option Site

structure System where
  pc : MainPc
  /-- The variable `i`. -/
  i : ℕ
  /-- The children by their `fork_index`. -/
  proc : ℕ → Proc

inductive Event where
  | fork (pid : ℤ)
  /-- The condition of the loop fails. -/
  | leave
  /-- `waitpid` returns -1. -/
  | childrenGone
  /-- A child has come to its loop. -/
  | listen (index : ℕ) (listenFd : Fd) (address : Ptr)
  /-- A child ends, by an assertion or by a signal. -/
  | die (index : ℕ)
  | work (index : ℕ) (event : SiteEvent)

/-- `ss >> fork_n` -/
def parseForkN (stale : ℤ) (argument : List Char) : ℤ :=
  (IStream.int stale (.ofText argument)).1

/-- The name of the file of a worker. -/
def fileName (index : ℕ) : List Char := "thread_".toList ++ Nat.toDigits 10 index

namespace System

def start : System where
  pc := .forking
  i := 0
  proc _ := ⟨.unborn, none⟩

def setProc (system : System) (index : ℕ) (proc : Proc) : System :=
  { system with proc := Function.update system.proc index proc }

/-- The kernel has given the connection to this worker. -/
def Knows (system : System) (conn : ConnId) (index : ℕ) : Prop :=
  ∃ site ∈ (system.proc index).site, (site.client conn).phase ≠ .unborn

instance (system : System) (conn : ConnId) (index : ℕ) : Decidable (system.Knows conn index) :=
  inferInstanceAs (Decidable (∃ site ∈ (system.proc index).site, _))

/-- A connection is given to one worker only. -/
def Possible (system : System) : SiteEvent → Prop
  | .connect conn => ∀ index < system.i, ¬system.Knows conn index
  | _ => True

instance (system : System) (event : SiteEvent) : Decidable (system.Possible event) :=
  match event with
  | .connect _ => Nat.decidableBallLT _ _
  | .send _ _ | .shutdown _ | .reset _ _ | .wait _ | .accept _ _ _ _ _ | .read _ => .isTrue trivial

/-- One step, for the number of workers asked for. -/
def step (forkN : ℤ) (system : System) : Event → Option System
  | .fork pid =>
      if system.pc = .forking ∧ system.i < forkN ∧ pid ≠ 0 then
        if pid < 0 then some { system with pc := .exited 1 }
        else some { system.setProc system.i ⟨.starting, none⟩ with i := system.i + 1 }
      else none
  | .leave =>
      if system.pc = .forking ∧ ¬system.i < forkN then some { system with pc := .waiting } else none
  | .childrenGone =>
      if system.pc = .waiting ∧ ∀ index < system.i, (system.proc index).life = .gone then
        some { system with pc := .exited 0 }
      else none
  | .listen index listenFd address =>
      if (system.proc index).life = .starting then
        some (system.setProc index ⟨.serving, some (.start listenFd address)⟩)
      else none
  | .die index =>
      if (system.proc index).life = .starting ∨ (system.proc index).life = .serving then
        some (system.setProc index { system.proc index with life := .gone })
      else none
  | .work index event =>
      match (system.proc index).life, (system.proc index).site with
      | .serving, some site =>
          if system.Possible event then
            (site.step event).map fun next =>
              system.setProc index ⟨if next.stopped = none then .serving else .gone, some next⟩
          else none
      | _, _ => none

/-- The processes are those which were asked for, and each of them is a worker of its own. -/
structure Sound (forkN : ℤ) (system : System) : Prop where
  born : ∀ index, (system.proc index).life = .unborn ↔ system.i ≤ index
  early : ∀ index, system.i ≤ index → (system.proc index).site = none
  bound : system.i ≤ forkN.toNat
  all : system.pc = .waiting ∨ system.pc = .exited 0 → system.i = forkN.toNat
  gone : system.pc = .exited 0 → ∀ index < system.i, (system.proc index).life = .gone
  failed : ∀ status, system.pc = .exited status → status = 0 ∨ status = 1 ∧ system.i < forkN.toNat
  worker : ∀ index, ∀ site ∈ (system.proc index).site, ∃ listenFd address,
    Reachable Site.step (.start listenFd address) site
  home : ∀ conn first second, system.Knows conn first → system.Knows conn second → first = second

variable {forkN : ℤ} {system next : System}

theorem sound_start (forkN : ℤ) : Sound forkN start where
  born index := by simp [start]
  early _ _ := rfl
  bound := Nat.zero_le _
  all := by simp [start]
  gone := by simp [start]
  failed := by simp [start]
  worker := by simp [start]
  home := by simp [start, Knows]

end System

namespace Site

variable {site next : Site} {conn peer : ConnId}

theorem client_setClient_of_ne (different : conn ≠ peer) (client : Client) :
    (site.setClient peer client).client conn = site.client conn :=
  Function.update_of_ne different _ _

theorem client_refuse_of_unborn (kept : site.Kept) (unborn : (site.client conn).phase = .unborn)
    (lost : Bool) : (site.refuse lost).client conn = site.client conn := by
  simp only [refuse, dequeue]
  split
  · split
    · rfl
    · rename_i first queue waiting
      apply client_setClient_of_ne
      rintro rfl
      rw [kept.phase_of_queue waiting] at unborn
      cases unborn
  · rfl

/-- What a pass does to a connection other than its own. -/
theorem client_settle_of_ne {fd : Fd} {ptr : Ptr} {eve : BitVec 32} {answers : Answers}
    (found : site.worker.heap ptr = some ⟨fd⟩) (isPeer : site.table fd = some peer)
    (different : conn ≠ peer) (result : Except Stop (Worker × List Call))
    (passed : site.worker.loopBody ptr eve answers = result) :
    (site.settle result).client conn = site.client conn := by
  cases result with
  | error stop => rfl
  | ok value =>
      rcases value with ⟨worker, calls⟩
      rcases Worker.served_of_loopBody passed with ⟨_, foundConn, served⟩
      rw [found, Option.some.injEq] at foundConn
      subst foundConn
      cases served with
      | refused | accepted | idle => rfl
      | closed =>
          rw [settle_singleton, perform_close]
          · exact client_setClient_of_ne different _
          · exact isPeer
      | logged =>
          rw [settle_singleton, perform_line]
          exact isPeer

/-- Only the kernel brings a connection to a worker. -/
theorem Kept.unborn_of_step {event : SiteEvent} (kept : site.Kept)
    (stepped : site.step event = some next) (unborn : (site.client conn).phase = .unborn)
    (other : event ≠ .connect conn) : (next.client conn).phase = .unborn := by
  have apart : ∀ peer, (site.client peer).Connected → conn ≠ peer := by
    rintro peer connected rfl
    rcases connected with queued | accepted
    · rw [queued] at unborn
      cases unborn
    · rw [accepted] at unborn
      cases unborn
  simp only [Site.step] at stepped
  split at stepped
  · cases stepped
  · cases event with
    | connect peer =>
        simp only at stepped
        split at stepped
        · cases stepped
          rw [client_setClient_of_ne]
          · exact unborn
          · rintro rfl
            exact other rfl
        · cases stepped
    | send peer data =>
        simp only at stepped
        split at stepped
        · rename_i possible
          cases stepped
          rwa [client_setClient_of_ne (apart peer possible.1)]
        · cases stepped
    | shutdown peer | reset peer lost =>
        simp only at stepped
        split at stepped
        · rename_i connected
          cases stepped
          rwa [client_setClient_of_ne (apart peer connected)]
        · cases stepped
    | wait ready =>
        simp only at stepped
        split at stepped
        · cases stepped
          exact unborn
        · cases stepped
    | accept accepted lost address noDelay added =>
        simp only at stepped
        split at stepped
        · cases stepped
        · rename_i ptr eve rest first
          have taken := (kept.pass first).1
          have same : ((site.take rest).client conn).phase = .unborn := unborn
          simp only [Site.passListening] at stepped
          split at stepped
          · rename_i found
            split at stepped
            · rw [loopBody_refused] at stepped
              · cases stepped
                change (((site.take rest).refuse lost).client conn).phase = .unborn
                rw [client_refuse_of_unborn taken same]
                exact unborn
              · exact found
            · cases stepped
            · rename_i fd peer queue waiting
              split at stepped
              · split at stepped
                · cases stepped
                  exact unborn
                · cases stepped
                  have queued := taken.phase_of_queue waiting
                  change (Function.update (site.take rest).client peer _ conn).phase = .unborn
                  rw [Function.update_of_ne (apart peer (.inl queued))]
                  exact unborn
              · cases stepped
          · cases stepped
    | read count =>
        simp only at stepped
        split at stepped
        · cases stepped
        · rename_i ptr eve rest first
          rcases kept.pass first with ⟨taken, _, _, fd, found⟩
          simp only [Site.passClient, found] at stepped
          split at stepped
          · cases stepped
          · rename_i peer isPeer
            have different := apart peer (.inr (taken.holds fd peer isPeer))
            split at stepped
            · cases stepped
            · rename_i readn client read
              cases stepped
              have settled := @client_settle_of_ne ((site.take rest).setClient peer client)
                conn peer fd ptr eve (readAnswers readn 0) found isPeer different _ rfl
              rw [client_setClient_of_ne different] at settled
              exact (congrArg Client.phase settled).trans unborn

end Site

namespace System

variable {forkN : ℤ} {system next : System}

theorem Sound.fork (sound : Sound forkN system) (forking : system.pc = .forking)
    (more : system.i < forkN) :
    Sound forkN { system.setProc system.i ⟨.starting, none⟩ with i := system.i + 1 } where
  born := by
    intro index
    simp only [setProc, Function.update_apply]
    split
    · rename_i same
      simp [same]
    · rename_i different
      rw [sound.born]
      omega
  early := by
    intro index outside
    have different : index ≠ system.i := by
      rintro rfl
      exact absurd outside (Nat.not_succ_le_self _)
    simp only [System.setProc, Function.update_of_ne different]
    exact sound.early index (Nat.le_of_succ_le outside)
  bound := by
    change system.i + 1 ≤ forkN.toNat
    omega
  all := by
    change system.pc = _ ∨ system.pc = _ → _
    simp [forking]
  gone := by
    change system.pc = _ → _
    simp [forking]
  failed := by
    change ∀ status, system.pc = _ → _
    simp [forking]
  worker := Family.forall_update (fun _ (proc : Proc) => ∀ site ∈ proc.site,
    ∃ listenFd address, Reachable Site.step (.start listenFd address) site) sound.worker (by simp)
  home := by
    have knew : ∀ conn index, System.Knows
        { system.setProc system.i ⟨.starting, none⟩ with i := system.i + 1 } conn index →
        system.Knows conn index := by
      intro conn index
      simp only [Knows, setProc, Function.update_apply]
      split
      · simp
      · exact id
    exact fun conn first second here there =>
      sound.home conn first second (knew conn first here) (knew conn second there)

theorem Sound.inside (sound : Sound forkN system) {index : ℕ}
    (alive : (system.proc index).life = .starting ∨ (system.proc index).life = .serving) :
    index < system.i := by
  by_contra outside
  rw [(sound.born index).mpr (not_lt.mp outside)] at alive
  simp at alive

/-- A child changes which has been forked, and it learns of no connection of another one. -/
theorem Sound.setProc (sound : Sound forkN system) {index : ℕ} {proc : Proc}
    (alive : (system.proc index).life = .starting ∨ (system.proc index).life = .serving)
    (born : proc.life ≠ .unborn)
    (worker : ∀ site ∈ proc.site, ∃ listenFd address,
      Reachable Site.step (.start listenFd address) site)
    (home : ∀ conn other, (∃ site ∈ proc.site, (site.client conn).phase ≠ .unborn) →
      system.Knows conn other → other = index) : Sound forkN (system.setProc index proc) where
  born := by
    intro other
    simp only [System.setProc, Function.update_apply]
    split
    · rename_i same
      have inside := sound.inside alive
      rw [same]
      simp [born, inside]
    · exact sound.born other
  early := by
    intro other outside
    have different : other ≠ index := by
      rintro rfl
      exact absurd (sound.inside alive) (not_lt.mpr outside)
    simp only [System.setProc, Function.update_of_ne different]
    exact sound.early other outside
  bound := sound.bound
  all := sound.all
  gone := by
    intro exited other bound
    rw [sound.gone exited index (sound.inside alive)] at alive
    simp at alive
  failed := sound.failed
  worker := Family.forall_update (fun _ (proc : Proc) => ∀ site ∈ proc.site,
    ∃ listenFd address, Reachable Site.step (.start listenFd address) site) sound.worker worker
  home := by
    intro conn first second here there
    simp only [Knows, System.setProc, Function.update_apply] at here there
    split at here
    · rename_i firstSame
      split at there
      · rename_i secondSame
        rw [firstSame, secondSame]
      · rw [firstSame]
        exact (home conn second here there).symm
    · split at there
      · rename_i secondSame
        rw [secondSame]
        exact home conn first there here
      · exact sound.home conn first second here there

theorem Sound.work (sound : Sound forkN system) {index : ℕ} {event : SiteEvent} {site after : Site}
    (serving : (system.proc index).life = .serving)
    (here : (system.proc index).site = some site) (possible : system.Possible event)
    (stepped : site.step event = some after) (life : Life) (born : life ≠ .unborn) :
    Sound forkN (system.setProc index ⟨life, some after⟩) := by
  rcases sound.worker index site here with ⟨listenFd, address, reachable⟩
  apply sound.setProc
  · exact .inr serving
  · exact born
  · intro other otherMem
    cases otherMem
    exact ⟨listenFd, address, reachable.next stepped⟩
  · rintro conn other ⟨_, ⟨⟩, known⟩ knows
    by_cases connects : event = .connect conn
    · -- a connection which nobody knows yet
      subst connects
      have inside : other < system.i := by
        by_contra outside
        rcases knows with ⟨_, known, _⟩
        rw [sound.early other (not_lt.mp outside)] at known
        cases known
      exact absurd knows (possible other inside)
    · have before : system.Knows conn index := by
        refine ⟨site, here, fun unborn => known ?_⟩
        exact (Site.kept_of_reachable reachable).unborn_of_step stepped unborn connects
      exact sound.home conn other index knows before

theorem Sound.setPc (sound : Sound forkN system) {pc : MainPc}
    (all : pc = .waiting ∨ pc = .exited 0 → system.i = forkN.toNat)
    (gone : pc = .exited 0 → ∀ index < system.i, (system.proc index).life = .gone)
    (failed : ∀ status, pc = .exited status → status = 0 ∨ status = 1 ∧ system.i < forkN.toNat) :
    Sound forkN { system with pc := pc } :=
  ⟨sound.born, sound.early, sound.bound, all, gone, failed, sound.worker, sound.home⟩

theorem Sound.step {event : Event} (sound : Sound forkN system)
    (stepped : system.step forkN event = some next) : Sound forkN next := by
  cases event with
  | fork pid =>
      simp only [System.step] at stepped
      split at stepped
      · rename_i possible
        rcases possible with ⟨forking, more, _⟩
        split at stepped
        · cases stepped
          apply sound.setPc
          · simp
          · simp
          · intro status same
            cases same
            exact .inr ⟨rfl, by omega⟩
        · cases stepped
          exact sound.fork forking more
      · cases stepped
  | leave =>
      simp only [System.step] at stepped
      split at stepped
      · rename_i possible
        cases stepped
        have bound := sound.bound
        apply sound.setPc
        · exact fun _ => by omega
        · simp
        · simp
      · cases stepped
  | childrenGone =>
      simp only [System.step] at stepped
      split at stepped
      · rename_i possible
        cases stepped
        apply sound.setPc
        · exact fun _ => sound.all (.inl possible.1)
        · exact fun _ => possible.2
        · intro status same
          cases same
          exact .inl rfl
      · cases stepped
  | listen index listenFd address =>
      simp only [System.step] at stepped
      split at stepped
      · rename_i starting
        cases stepped
        apply sound.setProc
        · exact .inl starting
        · simp
        · rintro site ⟨⟩
          exact ⟨listenFd, address, Machine.Reachable.refl _⟩
        · rintro conn other ⟨_, ⟨⟩, known⟩
          exact absurd rfl known
      · cases stepped
  | die index =>
      simp only [System.step] at stepped
      split at stepped
      · rename_i alive
        cases stepped
        apply sound.setProc
        · exact alive
        · simp
        · exact sound.worker index
        · exact fun conn other here there => sound.home conn other index there here
      · cases stepped
  | work index event =>
      simp only [System.step] at stepped
      split at stepped
      · rename_i site serving here
        split at stepped
        · rename_i possible
          rcases Option.map_eq_some_iff.mp stepped with ⟨after, moved, rfl⟩
          apply sound.work serving here possible moved
          split <;> simp
        · cases stepped
      · cases stepped

theorem fileName_injective : Function.Injective fileName := by
  intro first second same
  have digits : Nat.toDigits 10 first = Nat.toDigits 10 second := List.append_cancel_left same
  have value := congrArg (fun digits => Nat.ofDigitChars 10 digits 0) digits
  simpa using value

theorem parseForkN_print (stale : ℤ) {count : ℤ} (fits : -2 ^ 31 ≤ count ∧ count ≤ 2 ^ 31 - 1) :
    parseForkN stale (Decimal.print count) = count := by
  have read := @IStream.integer_ofText (-2 ^ 31) (2 ^ 31 - 1) count [] [] (List.forall_mem_nil _)
    stale
  have numeral := @Decimal.numeral_print_append count [] (by rintro _ ⟨⟩)
  rw [List.nil_append, List.append_nil] at read
  rw [List.append_nil] at numeral
  rw [parseForkN, IStream.int, read]
  simp only [IStream.readInteger, numeral, Decimal.value_printed, Nat.toDigits_ne_nil, if_false,
    not_lt_of_ge fits.1, not_lt_of_ge fits.2]

/--
For every argument, in every run of `main` and its children, the children are numbered from
0 on and are at most as many as is read from the argument, which is the number for a printed
one. They are exactly so many when `main` waits; it leaves with 0 only when all of them have
ended. Each child runs the loop of a worker, and no two write to the same file or hold
bytes of the same connection.
-/
theorem workers_sound (stale : ℤ) (argument : List Char)
    (reachable : Reachable (step (parseForkN stale argument)) start system) :
    (∀ index, (system.proc index).life ≠ .unborn ↔ index < system.i) ∧
      system.i ≤ (parseForkN stale argument).toNat ∧
      (system.pc = .waiting ∨ system.pc = .exited 0 →
        system.i = (parseForkN stale argument).toNat) ∧
      (∀ count : ℤ, -2 ^ 31 ≤ count ∧ count ≤ 2 ^ 31 - 1 → argument = Decimal.print count →
        parseForkN stale argument = count) ∧
      (system.pc = .exited 0 → ∀ index < system.i, (system.proc index).life = .gone) ∧
      (∀ first second, fileName first = fileName second → first = second) ∧
      ∀ first, ∀ site ∈ (system.proc first).site,
        (∃ listenFd address, Reachable Site.step (.start listenFd address) site) ∧
        ∀ second, second ≠ first → ∀ other ∈ (system.proc second).site, ∀ conn,
          site.logged conn ≠ [] → other.logged conn = [] := by
  have sound := reachable.invariant (Sound _) (fun sound stepped => sound.step stepped)
    (sound_start _)
  refine ⟨?_, sound.bound, sound.all, ?_, sound.gone, fun _ _ same => fileName_injective same,
    ?_⟩
  · intro index
    rw [ne_eq, sound.born, not_le]
  · rintro count fits rfl
    exact parseForkN_print stale fits
  · intro first site siteMem
    refine ⟨sound.worker first site siteMem, ?_⟩
    have known : ∀ index, ∀ site ∈ (system.proc index).site, ∀ conn,
        site.logged conn ≠ [] → system.Knows conn index := by
      intro index site siteMem conn some
      refine ⟨site, siteMem, fun unborn => some ?_⟩
      rcases sound.worker index site siteMem with ⟨listenFd, address, ran⟩
      have account := (Site.kept_of_reachable ran).account conn
      have begun := account.logged_begins
      rw [account.unborn unborn] at begun
      exact List.prefix_nil.mp begun
    intro second different other otherMem conn some
    by_contra also
    exact different (sound.home conn second first (known second other otherMem conn also)
      (known first site siteMem conn some))

/-- Two workers, of which the second one ends before the first one. -/
def sampleRun : List Event :=
  [.fork 101, .fork 102, .leave, .listen 0 3 0, .work 0 (.connect 5), .listen 1 3 0, .die 1,
    .die 0, .childrenGone]

/-- The sign and what stands behind the digits do not count. -/
theorem workers_sound_sampleRun :
    ∃ system, Reachable (step (parseForkN 7 "+2x".toList)) start system ∧
      system.pc = .exited 0 ∧ system.i = (parseForkN 7 "+2x".toList).toNat ∧ system.i = 2 ∧
        ∀ index < system.i, (system.proc index).life = .gone := by
  have ran : ((Machine.run (step (parseForkN 7 "+2x".toList)) start sampleRun).any fun system =>
      system.pc = .exited 0 ∧ system.i = 2) = true := by
    decide +kernel
  rcases Machine.exists_reachable_of_any sampleRun ran with ⟨system, reachable, shown⟩
  rcases of_decide_eq_true shown with ⟨exited, both⟩
  rcases workers_sound 7 "+2x".toList reachable with ⟨_, _, all, _, gone, _⟩
  exact ⟨system, reachable, exited, all (.inr exited), both, gone exited⟩

end System

end LoadBalance.Reuseport
