import Mathlib.Data.Fintype.BigOperators
import LoadBalance.Startup.Launch

/-!
# The race at the start

If every server listens before it is dialed, `init_inner_mon` comes to its end: some step
is always possible until it has, and each step brings the start nearer to it. Nothing in
the server makes its main thread listen before its other thread connects, and a server
which is dialed too early ends the distributor.
-/

namespace LoadBalance.Startup

/-- The steps which a server still has to make. -/
def Host.left : Host → ℕ
  | .spawning => 4
  | .running mon connected =>
      (match mon with
        | .binding => 2
        | .accepting => 1
        | .serving => 0) + if connected then 0 else 1

theorem Host.Goes.left {host next : Host} (goes : host.Goes next) :
    next.left + 1 = host.left := by
  cases goes with
  | spawns => rfl
  | listens connected =>
      simp only [Host.left]
      omega
  | serves connected =>
      simp only [Host.left]
      omega

namespace Launch

variable {servers : ℕ}

/-- The steps which the distributor still has to make: three for every server. -/
def distributorLeft (launch : Launch servers) : ℕ :=
  match launch.pc with
  | .accepting => 3 * (servers - launch.serversInner.length)
  | .dialing _ _ => 3 * (servers - launch.serversInner.length) - 1
  | .storing _ _ => 3 * (servers - launch.serversInner.length) - 2
  | .finished | .halted _ => 0

def left (launch : Launch servers) : ℕ :=
  (∑ server, (launch.host server).left) + launch.distributorLeft

theorem left_start : (start servers).left = 7 * servers := by
  have hosts : ∑ server : Fin servers, ((start servers).host server).left = 4 * servers := by
    simp [start, Host.left, mul_comm]
  rw [left, hosts]
  change 4 * servers + 3 * (servers - 0) = 7 * servers
  omega

section Measure

variable {launch next : Launch servers}

theorem left_of_host {server : Fin servers} {host : Host}
    (hosts : next.host = Function.update launch.host server host)
    (distributor : next.distributorLeft = launch.distributorLeft)
    (one : host.left + 1 = (launch.host server).left) : next.left + 1 = launch.left := by
  have total := Family.sum_update_add Host.left launch.host server host
  rw [left, left, hosts, distributor]
  omega

theorem left_of_distributor (hosts : next.host = launch.host)
    (one : next.distributorLeft + 1 = launch.distributorLeft) : next.left + 1 = launch.left := by
  rw [left, left, hosts, ← one, add_assoc]

theorem Sound.left_step (sound : launch.Sound) {event : Event servers}
    (listens : launch.ListensFirst event) (stepped : launch.step event = some next) :
    next.left + 1 = launch.left := by
  cases sound.move_of_step listens stepped with
  | goes server host goes =>
      apply left_of_host
      · rfl
      · rfl
      · exact goes.left
  | connects server mon running =>
      apply left_of_host
      · rfl
      · rfl
      · rw [running]
        rfl
  | accepts peer backlog atPc atBacklog =>
      have inside := sound.unfinished atPc nofun
      apply left_of_distributor
      · rfl
      · simp only [distributorLeft, atPc]
        omega
  | dials work atPc =>
      have inside := sound.unfinished atPc nofun
      apply left_of_distributor
      · rfl
      · simp only [distributorLeft, atPc]
        omega
  | stores work atPc notLast =>
      have inside := sound.unfinished atPc nofun
      apply left_of_distributor
      · rfl
      · simp only [distributorLeft, atPc, List.length_append, List.length_singleton]
        omega
  | storesLast work atPc last =>
      have inside := sound.unfinished atPc nofun
      apply left_of_distributor
      · rfl
      · simp only [List.length_append, List.length_singleton] at last
        simp only [distributorLeft, atPc]
        omega

theorem Sound.length_add_left (sound : launch.Sound) {events : List (Event servers)}
    {final : Launch servers}
    (guarded : Machine.RunsUnder Launch.step ListensFirst launch events final) :
    events.length + final.left = launch.left := by
  induction guarded with
  | nil => exact Nat.zero_add _
  | cons listens stepped _ ih =>
      have rest := ih (sound.step listens stepped)
      have first := sound.left_step listens stepped
      rw [List.length_cons]
      omega

end Measure

section Progress

variable {launch : Launch servers}

theorem exists_step_of_isSome {event : Event servers} (listens : launch.ListensFirst event)
    (possible : (launch.step event).isSome) :
    ∃ event next, launch.ListensFirst event ∧ launch.step event = some next := by
  rcases Option.isSome_iff_exists.mp possible with ⟨next, stepped⟩
  exact ⟨event, next, listens, stepped⟩

theorem exists_step_of_not_connected {server : Fin servers}
    (apart : ¬(launch.host server).Connected) :
    ∃ event next, launch.ListensFirst event ∧ launch.step event = some next := by
  cases atHost : launch.host server with
  | spawning =>
      apply @exists_step_of_isSome _ _ (.spawn server)
      · exact trivial
      · simp [Launch.step, atHost]
  | running mon connected =>
      rw [atHost] at apart
      have notYet : connected = false := Bool.eq_false_iff.mpr apart
      apply @exists_step_of_isSome _ _ (.connect server)
      · exact trivial
      · simp [Launch.step, atHost, notYet]

theorem exists_step_of_not_listens {server : Fin servers}
    (silent : ¬(launch.host server).Listens) :
    ∃ event next, launch.ListensFirst event ∧ launch.step event = some next := by
  cases atHost : launch.host server with
  | spawning =>
      apply @exists_step_of_isSome _ _ (.spawn server)
      · exact trivial
      · simp [Launch.step, atHost]
  | running mon connected =>
      cases mon with
      | binding =>
          apply @exists_step_of_isSome _ _ (.listen server)
          · exact trivial
          · simp [Launch.step, atHost]
      | accepting =>
          rw [atHost] at silent
          exact absurd trivial silent
      | serving =>
          rw [atHost] at silent
          exact absurd trivial silent

/-- As long as entries are missing, some server has not been accepted. -/
theorem Sound.exists_apart (sound : launch.Sound) (few : launch.joined.length < servers) :
    ∃ server, ¬(launch.host server).Connected := by
  by_contra everyone
  push Not at everyone
  have all : launch.joined.toFinset = Finset.univ := by
    apply Finset.eq_univ_of_forall
    intro server
    exact List.mem_toFinset.mpr ((sound.connected server).mp (everyone server))
  have counted := List.toFinset_card_of_nodup sound.nodup
  rw [all, Finset.card_univ, Fintype.card_fin] at counted
  omega

theorem Sound.exists_step (sound : launch.Sound) (running : launch.pc ≠ .finished) :
    ∃ event next, launch.ListensFirst event ∧ launch.step event = some next := by
  have target := sound.onTarget
  cases atPc : launch.pc with
  | finished => exact absurd atPc running
  | halted halt =>
      simp only [OnTarget, atPc] at target
  | storing work mon =>
      apply @exists_step_of_isSome _ _ .store
      · exact trivial
      · simp [Launch.step, atPc]
  | dialing work address =>
      simp only [OnTarget, atPc] at target
      subst target
      by_cases listens : (launch.host work).Listens
      · apply @exists_step_of_isSome _ _ .dial
        · simp only [ListensFirst, atPc]
          exact listens
        · simp [Launch.step, atPc, listens]
      · exact exists_step_of_not_listens listens
  | accepting =>
      cases atBacklog : launch.backlog with
      | cons peer backlog =>
          apply @exists_step_of_isSome _ _ (.accept 16 none)
          · simp [ListensFirst, atBacklog, storedAddress, addressEnd]
          · simp [Launch.step, atPc, atBacklog, storedAddress, addressEnd]
      | nil =>
          have few : launch.joined.length < servers := by
            have inside := sound.room running
            simpa [joined, atWork, atPc, atBacklog] using inside
          rcases sound.exists_apart few with ⟨server, apart⟩
          exact exists_step_of_not_connected apart

theorem Sound.complete (sound : launch.Sound) (finished : launch.pc = .finished) :
    launch.Complete where
  finished := finished
  entries := sound.full finished
  all := by
    intro server
    have distinct : (launch.serversInner.map Prod.fst).Nodup := by
      have joined := sound.nodup
      rw [Launch.joined, List.append_assoc] at joined
      exact (List.nodup_append.mp joined).1
    have all : (launch.serversInner.map Prod.fst).toFinset = Finset.univ := by
      apply Finset.eq_univ_of_card
      rw [List.toFinset_card_of_nodup distinct, List.length_map, sound.full finished,
        Fintype.card_fin]
    have serverMem : server ∈ (launch.serversInner.map Prod.fst).toFinset := by
      rw [all]
      exact Finset.mem_univ server
    rcases List.mem_map.mp (List.mem_toFinset.mp serverMem) with ⟨⟨work, mon⟩, entryMem, rfl⟩
    have same : work = mon := sound.paired _ entryMem
    exact same ▸ entryMem

end Progress

section Violations

variable {launch next : Launch servers}

theorem not_paired_of_halted {halt : Halt} (halted : launch.pc = .halted halt) :
    ¬launch.Paired :=
  fun paired => paired.running halt halted

/-- Dialing anything but the server which was accepted ends the process, or stores the
connections of two servers in one entry. -/
theorem exists_not_paired_of_dialing {work : Fin servers} {address : Option (Fin servers)}
    (atPc : launch.pc = .dialing work address) (wrong : address ≠ some work) :
    ∃ later, Machine.Reachable Launch.step launch later ∧ ¬later.Paired := by
  have start : Machine.Reachable Launch.step launch launch := .refl launch
  cases address with
  | none =>
      have dialed : launch.step .dial =
          some { launch with pc := .halted (.exit "mon connnect") } := by
        simp only [Launch.step, atPc]
      exact ⟨_, start.next dialed, not_paired_of_halted rfl⟩
  | some mon =>
      by_cases listens : (launch.host mon).Listens
      · have dialed : launch.step .dial = some { launch with
            pc := .storing work mon, dialed := launch.dialed ++ [mon] } := by
          simp only [Launch.step, atPc, listens, if_true]
        have stored := @Machine.Reachable.next _ _ _ _ _ _ .store (start.next dialed) rfl
        refine ⟨_, stored, ?_⟩
        intro paired
        have same := paired.paired (work, mon) (List.mem_append_right _ (List.mem_singleton_self _))
        exact wrong (congrArg some same.symm)
      · have dialed : launch.step .dial =
            some { launch with pc := .halted (.exit "mon connnect") } := by
          simp only [Launch.step, atPc, listens, if_false]
        exact ⟨_, start.next dialed, not_paired_of_halted rfl⟩

theorem Sound.exists_not_paired (sound : launch.Sound) {event : Event servers}
    (violates : ¬launch.ListensFirst event) (stepped : launch.step event = some next) :
    ∃ later, Machine.Reachable Launch.step next later ∧ ¬later.Paired := by
  cases event with
  | accept length stale =>
      simp only [Launch.step] at stepped
      split at stepped
      · rename_i peer backlog atPc atBacklog
        split at stepped
        · cases stepped
          exact ⟨_, Machine.Reachable.refl _, not_paired_of_halted rfl⟩
        · rename_i notNegative
          cases stepped
          apply exists_not_paired_of_dialing rfl
          intro right
          apply violates
          simp only [ListensFirst, atBacklog]
          exact ⟨not_lt.mp notNegative, right⟩
      · cases stepped
  | dial =>
      simp only [Launch.step] at stepped
      split at stepped
      · rename_i work address atPc
        have target := sound.onTarget
        simp only [OnTarget, atPc] at target
        simp only [ListensFirst, atPc] at violates
        subst target
        simp only [violates, if_false] at stepped
        cases stepped
        exact ⟨_, Machine.Reachable.refl _, not_paired_of_halted rfl⟩
      · cases stepped
  | spawn server => exact absurd trivial violates
  | listen server => exact absurd trivial violates
  | connect server => exact absurd trivial violates
  | acceptMon server => exact absurd trivial violates
  | store => exact absurd trivial violates

end Violations

/--
In every run in which each server listens before it is dialed, under the address from
which it was accepted, `init_inner_mon` is never ended, every entry belongs to one server,
and after at most seven steps for each server it is done with all of them. After any
other step a state can be reached where it has failed.
-/
theorem complete_of_listensFirst (positive : 0 < servers) {events : List (Event servers)}
    {final : Launch servers}
    (guarded : Machine.RunsUnder step ListensFirst (start servers) events final) :
    final.Paired ∧ (final.pc = .finished → final.Complete) ∧
      (final.pc ≠ .finished → ∃ event next, final.ListensFirst event ∧
        final.step event = some next) ∧
      events.length ≤ 7 * servers ∧
      ∀ event next, final.step event = some next → ¬final.ListensFirst event →
        ∃ later, Machine.Reachable step next later ∧ ¬later.Paired := by
  have soundStart := sound_start positive
  have sound : final.Sound :=
    guarded.invariant Sound (fun kept listens stepped => kept.step listens stepped) soundStart
  have counted := soundStart.length_add_left guarded
  rw [left_start] at counted
  refine ⟨⟨?_, sound.paired⟩, sound.complete, sound.exists_step, by omega, ?_⟩
  · intro halt halted
    have target := sound.onTarget
    simp only [OnTarget, halted] at target
  · intro event next stepped violates
    exact sound.exists_not_paired violates stepped

/-- One server which listens before it connects. -/
theorem complete_of_listensFirst_sample :
    ∃ final : Launch 1, Machine.RunsUnder step ListensFirst (start 1)
        [.spawn (Fin.last 0), .listen (Fin.last 0), .connect (Fin.last 0), .accept 16 none, .dial,
          .store] final ∧ final.Paired ∧ final.Complete := by
  have ran := @Machine.RunsUnder.exists_of_any _ _ step ListensFirst _ (start 1)
    [.spawn (Fin.last 0), .listen (Fin.last 0), .connect (Fin.last 0), .accept 16 none, .dial,
      .store] (fun final => decide (final.pc = .finished)) (by decide +kernel)
  rcases ran with ⟨final, guarded, shown⟩
  have holds := complete_of_listensFirst Nat.one_pos guarded
  exact ⟨final, guarded, holds.1, holds.2.1 (of_decide_eq_true shown)⟩

/-- One server whose main thread is late. -/
theorem not_paired_of_early_dial :
    ∃ final : Launch 1, Machine.Reachable step (start 1) final ∧
      final.pc = .halted (.exit "mon connnect") ∧ ¬final.Paired := by
  have ran := @Machine.exists_reachable_of_any _ _ step (start 1)
    [.spawn (Fin.last 0), .connect (Fin.last 0), .accept 16 none, .dial]
    (fun final => decide (final.pc = .halted (.exit "mon connnect"))) (by decide +kernel)
  rcases ran with ⟨final, reached, shown⟩
  have halted := of_decide_eq_true shown
  exact ⟨final, reached, halted, not_paired_of_halted halted⟩

end Launch

end LoadBalance.Startup
