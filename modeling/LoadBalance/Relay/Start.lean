import Mathlib.Data.List.FinRange
import LoadBalance.Relay.World

/-!
# The start of the distributor

The descriptors which the process has opened when `threadFunc` reaches its loop: those of
`init_inner_mon`, which fills `servers_inner` and `serverFd_set`, and those which
`threadFunc` opens itself. Each was returned while all earlier ones were open, so they
are pairwise different. Nothing of this closes before the process ends.
-/

universe u

namespace LoadBalance.Relay

open Distributor (Thread)

/-- The results of the calls which open descriptors before the loop. -/
structure Boot (servers : ℕ) where
  listenFdInner : Fd
  /-- For each server the result of `accept` and of `socket_connect_mon`. -/
  serversInner : Fin servers → Fd × Fd
  listenFdOuter : Fd
  epollFd : Fd
  /-- The standard streams are open from the start, so no later descriptor is 0, 1 or 2. -/
  distinct : ([0, 1, 2, listenFdInner, listenFdOuter, epollFd] ++
    (List.finRange servers).flatMap fun server =>
      [(serversInner server).1, (serversInner server).2]).Nodup

namespace Boot

/-- The start with one inner server, where the system hands out the lowest numbers. -/
def single : Boot 1 where
  listenFdInner := 3
  serversInner _ := (4, 5)
  listenFdOuter := 6
  epollFd := 7
  distinct := by decide

def server : Fin 1 := Fin.last 0

variable {servers : ℕ}

/-- The loop of `init_inner_mon`, as far as it fills `serverFd_set`. -/
def initInnerMon (boot : Boot servers) : Finset Fd :=
  (List.finRange servers).foldl (fun set server => insert (boot.serversInner server).1 set) ∅

/-- The variables of `threadFunc` when it first waits, with the listening socket registered. -/
def thread (boot : Boot servers) (α : Type u) [Cell α] : Thread servers α where
  listenFdOuter := boot.listenFdOuter
  interest := {boot.listenFdOuter}
  serverFdSet := boot.initInnerMon
  serversInner := boot.serversInner
  mess := .zero

/-- The open descriptors with what they stand for. -/
def entries (boot : Boot servers) : List (Fd × Obj servers) :=
  [(0, .std), (1, .std), (2, .std), (boot.listenFdInner, .listenInner),
    (boot.listenFdOuter, .listenOuter), (boot.epollFd, .epoll)] ++
  (List.finRange servers).flatMap fun server =>
    [((boot.serversInner server).1, .work server), ((boot.serversInner server).2, .mon server)]

def table (boot : Boot servers) (fd : Fd) : Option (Obj servers) := boot.entries.lookup fd

/-- No client yet, and every inner server at its first `read`. Its variable `mess` is not
initialised, so it may hold anything. -/
def world (boot : Boot servers) (garbage : Fin servers → Message Byte) : World servers where
  thread := boot.thread Byte
  table := boot.table
  backlog := []
  conn _ := .unborn
  link server := {
    toServer := []
    mess := garbage server
    held := none
    fromServer := []
    forwarded := []
    replies := []
  }
  requests := []
  halted := none

theorem mem_foldl_insert {α : Type*} (read : α → Fd) (list : List α) (start : Finset Fd) (fd : Fd) :
    fd ∈ list.foldl (fun set item => insert (read item) set) start ↔
      fd ∈ start ∨ ∃ item ∈ list, read item = fd := by
  induction list generalizing start with
  | nil => simp
  | cons item list ih =>
      rw [List.foldl_cons, ih]
      simp only [Finset.mem_insert, List.exists_mem_cons_iff]
      tauto

@[simp]
theorem mem_initInnerMon (boot : Boot servers) (fd : Fd) :
    fd ∈ boot.initInnerMon ↔ ∃ server, (boot.serversInner server).1 = fd := by
  simp [initInnerMon, mem_foldl_insert]

theorem map_fst_entries (boot : Boot servers) :
    boot.entries.map Prod.fst = [0, 1, 2, boot.listenFdInner, boot.listenFdOuter, boot.epollFd] ++
      (List.finRange servers).flatMap fun server =>
        [(boot.serversInner server).1, (boot.serversInner server).2] := by
  simp [entries, List.map_flatMap]

theorem mem_entries_of_table {boot : Boot servers} {fd : Fd} {obj : Obj servers}
    (found : boot.table fd = some obj) : (fd, obj) ∈ boot.entries := by
  rcases List.lookup_eq_some_iff.mp found with ⟨before, after, split, _⟩
  rw [split]
  simp

theorem table_of_mem_entries {boot : Boot servers} {fd : Fd} {obj : Obj servers}
    (entry : (fd, obj) ∈ boot.entries) : boot.table fd = some obj := by
  have distinct := boot.distinct
  rw [← boot.map_fst_entries] at distinct
  rcases List.append_of_mem entry with ⟨before, after, split⟩
  refine List.lookup_eq_some_iff.mpr ⟨before, after, split, ?_⟩
  rintro ⟨other, otherObj⟩ otherMem
  rw [split, List.map_append, List.nodup_append] at distinct
  simp only [bne_iff_ne]
  exact (distinct.2.2 other (List.mem_map.mpr ⟨_, otherMem, rfl⟩) fd (by simp)).symm

@[simp]
theorem table_zero (boot : Boot servers) : boot.table 0 = some .std :=
  table_of_mem_entries (by simp [entries])

@[simp]
theorem table_listenFdOuter (boot : Boot servers) :
    boot.table boot.listenFdOuter = some .listenOuter :=
  table_of_mem_entries (by simp [entries])

@[simp]
theorem table_work (boot : Boot servers) (server : Fin servers) :
    boot.table (boot.serversInner server).1 = some (.work server) :=
  table_of_mem_entries (by simp [entries])

theorem eq_work_of_table {boot : Boot servers} {fd : Fd} {server : Fin servers}
    (found : boot.table fd = some (.work server)) : fd = (boot.serversInner server).1 := by
  have entry := mem_entries_of_table found
  simpa [entries] using entry

theorem table_ne_client (boot : Boot servers) (fd : Fd) (conn : ConnId) :
    boot.table fd ≠ some (.client conn) := by
  intro found
  have entry := mem_entries_of_table found
  simp [entries] at entry

end Boot

end LoadBalance.Relay
