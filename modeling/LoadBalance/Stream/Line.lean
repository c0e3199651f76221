import LoadBalance.InnerServer

/-!
# The bytes on a connection to an inner server

Nothing keeps the borders of the messages: the two sockets hold bytes, and a `read` takes
as many of them as there happen to be.
-/

universe u

namespace LoadBalance.Stream

/-- A connection to an inner server, with the thread at its other end. -/
structure Line (α : Type u) where
  toServer : List α
  mess : Message α
  /-- What the server's `write` has still to move; nothing if it is not in a `write`. -/
  echo : List α
  fromServer : List α

variable {α : Type u}

namespace Line

/-- An iteration of the server's loop up to its `write`, for a `read` of `count` bytes. -/
def serve (line : Line α) (count : ℕ) : Option (Line α) :=
  if line.echo = [] ∧ 0 < count ∧ count ≤ messLen ∧ count ≤ line.toServer.length then
    match InnerServer.loopBody line.mess (.data (line.toServer.take count)) with
    | .error _ => none
    | .ok (mess, actions) =>
        some { line with
          toServer := line.toServer.drop count
          mess := mess
          echo := (InnerServer.echoes actions).flatten }
  else none

theorem serve_eq {line : Line α} {count : ℕ} (quiet : line.echo = []) (positive : 0 < count)
    (bound : count ≤ messLen) (inside : count ≤ line.toServer.length) :
    line.serve count = some { line with
      toServer := line.toServer.drop count
      mess := line.mess.store 0 (line.toServer.take count)
      echo := if count = messLen then line.toServer.take count else [] } := by
  have size : (line.toServer.take count).length = count := List.length_take_of_le inside
  have nonempty : line.toServer.take count ≠ [] := by
    intro empty
    simp [empty] at size
    omega
  rw [serve, if_pos ⟨quiet, positive, bound, inside⟩]
  by_cases whole : count = messLen
  · rw [InnerServer.loopBody_whole _ (size.trans whole), if_pos whole]
    simp [InnerServer.echoes]
  · rw [InnerServer.loopBody_short _ nonempty (by rwa [size]), if_neg whole]
    rfl

theorem serve_eq_some {line after : Line α} {count : ℕ} (served : line.serve count = some after) :
    line.echo = [] ∧ 0 < count ∧ count ≤ messLen ∧ count ≤ line.toServer.length ∧
      after = { line with
        toServer := line.toServer.drop count
        mess := line.mess.store 0 (line.toServer.take count)
        echo := if count = messLen then line.toServer.take count else [] } := by
  have possible : line.echo = [] ∧ 0 < count ∧ count ≤ messLen ∧ count ≤ line.toServer.length := by
    by_contra impossible
    rw [serve, if_neg impossible] at served
    cases served
  rcases possible with ⟨quiet, positive, bound, inside⟩
  rw [serve_eq quiet positive bound inside, Option.some.injEq] at served
  exact ⟨quiet, positive, bound, inside, served.symm⟩

/-- The messages on which the iteration works. -/
def works (line : Line α) (count : ℕ) : List (List α) :=
  match InnerServer.loopBody line.mess (.data (line.toServer.take count)) with
  | .error _ => []
  | .ok (_, actions) => InnerServer.echoes actions

theorem works_eq {line : Line α} {count : ℕ} (positive : 0 < count)
    (inside : count ≤ line.toServer.length) :
    line.works count = if count = messLen then [line.toServer.take count] else [] := by
  have size : (line.toServer.take count).length = count := List.length_take_of_le inside
  have nonempty : line.toServer.take count ≠ [] := by
    intro empty
    simp [empty] at size
    omega
  by_cases whole : count = messLen
  · rw [works, InnerServer.loopBody_whole _ (size.trans whole), if_pos whole]
    rfl
  · rw [works, InnerServer.loopBody_short _ nonempty (by rwa [size]), if_neg whole]
    rfl

end Line

end LoadBalance.Stream
