import Mathlib.Data.List.Basic

/-!
# Loops that empty a queue

`while (take(x)) body(x)`: the condition takes the next element off a queue and is false on an
empty one. The loop is cut off after a number of calls of `take`, so that it ends is a statement:
from one call more than there are elements on, the result is a fold and the queue is empty.

A body that either does nothing or overwrites everything leaves what the last element it acted on
says, and two such loops in a row do what one does on the queues joined.
-/

namespace TakeLoop

variable {σ α : Type*} (body : σ → α → σ)

/-- The loop, cut off after `calls` calls of `take`. -/
def whileTake : (calls : ℕ) → σ → List α → Option (σ × List α)
  | 0, _, _ => none
  | _ + 1, s, [] => some (s, [])
  | calls + 1, s, x :: queue => whileTake calls (body s x) queue

/-- **The loop ends** after one call for each element and one that finds none. -/
theorem whileTake_eq {calls : ℕ} {queue : List α} (h : queue.length < calls) (s : σ) :
    whileTake body calls s queue = some (queue.foldl body s, []) := by
  induction queue generalizing calls s with
  | nil =>
    obtain ⟨calls, rfl⟩ := Nat.exists_eq_add_of_lt h
    rfl
  | cons x queue ih =>
    rw [List.length_cons] at h
    obtain ⟨calls, rfl⟩ : ∃ n, calls = n + 1 := ⟨calls - 1, by omega⟩
    exact ih (by omega) (body s x)

/-- Whether a body acts on an element, and what it then leaves of the state. -/
structure Overwrites (body : σ → α → σ) (acts : α → Bool) (result : α → σ) : Prop where
  skip : ∀ s x, acts x = false → body s x = s
  write : ∀ s x, acts x = true → body s x = result x

variable {body} {acts : α → Bool} {result : α → σ}

/-- **The last write wins.** -/
theorem Overwrites.foldl_eq (h : Overwrites body acts result) (s : σ) (queue : List α) :
    queue.foldl body s = (((queue.filter acts).getLast?).map result).getD s := by
  induction queue generalizing s with
  | nil => rfl
  | cons x queue ih =>
    rw [List.foldl_cons, ih]
    rcases hx : acts x with _ | _
    · rw [List.filter_cons_of_neg (by rw [hx]; exact Bool.false_ne_true), h.skip s x hx]
    · rw [List.filter_cons_of_pos hx, List.getLast?_cons, h.write s x hx]
      rcases (queue.filter acts).getLast? with _ | y <;> rfl

end TakeLoop
