import Mathlib.Data.List.GetD
import Mathlib.Tactic.SplitIfs

/-!
# Vectors of owning pointers

A `std::vector<std::unique_ptr<T>>` is a list of slots, each of which owns an object or is empty. A
move leaves the slot it takes from empty, and destroys what the slot it goes to owned.

`std::remove_if` moves the elements it keeps to the front, one by one, and returns the position
behind the last of them. What stands from there on is what the moves have left: where the element
removed was the last nothing has moved and it is still there; where it was not, it has been
destroyed by the first move and the slots at the end are empty.
-/

namespace Owners

variable {α : Type*}

/-- What `std::remove_if` leaves: the slots, the objects destroyed by its moves, and the position
it returns. -/
structure Removal (α : Type*) where
  slots : List (Option α)
  destroyed : List α
  position : ℕ

/-- The loop after the first match: `k` elements to go, the next at `i`, the next one kept moves to
`first`. -/
def removeLoop (p : Option α → Bool) :
    (k i first : ℕ) → List (Option α) → List α → Removal α
  | 0, _, first, slots, destroyed => ⟨slots, destroyed, first⟩
  | k + 1, i, first, slots, destroyed =>
    let x := slots.getD i none
    if p x then removeLoop p k (i + 1) first slots destroyed
    else removeLoop p k (i + 1) (first + 1) ((slots.set first x).set i none)
      (destroyed ++ (slots.getD first none).toList)

/-- `std::remove_if` on a vector of owning pointers. -/
def removeIf (p : Option α → Bool) (slots : List (Option α)) : Removal α :=
  let first := slots.findIdx p
  if first = slots.length then ⟨slots, [], first⟩
  else removeLoop p (slots.length - (first + 1)) (first + 1) first slots []

variable {p : Option α → Bool}

/-- Without a match nothing happens. -/
theorem removeIf_of_forall_not {slots : List (Option α)} (h : ∀ x ∈ slots, p x = false) :
    removeIf p slots = ⟨slots, [], slots.length⟩ := by
  rw [removeIf, List.findIdx_eq_length_of_false h, if_pos rfl]

/-- The loop with one slot `x` to fill and nothing but elements to keep behind it. -/
theorem removeLoop_of_forall_not (l : List (Option α)) (x : Option α) (r : List (Option α))
    (destroyed : List α) (h : ∀ y ∈ r, p y = false) :
    removeLoop p r.length (l.length + 1) l.length (l ++ x :: r) destroyed
      = if r = [] then ⟨l ++ [x], destroyed, l.length⟩
        else ⟨l ++ r ++ [none], destroyed ++ x.toList, l.length + r.length⟩ := by
  induction r generalizing l x destroyed with
  | nil => rfl
  | cons y r ih =>
    obtain ⟨hy, hr⟩ := List.forall_mem_cons.mp h
    have hread : (l ++ x :: y :: r).getD (l.length + 1) none = y := by
      rw [List.getD_append_right _ _ _ _ (Nat.le_add_right _ 1), Nat.add_sub_cancel_left]
      rfl
    have hhole : (l ++ x :: y :: r).getD l.length none = x := by
      rw [List.getD_append_right _ _ _ _ (Nat.le_refl _), Nat.sub_self]
      rfl
    -- after the move the slot to fill is the one that was moved from
    have hmove : ((l ++ x :: y :: r).set l.length y).set (l.length + 1) none
        = (l ++ [y]) ++ none :: r := by
      rw [List.set_append_right _ _ (Nat.le_refl _), Nat.sub_self,
        List.set_append_right _ _ (Nat.le_add_right _ 1), Nat.add_sub_cancel_left,
        List.append_assoc]
      rfl
    have hnext := ih (l ++ [y]) none (destroyed ++ x.toList) hr
    rw [List.length_append, List.length_singleton] at hnext
    rw [List.length_cons, removeLoop, hread, hhole, hy, if_neg Bool.false_ne_true, hmove, hnext,
      if_neg (List.cons_ne_nil y r)]
    split_ifs with hnil
    · rw [hnil, List.length_nil]
    · rw [Option.toList_none, List.append_nil, List.append_assoc l, List.singleton_append,
        Nat.add_assoc, Nat.add_comm 1]

/-- **One match.** At the end it stays where it is; elsewhere it is destroyed on the way. -/
theorem removeIf_of_match {l r : List (Option α)} {x : Option α} (hl : ∀ y ∈ l, p y = false)
    (hx : p x = true) (hr : ∀ y ∈ r, p y = false) :
    removeIf p (l ++ x :: r)
      = if r = [] then ⟨l ++ [x], [], l.length⟩
        else ⟨l ++ r ++ [none], x.toList, l.length + r.length⟩ := by
  have hfirst : (l ++ x :: r).findIdx p = l.length := by
    rw [List.findIdx_append, List.findIdx_eq_length_of_false hl, if_neg (Nat.lt_irrefl _),
      List.findIdx_cons, hx, cond_true, Nat.zero_add]
  have hlen : (l ++ x :: r).length = l.length + 1 + r.length := by
    rw [List.length_append, List.length_cons, Nat.add_right_comm, Nat.add_assoc]
  rw [removeIf, hfirst, hlen, if_neg (by omega), Nat.add_sub_cancel_left,
    removeLoop_of_forall_not l x r [] hr, List.nil_append]

end Owners
