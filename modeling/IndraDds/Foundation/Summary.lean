import Mathlib.Algebra.BigOperators.Group.List.Basic
import Mathlib.Algebra.Order.BigOperators.Group.List
import Mathlib.Algebra.Order.Field.Basic
import Mathlib.Data.List.Induction
import Mathlib.Data.List.Perm.Basic
import Mathlib.Data.List.Nodup
import Mathlib.Tactic.Linarith

/-!
# Summaries of a list

Three ways a loop sums up a list: it keeps the best element so far, it counts how often each
element occurs, and it adds up squared distances. What the first two return is characterised by
membership and by comparison with the other elements, so that two lists with the same elements are
compared through the characterisation and not through the order in which the loop met them.
-/

namespace Summary

variable {α : Type*}

/-! ## The best element so far -/

section Best

variable (beats : α → α → Prop) [DecidableRel beats]

/-- The element kept by a loop that replaces the kept one whenever the next one beats it. -/
def best (kept : α) (xs : List α) : α := xs.foldl (fun k x ↦ if beats x k then x else k) kept

variable {beats}

theorem best_cons (kept x : α) (xs : List α) :
    best beats kept (x :: xs) = best beats (if beats x kept then x else kept) xs := rfl

theorem best_mem (kept : α) (xs : List α) : best beats kept xs ∈ kept :: xs := by
  induction xs generalizing kept with
  | nil => exact List.mem_singleton_self kept
  | cons x xs ih =>
    rw [best_cons]
    split_ifs
    · exact List.mem_cons_of_mem kept (ih x)
    · rcases List.mem_cons.mp (ih kept) with h | h
      · rw [h]
        exact List.mem_cons_self
      · exact List.mem_cons_of_mem _ (List.mem_cons_of_mem _ h)

theorem best_of_forall_not {kept : α} {xs : List α} (h : ∀ x ∈ xs, ¬beats x kept) :
    best beats kept xs = kept := by
  induction xs with
  | nil => rfl
  | cons x xs ih =>
    rw [best_cons, if_neg (h x List.mem_cons_self)]
    exact ih fun y hy ↦ h y (List.mem_cons_of_mem x hy)

/-- Nothing beats the element a loop starts with, or what it ends with beats that element. -/
theorem best_eq_or_beats (htrans : ∀ a b c, beats a b → beats b c → beats a c) (kept : α)
    (xs : List α) :
    best beats kept xs = kept ∨ beats (best beats kept xs) kept := by
  induction xs generalizing kept with
  | nil => exact .inl rfl
  | cons x xs ih =>
    rw [best_cons]
    split_ifs with h
    · rcases ih x with heq | hbeats
      · rw [heq]
        exact .inr h
      · exact .inr (htrans _ _ _ hbeats h)
    · exact ih kept

variable (beats) in
/-- **Nothing the loop has seen beats what it keeps.** -/
theorem not_beats_best (hirrefl : ∀ a, ¬beats a a)
    (htrans : ∀ a b c, beats a b → beats b c → beats a c) {kept x : α} {xs : List α}
    (hx : x ∈ kept :: xs) :
    ¬beats x (best beats kept xs) := by
  have hstart : ∀ k ys, ¬beats k (best beats k ys) := by
    intro k ys hk
    rcases best_eq_or_beats htrans k ys with heq | hbeats
    · rw [heq] at hk
      exact hirrefl k hk
    · exact hirrefl k (htrans _ _ _ hk hbeats)
  induction xs generalizing kept with
  | nil =>
    rw [List.mem_singleton.mp hx]
    exact hstart kept []
  | cons y ys ih =>
    rw [best_cons]
    split_ifs with hy
    · rcases List.mem_cons.mp hx with rfl | hx
      · -- the element that was beaten cannot come back
        intro hbeats
        exact hstart y ys (htrans _ _ _ hy hbeats)
      · exact ih hx
    · rcases List.mem_cons.mp hx with rfl | hx
      · exact ih List.mem_cons_self
      · rcases List.mem_cons.mp hx with rfl | hx
        · intro hbeats
          rcases best_eq_or_beats htrans kept ys with heq | hover
          · rw [heq] at hbeats
            exact hy hbeats
          · exact hy (htrans _ _ _ hbeats hover)
        · exact ih (List.mem_cons_of_mem _ hx)

end Best

/-! ## Counting occurrences -/

section Count

variable [DecidableEq α]

/-- Adds one to the entry of `x`, which is made if there is none. -/
def bump (x : α) : List (α × ℕ) → List (α × ℕ)
  | [] => [(x, 1)]
  | (y, n) :: table => if y = x then (y, n + 1) :: table else (y, n) :: bump x table

/-- The table a loop over `xs` leaves. -/
def counts (xs : List α) : List (α × ℕ) := xs.foldl (fun table x ↦ bump x table) []

/-- The elements of a list, each where it occurs first. -/
def keys (xs : List α) : List α := xs.foldl (fun ks x ↦ if x ∈ ks then ks else ks ++ [x]) []

theorem keys_concat (xs : List α) (x : α) :
    keys (xs ++ [x]) = if x ∈ keys xs then keys xs else keys xs ++ [x] :=
  List.foldl_concat _ _ _ _

theorem counts_concat (xs : List α) (x : α) : counts (xs ++ [x]) = bump x (counts xs) :=
  List.foldl_concat _ _ _ _

@[simp] theorem mem_keys {xs : List α} {x : α} : x ∈ keys xs ↔ x ∈ xs := by
  induction xs using List.reverseRecOn with
  | nil => exact Iff.rfl
  | append_singleton xs y ih =>
    rw [keys_concat, List.mem_append, List.mem_singleton, ← ih]
    split_ifs with h
    · exact ⟨.inl, fun hx ↦ hx.elim id fun heq ↦ heq ▸ h⟩
    · rw [List.mem_append, List.mem_singleton]

theorem nodup_keys (xs : List α) : (keys xs).Nodup := by
  induction xs using List.reverseRecOn with
  | nil => exact List.nodup_nil
  | append_singleton xs y ih =>
    rw [keys_concat]
    split_ifs with h
    · exact ih
    · rw [← List.concat_eq_append]
      exact ih.concat h

/-- The entries of a table change at `x` only. -/
theorem bump_map (x : α) {ks : List α} (f : α → ℕ) (hks : ks.Nodup) (h0 : x ∉ ks → f x = 0) :
    bump x (ks.map fun y ↦ (y, f y))
      = (if x ∈ ks then ks else ks ++ [x]).map fun y ↦ (y, f y + if x = y then 1 else 0) := by
  induction ks with
  | nil =>
    rw [if_neg List.not_mem_nil, List.nil_append, List.map_singleton, if_pos rfl,
      h0 List.not_mem_nil]
    rfl
  | cons k ks ih =>
    obtain ⟨hk, hks⟩ := List.nodup_cons.mp hks
    rw [List.map_cons, bump]
    by_cases h : k = x
    · have hrest : ∀ y ∈ ks, (y, f y) = (y, f y + if x = y then 1 else 0) := by
        intro y hy
        rw [if_neg (by rintro rfl; exact hk (h ▸ hy)), Nat.add_zero]
      rw [if_pos h, if_pos (h ▸ List.mem_cons_self), List.map_cons, if_pos h.symm,
        List.map_congr_left hrest]
    · have hmem : x ∈ k :: ks ↔ x ∈ ks := by
        rw [List.mem_cons, or_iff_right (Ne.symm h)]
      rw [if_neg h, ih hks fun hx ↦ h0 (hmem.not.mpr hx)]
      by_cases hx : x ∈ ks
      · rw [if_pos hx, if_pos (hmem.mpr hx), List.map_cons, if_neg (Ne.symm h), Nat.add_zero]
      · rw [if_neg hx, if_neg (hmem.not.mpr hx), List.cons_append, List.map_cons,
          if_neg (Ne.symm h), Nat.add_zero]

/-- **The table of a list** holds each of its elements once, with its number of occurrences. -/
theorem counts_eq (xs : List α) : counts xs = (keys xs).map fun y ↦ (y, xs.count y) := by
  induction xs using List.reverseRecOn with
  | nil => rfl
  | append_singleton xs x ih =>
    rw [counts_concat, ih, bump_map x _ (nodup_keys xs)
      fun hx ↦ List.count_eq_zero.mpr (mem_keys.not.mp hx), keys_concat]
    refine List.map_congr_left fun y _ ↦ ?_
    rw [List.count_append, List.count_singleton]
    by_cases h : x = y <;> simp [h]

theorem mem_counts {xs : List α} {x : α} {n : ℕ} :
    (x, n) ∈ counts xs ↔ x ∈ xs ∧ n = xs.count x := by
  rw [counts_eq, List.mem_map]
  constructor
  · rintro ⟨y, hy, heq⟩
    obtain ⟨rfl, rfl⟩ := Prod.mk.inj heq
    exact ⟨mem_keys.mp hy, rfl⟩
  · rintro ⟨hx, rfl⟩
    exact ⟨x, mem_keys.mpr hx, rfl⟩

/-! ### The most frequent element -/

/-- No element occurs more often. -/
def IsMode (xs : List α) (x : α) : Prop := x ∈ xs ∧ ∀ y, xs.count y ≤ xs.count x

theorem IsMode.of_perm {xs ys : List α} (h : xs.Perm ys) {x : α} (hx : IsMode xs x) :
    IsMode ys x :=
  ⟨h.mem_iff.mp hx.1, fun y ↦ by rw [← h.count_eq, ← h.count_eq]; exact hx.2 y⟩

/-- The loop over a table that replaces the kept entry whenever the next count is larger, starting
from an element with count 0. -/
def mostFrequent (start : α) (entries : List (α × ℕ)) : α :=
  (best (fun a b ↦ b.2 < a.2) (start, 0) entries).1

/-- **What the loop keeps is a most frequent element**, whatever the order of the table: every
count is larger than the 0 it starts with. -/
theorem isMode_mostFrequent {xs : List α} (hne : xs ≠ []) {entries : List (α × ℕ)}
    (hperm : entries.Perm (counts xs)) (start : α) : IsMode xs (mostFrequent start entries) := by
  have hcounts : ∀ e : α × ℕ, e ∈ entries ↔ e.1 ∈ xs ∧ e.2 = xs.count e.1 := fun e ↦
    hperm.mem_iff.trans mem_counts
  have hover : ∀ e ∈ entries, e.2 ≤ (best (fun a b ↦ b.2 < a.2) (start, 0) entries).2 := by
    intro e he
    exact not_lt.mp (not_beats_best (fun a b : α × ℕ ↦ b.2 < a.2) (fun a ↦ lt_irrefl a.2)
      (fun _ _ _ h h' ↦ lt_trans h' h) (List.mem_cons_of_mem (start, 0) he))
  have hentry : best (fun a b ↦ b.2 < a.2) (start, 0) entries ∈ entries := by
    apply (List.mem_cons.mp (best_mem (start, 0) entries)).resolve_left
    intro heq
    obtain ⟨x, hx⟩ := List.exists_mem_of_ne_nil xs hne
    have hzero := hover (x, xs.count x) ((hcounts _).mpr ⟨hx, rfl⟩)
    rw [heq] at hzero
    exact absurd (List.count_pos_iff.mpr hx) (Nat.not_lt.mpr hzero)
  obtain ⟨hmem, hcount⟩ := (hcounts _).mp hentry
  refine ⟨hmem, fun y ↦ ?_⟩
  by_cases hy : y ∈ xs
  · calc xs.count y ≤ (best (fun a b ↦ b.2 < a.2) (start, 0) entries).2 :=
          hover (y, xs.count y) ((hcounts _).mpr ⟨hy, rfl⟩)
      _ = xs.count (mostFrequent start entries) := hcount
  · rw [List.count_eq_zero.mpr hy]
    exact Nat.zero_le _

/-- Every most frequent element is kept under some order of the table: the one that starts with
it. -/
theorem exists_mostFrequent_eq {xs : List α} {x : α} (h : IsMode xs x) (start : α) :
    ∃ entries, entries.Perm (counts xs) ∧ mostFrequent start entries = x := by
  have hx : (x, xs.count x) ∈ counts xs := mem_counts.mpr ⟨h.1, rfl⟩
  refine ⟨(x, xs.count x) :: (counts xs).erase (x, xs.count x), (List.perm_cons_erase hx).symm, ?_⟩
  rw [mostFrequent, best_cons, if_pos (List.count_pos_iff.mpr h.1), best_of_forall_not]
  rintro ⟨y, n⟩ hy
  obtain ⟨-, hn⟩ := mem_counts.mp (List.mem_of_mem_erase hy)
  rw [hn]
  exact Nat.not_lt.mpr (h.2 y)

end Count

/-! ## Sums of distances -/

section Distance

variable {K : Type*} [Field K] [LinearOrder K] [IsStrictOrderedRing K]

/-- The sum a loop over `xs` leaves. -/
def total (xs : List K) : K := xs.foldl (fun sum x ↦ sum + x) 0

/-- The squared distances of `xs` from `m`, added up by a loop. -/
def squares (m : K) (xs : List K) : K := xs.foldl (fun sum x ↦ sum + (x - m) * (x - m)) 0

omit [LinearOrder K] [IsStrictOrderedRing K] in
theorem total_eq_sum (xs : List K) : total xs = xs.sum := by
  rw [total, List.sum_eq_foldl]

omit [LinearOrder K] [IsStrictOrderedRing K] in
theorem squares_eq_sum (m : K) (xs : List K) :
    squares m xs = (xs.map fun x ↦ (x - m) * (x - m)).sum := by
  rw [squares, List.sum_eq_foldl, List.foldl_map]

omit [LinearOrder K] [IsStrictOrderedRing K] in
theorem total_eq_of_perm {xs ys : List K} (h : xs.Perm ys) : total xs = total ys := by
  rw [total_eq_sum, total_eq_sum, h.sum_eq]

omit [LinearOrder K] [IsStrictOrderedRing K] in
theorem squares_eq_of_perm (m : K) {xs ys : List K} (h : xs.Perm ys) :
    squares m xs = squares m ys := by
  rw [squares_eq_sum, squares_eq_sum, (h.map _).sum_eq]

theorem squares_nonneg (m : K) (xs : List K) : 0 ≤ squares m xs := by
  rw [squares_eq_sum]
  apply List.sum_nonneg
  intro y hy
  obtain ⟨x, -, rfl⟩ := List.mem_map.mp hy
  exact mul_self_nonneg (x - m)

/-- Squared distances add up to nothing only when there is no distance. -/
theorem squares_eq_zero_iff (m : K) (xs : List K) : squares m xs = 0 ↔ ∀ x ∈ xs, x = m := by
  rw [squares_eq_sum]
  induction xs with
  | nil => simp
  | cons x xs ih =>
    have hx : 0 ≤ (x - m) * (x - m) := mul_self_nonneg _
    have hxs : 0 ≤ (xs.map fun x ↦ (x - m) * (x - m)).sum := by
      rw [← squares_eq_sum]
      exact squares_nonneg m xs
    rw [List.map_cons, List.sum_cons, add_eq_zero_iff_of_nonneg hx hxs, ih, mul_self_eq_zero,
      sub_eq_zero, List.forall_mem_cons]

/-- An average lies between any two bounds of the elements. -/
theorem average_mem {xs : List K} (hne : xs ≠ []) {a b : K} (ha : ∀ x ∈ xs, a ≤ x)
    (hb : ∀ x ∈ xs, x ≤ b) : a ≤ total xs / xs.length ∧ total xs / xs.length ≤ b := by
  have hlen : (0 : K) < xs.length := Nat.cast_pos.mpr (List.length_pos_iff.mpr hne)
  rw [total_eq_sum, le_div_iff₀ hlen, div_le_iff₀ hlen]
  have hlow := List.card_nsmul_le_sum xs a ha
  have hhigh := List.sum_le_card_nsmul xs b hb
  rw [nsmul_eq_mul] at hlow hhigh
  exact ⟨by linarith, by linarith⟩

end Distance

end Summary
