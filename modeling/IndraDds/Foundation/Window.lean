import Mathlib.Data.List.Basic
import Mathlib.Data.List.Nodup
import Mathlib.Data.List.Range
import Mathlib.Data.Nat.ModEq

/-!
# Segments of a stream and bounded histories

An ordered lossless channel is a stream of numbered messages, and what its reader holds is a
segment of it. The first part is the algebra of segments.

The second part is the retention rule of a keyed reader. `Retention.keepLast d` keeps at most `d`
messages per key and drops the oldest of the key to make room. For the streams that occur in
practice, keys that never repeat and keys that repeat with a fixed period, a reader of depth one
holds a segment of the stream in either case: dropping the oldest message of the key only ever
drops the head.
-/

namespace Window

variable {α κ : Type*}

/-! ## Segments of a numbered stream -/

/-- The `len` messages of the stream `f` from number `a` on. -/
def segment (f : ℕ → α) (a len : ℕ) : List α := (List.range' a len).map f

@[simp] theorem length_segment (f : ℕ → α) (a len : ℕ) : (segment f a len).length = len := by
  rw [segment, List.length_map, List.length_range']

theorem segment_concat (f : ℕ → α) (a len : ℕ) :
    segment f a (len + 1) = segment f a len ++ [f (a + len)] := by
  rw [segment, segment, List.range'_concat, List.map_append, Nat.one_mul]
  rfl

theorem segment_cons (f : ℕ → α) (a len : ℕ) :
    segment f a (len + 1) = f a :: segment f (a + 1) len := by
  rw [segment, segment, List.range'_succ, List.map_cons]

theorem segment_append (f : ℕ → α) (a len len' : ℕ) :
    segment f a (len + len') = segment f a len ++ segment f (a + len) len' := by
  rw [segment, segment, segment, ← List.map_append, List.range'_append_1]

theorem mem_segment {f : ℕ → α} {a len : ℕ} {x : α} :
    x ∈ segment f a len ↔ ∃ i, a ≤ i ∧ i < a + len ∧ f i = x := by
  simp only [segment, List.mem_map, List.mem_range'_1, and_assoc]

theorem getElem?_segment {f : ℕ → α} {a len i : ℕ} (h : i < len) :
    (segment f a len)[i]? = some (f (a + i)) := by
  rw [segment, List.getElem?_map, List.getElem?_range' h, Nat.one_mul]
  rfl

theorem take_segment (f : ℕ → α) (a len k : ℕ) :
    (segment f a len).take k = segment f a (min k len) := by
  rw [segment, segment, ← List.map_take]
  rcases Nat.le_total k len with h | h
  · rw [List.take_range'_of_length_ge h, Nat.min_eq_left h]
  · rw [List.take_range'_of_length_le h, Nat.min_eq_right h]

theorem drop_segment (f : ℕ → α) (a len k : ℕ) :
    (segment f a len).drop k = segment f (a + k) (len - k) := by
  rw [segment, segment, ← List.map_drop, List.drop_range', Nat.mul_one]

/-- A key that agrees only at equal residues is injective on a segment of one period. -/
theorem nodup_map_segment {f : ℕ → α} {key : α → κ} {n a len : ℕ}
    (hkey : ∀ i j, key (f i) = key (f j) → i % n = j % n) (hlen : len ≤ n) :
    ((segment f a len).map key).Nodup := by
  rw [segment, List.map_map]
  refine List.Nodup.map_on ?_ List.nodup_range'
  intro i hi j hj hij
  rw [List.mem_range'_1] at hi hj
  exact Nat.ModEq.eq_of_abs_lt (hkey i j hij) (abs_lt.mpr (by omega))

/-! ## Retention -/

/-- How many messages of one key a reader keeps. -/
inductive Retention where
  | keepAll
  | keepLast (depth : ℕ)
deriving DecidableEq, Repr

variable [DecidableEq κ]

/-- The reader's content after one more message arrives. -/
def Retention.store (r : Retention) (key : α → κ) (xs : List α) (x : α) : List α :=
  match r with
  | .keepAll => xs ++ [x]
  | .keepLast depth =>
    if xs.countP (fun y ↦ key y = key x) < depth then xs ++ [x]
    else xs.eraseP (fun y ↦ key y = key x) ++ [x]

/-- A message with a new key is appended whatever the depth. -/
theorem store_of_fresh {key : α → κ} {xs : List α} {x : α} {depth : ℕ} (hd : 0 < depth)
    (hfresh : ∀ y ∈ xs, key y ≠ key x) : (Retention.keepLast depth).store key xs x = xs ++ [x] := by
  have hcount : xs.countP (fun y ↦ key y = key x) = 0 := by
    rw [List.countP_eq_zero]
    intro y hy
    simpa using hfresh y hy
  rw [Retention.store, if_pos (by omega)]

/-- At depth one a message whose key is that of the head replaces the head. -/
theorem store_of_head {key : α → κ} {y : α} {ys : List α} {x : α} (h : key y = key x) :
    (Retention.keepLast 1).store key (y :: ys) x = ys ++ [x] := by
  have hcount : ¬(y :: ys).countP (fun z ↦ key z = key x) < 1 := by
    rw [List.countP_cons_of_pos (by simpa using h)]
    omega
  rw [Retention.store, if_neg hcount, List.eraseP_cons_of_pos (by simpa using h)]

/-- **Keys of period `n`.** A reader of depth one that holds a segment no longer than a period
still does after the next message of the stream, and drops nothing from a shorter one. -/
theorem store_segment_of_periodic {f : ℕ → α} (key : α → κ) {n a len : ℕ}
    (hkey : ∀ i j, key (f i) = key (f j) ↔ i % n = j % n) (hn : 0 < n) (hlen : len ≤ n) :
    ∃ b, (Retention.keepLast 1).store key (segment f a len) (f (a + len))
        = segment f b (a + len + 1 - b) ∧ b ≤ a + len + 1 ∧ a + len + 1 - b ≤ n ∧
      (len < n → b = a) := by
  rcases Nat.lt_or_ge len n with hlt | hge
  · refine ⟨a, ?_, by omega, by omega, fun _ ↦ rfl⟩
    have hfresh : ∀ y ∈ segment f a len, key y ≠ key (f (a + len)) := by
      intro y hy heq
      obtain ⟨i, hi, hi', rfl⟩ := mem_segment.mp hy
      have := Nat.ModEq.eq_of_abs_lt ((hkey _ _).mp heq) (abs_lt.mpr (by omega))
      omega
    rw [store_of_fresh Nat.one_pos hfresh, ← segment_concat]
    congr 1
    omega
  · obtain ⟨m, rfl⟩ : ∃ m, len = m + 1 := ⟨len - 1, by omega⟩
    obtain rfl : m + 1 = n := by omega
    refine ⟨a + 1, ?_, by omega, by omega, fun h ↦ absurd h (Nat.lt_irrefl _)⟩
    have hhead : key (f a) = key (f (a + (m + 1))) := (hkey _ _).mpr (by simp)
    rw [segment_cons, store_of_head hhead, show a + (m + 1) + 1 - (a + 1) = m + 1 by omega,
      segment_concat, show a + 1 + m = a + (m + 1) by omega]

/-- **Keys that never repeat.** Every reader appends. -/
theorem store_segment_of_injective {f : ℕ → α} (key : α → κ) {a len : ℕ}
    (hkey : ∀ i j, key (f i) = key (f j) → i = j) {r : Retention}
    (hr : r = .keepAll ∨ r = .keepLast 1) :
    r.store key (segment f a len) (f (a + len)) = segment f a (len + 1) := by
  rw [segment_concat]
  rcases hr with rfl | rfl
  · rfl
  · refine store_of_fresh Nat.one_pos fun y hy heq ↦ ?_
    obtain ⟨i, hi, hi', rfl⟩ := mem_segment.mp hy
    have := hkey _ _ heq
    omega

end Window
