import IndraDds.Foundation.Transition
import Mathlib.Data.List.Nodup
import Mathlib.Data.List.Sublists

/-!
# Looking at the newest message

A consumer of an ordered channel looks at it from time to time. A look that finds new messages
takes all of them and keeps only the newest: if that one carries a key the consumer is armed with
it, otherwise disarmed. A look that finds nothing new handles the key it is armed with, once.

So a message is handled when two looks happen while it is the newest, and a message that is
overtaken before its second look is lost. For streams that do not repeat a key this is an
equivalence, `mem_handled_iff`. What is handled is always a subsequence of the keys delivered,
`handled_sublist`.
-/

namespace Mailbox

open Transition
open scoped List

variable {μ κ : Type*}

/-- The channel and the consumer: the messages delivered so far, how many of them have been taken,
the key to be handled next, and the keys handled. -/
structure Box (μ κ : Type*) where
  messages : List μ := []
  seen : ℕ := 0
  armed : Option κ := none
  handled : List κ := []

/-- A message arrives, or the consumer looks. -/
inductive Op (μ : Type*) where
  | deliver (m : μ)
  | look

variable (key : μ → Option κ)

namespace Box

/-- The key of the newest message, if it has one. -/
def newest (b : Box μ κ) : Option κ := b.messages.getLast?.bind key

def look (b : Box μ κ) : Box μ κ :=
  if b.seen < b.messages.length then
    { b with seen := b.messages.length, armed := b.newest key }
  else { b with armed := none, handled := b.handled ++ b.armed.toList }

def step (b : Box μ κ) : Op μ → Box μ κ
  | .deliver m => { b with messages := b.messages ++ [m] }
  | .look => b.look key

/-- The keys of the messages delivered so far. -/
def keys (b : Box μ κ) : List κ := b.messages.filterMap key

@[simp] theorem step_look (b : Box μ κ) : b.step key .look = b.look key := rfl

theorem look_new {b : Box μ κ} (h : b.seen < b.messages.length) :
    b.look key = { b with seen := b.messages.length, armed := b.newest key } := if_pos h

theorem look_again {b : Box μ κ} (h : b.messages.length ≤ b.seen) :
    b.look key = { b with armed := none, handled := b.handled ++ b.armed.toList } :=
  if_neg (Nat.not_lt.mpr h)

@[simp] theorem messages_look (b : Box μ κ) : (b.look key).messages = b.messages := by
  rw [look]
  split_ifs <;> rfl

@[simp] theorem keys_look (b : Box μ κ) : (b.look key).keys key = b.keys key := by
  rw [look]
  split_ifs <;> rfl

/-! ## What is handled -/

/-- The handled keys are a subsequence of the keys taken, and stay one when the armed key is
handled too. -/
structure Ordered (b : Box μ κ) : Prop where
  seen_le : b.seen ≤ b.messages.length
  armed : b.seen = b.messages.length → ∀ k, b.armed = some k → b.newest key = some k
  sublist : b.handled ++ b.armed.toList <+ (b.messages.take b.seen).filterMap key

variable {key}

/-- The key of the last message of a list is among its keys. -/
theorem toList_getLast?_sublist (xs : List μ) :
    (xs.getLast?.bind key).toList <+ xs.filterMap key := by
  rcases List.eq_nil_or_concat xs with rfl | ⟨ys, m, rfl⟩
  · exact List.Sublist.refl []
  · rw [List.concat_eq_append, List.getLast?_concat, List.filterMap_append, Option.bind_some]
    cases hm : key m with
    | none => exact List.nil_sublist _
    | some k =>
      rw [List.filterMap_cons_some hm]
      exact List.sublist_append_right _ _

theorem Ordered.step {b : Box μ κ} (h : b.Ordered key) (op : Op μ) :
    (b.step key op).Ordered key := by
  cases op with
  | deliver m =>
    have hlen : (b.messages ++ [m]).length = b.messages.length + 1 := List.length_append
    refine ⟨?_, fun hseen ↦ ?_, ?_⟩
    · exact h.seen_le.trans (hlen ▸ Nat.le_succ _)
    · have hle := h.seen_le
      have hseen' : b.seen = (b.messages ++ [m]).length := hseen
      omega
    · change _ <+ ((b.messages ++ [m]).take b.seen).filterMap key
      rw [List.take_append_of_le_length h.seen_le]
      exact h.sublist
  | look =>
    rw [step_look]
    rcases Nat.lt_or_ge b.seen b.messages.length with hlt | hge
    · rw [look_new key hlt]
      refine ⟨Nat.le_refl _, fun _ k hk ↦ hk, ?_⟩
      -- the new key is taken from behind what had been taken before
      have hlast : (b.messages.drop b.seen).getLast? = b.messages.getLast? := by
        rw [List.getLast?_drop, if_neg (Nat.not_le.mpr hlt)]
      have hnew : (b.newest key).toList <+ (b.messages.drop b.seen).filterMap key := by
        rw [newest, ← hlast]
        exact toList_getLast?_sublist _
      change b.handled ++ (b.newest key).toList <+ (b.messages.take b.messages.length).filterMap key
      rw [List.take_length, ← List.take_append_drop b.seen b.messages, List.filterMap_append]
      exact ((List.sublist_append_left _ _).trans h.sublist).append hnew
    · rw [look_again key hge]
      refine ⟨h.seen_le, fun _ k hk ↦ absurd hk (by simp), ?_⟩
      simpa using h.sublist

theorem ordered_empty : ({} : Box μ κ).Ordered key :=
  ⟨Nat.le_refl 0, fun _ _ h ↦ absurd h (by simp), List.Sublist.refl _⟩

theorem ordered_run (key : μ → Option κ) (ops : List (Op μ)) :
    (run (step key) ({} : Box μ κ) ops).Ordered key :=
  run_invariant (I := Ordered key) ordered_empty (fun _ op h ↦ h.step op) ops

theorem Ordered.handled_sublist {b : Box μ κ} (h : b.Ordered key) : b.handled <+ b.keys key :=
  ((List.sublist_append_left _ _).trans h.sublist).trans
    ((List.take_sublist _ _).filterMap key)

/-! ## When it is handled -/

/-- How often each key was looked for, against what the consumer has done with it. -/
structure Counted (key : μ → Option κ) (count : κ → ℕ) (b : Box μ κ) : Prop where
  handled : ∀ k, k ∈ b.handled ↔ 2 ≤ count k
  fresh : ∀ k, k ∉ b.keys key → count k = 0
  unseen : b.seen < b.messages.length → ∀ k, b.newest key = some k → count k = 0
  seen : b.seen = b.messages.length → ∀ k, b.newest key = some k →
    b.armed = some k ∧ count k = 1 ∨ b.armed = none ∧ 2 ≤ count k

variable {b : Box μ κ} {count : κ → ℕ}

theorem mem_keys_of_newest {k : κ} (h : b.newest key = some k) : k ∈ b.keys key := by
  refine (toList_getLast?_sublist b.messages).subset ?_
  rw [← newest, h]
  exact List.mem_singleton_self k

theorem Counted.deliver (h : b.Counted key count) (hord : b.Ordered key) (m : μ)
    (hnodup : ((b.step key (.deliver m)).keys key).Nodup) :
    (b.step key (.deliver m)).Counted key count := by
  have hkeys : (b.step key (.deliver m)).keys key = b.keys key ++ [m].filterMap key :=
    List.filterMap_append
  have hlt : b.seen < (b.messages ++ [m]).length := by
    rw [List.length_append]
    exact Nat.lt_succ_of_le hord.seen_le
  refine ⟨h.handled, fun k hk ↦ h.fresh k fun hmem ↦ hk ?_, fun _ k hk ↦ h.fresh k fun hmem ↦ ?_,
    fun hseen ↦ absurd hseen (Nat.ne_of_lt hlt)⟩
  · rw [hkeys]
    exact List.mem_append_left _ hmem
  · have hm : key m = some k := by
      rwa [newest, step, List.getLast?_concat, Option.bind_some] at hk
    rw [hkeys, List.filterMap_cons_some hm, List.nodup_append] at hnodup
    exact hnodup.2.2 k hmem k List.mem_cons_self rfl

section Counting

variable [DecidableEq κ]

/-- A look while `k` is the key of the newest message. -/
def looksFor (key : μ → Option κ) (k : κ) (b : Box μ κ) : Op μ → Bool
  | .deliver _ => false
  | .look => b.newest key = some k

theorem Counted.look_new (h : b.Counted key count) (hlt : b.seen < b.messages.length) :
    (b.look key).Counted key fun k ↦ count k + if b.newest key = some k then 1 else 0 := by
  rw [Box.look_new key hlt]
  refine ⟨fun k ↦ ?_, fun k hk ↦ ?_, fun h' ↦ absurd h' (Nat.lt_irrefl _), fun _ k hk ↦ ?_⟩
  · by_cases hk : b.newest key = some k
    · have hzero := h.unseen hlt k hk
      simp only [h.handled k, hk, hzero, if_true]
      omega
    · simp only [h.handled k, hk, if_false, Nat.add_zero]
  · have hne : b.newest key ≠ some k := fun hnew ↦ hk (mem_keys_of_newest hnew)
    simp only [h.fresh k hk, hne, if_false]
  · have hnew : b.newest key = some k := hk
    refine .inl ⟨hnew, ?_⟩
    simp only [h.unseen hlt k hnew, if_pos hnew]

theorem Counted.look_again (h : b.Counted key count) (hord : b.Ordered key)
    (hseen : b.seen = b.messages.length) :
    (b.look key).Counted key fun k ↦ count k + if b.newest key = some k then 1 else 0 := by
  rw [Box.look_again key (Nat.le_of_eq hseen.symm)]
  refine ⟨fun k ↦ ?_, fun k hk ↦ ?_, fun h' ↦ absurd hseen (Nat.ne_of_lt h'), fun _ k hk ↦ ?_⟩
  · rw [List.mem_append, h.handled k]
    by_cases hk : b.newest key = some k
    · simp only [hk, if_true]
      rcases h.seen hseen k hk with ⟨harmed, hone⟩ | ⟨harmed, htwo⟩
      · simp [harmed, hone]
      · simp only [harmed, Option.toList_none, List.not_mem_nil, or_false]
        omega
    · -- the consumer is armed with the newest key, if at all
      have hnot : k ∉ b.armed.toList := by
        rw [Option.mem_toList]
        exact fun harmed ↦ hk (hord.armed hseen k harmed)
      simp only [hk, if_false, Nat.add_zero, hnot, or_false]
  · have hne : b.newest key ≠ some k := fun hnew ↦ hk (mem_keys_of_newest hnew)
    simp only [h.fresh k hk, hne, if_false]
  · have hnew : b.newest key = some k := hk
    refine .inr ⟨rfl, ?_⟩
    simp only [if_pos hnew]
    rcases h.seen hseen k hnew with ⟨-, hone⟩ | ⟨-, htwo⟩
    · omega
    · omega

theorem counted_run (ops : List (Op μ))
    (hnodup : ((run (step key) ({} : Box μ κ) ops).keys key).Nodup) :
    (run (step key) ({} : Box μ κ) ops).Counted key
      fun k ↦ visits (step key) (looksFor key k) {} ops := by
  induction ops using List.reverseRecOn with
  | nil =>
    exact ⟨fun k ↦ by simp, fun _ _ ↦ rfl, fun h ↦ absurd h (Nat.lt_irrefl 0), by simp [newest]⟩
  | append_singleton ops op ih =>
    simp only [run_concat, visits_concat] at hnodup ⊢
    have hord := ordered_run key ops
    generalize run (step key) ({} : Box μ κ) ops = b at hnodup ih hord ⊢
    have hprefix : b.keys key <+: (b.step key op).keys key := by
      cases op with
      | deliver m => exact (List.prefix_append b.messages [m]).filterMap key
      | look =>
        have hsame : (b.step key .look).keys key = b.keys key := by rw [step_look, keys_look]
        exact hsame.symm ▸ List.prefix_rfl
    have hcounted := ih (hnodup.sublist hprefix.sublist)
    cases op with
    | deliver m => exact hcounted.deliver hord m hnodup
    | look =>
      simp only [looksFor, decide_eq_true_iff]
      rcases Nat.lt_or_eq_of_le hord.seen_le with hlt | hseen
      · exact hcounted.look_new hlt
      · exact hcounted.look_again hord hseen

/-- **The two-look law.** -/
theorem mem_handled_iff (ops : List (Op μ))
    (hnodup : ((run (step key) ({} : Box μ κ) ops).keys key).Nodup) (k : κ) :
    k ∈ (run (step key) ({} : Box μ κ) ops).handled ↔
      2 ≤ visits (step key) (looksFor key k) ({} : Box μ κ) ops :=
  (counted_run ops hnodup).handled k

end Counting

end Box

end Mailbox
