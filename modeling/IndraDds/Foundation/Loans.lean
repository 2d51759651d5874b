import Mathlib.Data.List.Basic
import Mathlib.Data.List.Count

/-!
# Loans

A history of calls on something that lends resources, of which only the effect on loans is looked
at: a call takes a loan, settles one, or does neither. A history is balanced when every loan is
settled once, and before the next one is taken.

Balanced histories are built from balanced pieces, so a loop that takes and settles in each
iteration is balanced because its body is. What being balanced buys is `Balanced.settled`.
-/

namespace Loans

variable {τ : Type*}

/-- The effect of a call on the loan of a resource. -/
inductive Act (τ : Type*) where
  | take (resource : τ)
  | settle (resource : τ)
  | other
deriving DecidableEq

/-- Each loan is followed by its settlement, with nothing about loans in between. -/
inductive Balanced : List (Act τ) → Prop
  | nil : Balanced []
  | other {as : List (Act τ)} (h : Balanced as) : Balanced (.other :: as)
  | loan (r : τ) {mid as : List (Act τ)} (hmid : ∀ a ∈ mid, a = .other) (h : Balanced as) :
    Balanced (.take r :: (mid ++ .settle r :: as))

namespace Balanced

variable {as bs : List (Act τ)}

theorem append (ha : Balanced as) (hb : Balanced bs) : Balanced (as ++ bs) := by
  induction ha with
  | nil => exact hb
  | other _ ih => exact .other ih
  | loan r hmid _ ih =>
    rw [List.cons_append, List.append_assoc, List.cons_append]
    exact .loan r hmid ih

/-- A loan that is settled at once. -/
theorem pair (r : τ) : Balanced [.take r, .settle r] := by
  have hmid : ∀ a ∈ ([] : List (Act τ)), a = .other := fun a ha ↦ absurd ha List.not_mem_nil
  exact .loan r hmid .nil

theorem flatMap {ι : Type*} {f : ι → List (Act τ)} (h : ∀ i, Balanced (f i)) (is : List ι) :
    Balanced (is.flatMap f) := by
  induction is with
  | nil => exact .nil
  | cons i is ih =>
    rw [List.flatMap_cons]
    exact (h i).append ih

/-- **A loan is settled before the next one is taken**, and what follows is balanced again. -/
theorem settled (h : Balanced as) {pre post : List (Act τ)} {r : τ}
    (has : as = pre ++ .take r :: post) :
    ∃ mid rest, post = mid ++ .settle r :: rest ∧ (∀ a ∈ mid, a = .other) ∧ Balanced rest := by
  induction h generalizing pre with
  | nil => exact absurd has (by simp)
  | other _ ih =>
    rcases pre with _ | ⟨a, pre⟩
    · exact absurd (List.cons.inj has).1 (by simp)
    · exact ih (List.cons.inj has).2
  | @loan r' mid as' hmid hrest ih =>
    rcases pre with _ | ⟨a, pre⟩
    · obtain ⟨hr, hpost⟩ := List.cons.inj has
      rw [Act.take.injEq] at hr
      subst hr
      exact ⟨mid, as', hpost.symm, hmid, hrest⟩
    · -- the loan in question lies behind the first one and its settlement
      have hsplit := (List.cons.inj has).2
      obtain ⟨pre', hpre'⟩ : ∃ pre', as' = pre' ++ .take r :: post := by
        rcases List.append_eq_append_iff.mp hsplit with ⟨c, hc, hd⟩ | ⟨c, hc, hd⟩
        · rcases c with _ | ⟨b, c⟩
          · exact absurd (List.cons.inj hd).1 (by simp)
          · exact ⟨c, (List.cons.inj hd).2⟩
        · rcases c with _ | ⟨b, c⟩
          · exact absurd (List.cons.inj hd).1 (by simp)
          · have hb : b = .take r := (List.cons.inj hd).1.symm
            have hother := hmid b (by rw [hc]; simp)
            exact absurd (hb.symm.trans hother) (by simp)
      exact ih hpre'

/-- As many settlements as loans, of each resource. -/
theorem count_eq [DecidableEq τ] (h : Balanced as) (r : τ) :
    as.count (.settle r) = as.count (.take r) := by
  induction h with
  | nil => rfl
  | other _ ih =>
    rw [List.count_cons_of_ne (by simp), List.count_cons_of_ne (by simp), ih]
  | @loan r' mid as' hmid hrest ih =>
    have hsettle : mid.count (.settle r) = 0 := List.count_eq_zero.mpr fun hmem ↦
      absurd (hmid _ hmem) (by simp)
    have htake : mid.count (.take r) = 0 := List.count_eq_zero.mpr fun hmem ↦
      absurd (hmid _ hmem) (by simp)
    simp only [List.count_cons, List.count_append, hsettle, htake, ih]
    by_cases hr : r' = r <;> simp [hr]

end Balanced

end Loans
