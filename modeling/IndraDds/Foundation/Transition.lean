import Mathlib.Data.List.Basic
import Mathlib.Data.List.Induction

/-!
# Runs of a deterministic labelled system

A system is a step function `σ → ι → σ`: the label carries whatever the environment decides, so
one schedule, a list of labels, determines one run. Quantifying over schedules is quantifying over
every behaviour of the environment.

Three things are said about runs, each with its rule for one more step: what holds at the end of
every run (`run_induction`, whose predicate may look at the schedule so far), what holds at every
step of a run (`Along`), and how often a kind of step occurs (`visits`). `Simulates` relates two
systems and lifts from steps to runs, and so does `Views`, which relates a system to a part of it
that is a system itself.
-/

namespace Transition

variable {σ ι τ κ : Type*}

/-! ## Runs -/

/-- The state a schedule leads to. -/
def run (step : σ → ι → σ) (s : σ) (ls : List ι) : σ := ls.foldl step s

variable {step : σ → ι → σ}

@[simp] theorem run_nil (s : σ) : run step s [] = s := rfl

@[simp] theorem run_cons (s : σ) (l : ι) (ls : List ι) :
    run step s (l :: ls) = run step (step s l) ls := rfl

theorem run_append (s : σ) (ls ls' : List ι) :
    run step s (ls ++ ls') = run step (run step s ls) ls' :=
  List.foldl_append

@[simp] theorem run_concat (s : σ) (ls : List ι) (l : ι) :
    run step s (ls ++ [l]) = step (run step s ls) l := by
  rw [run_append, run_cons, run_nil]

/-- **The run rule.** The predicate may mention the schedule that has been executed. -/
theorem run_induction {s : σ} {P : List ι → σ → Prop} (h0 : P [] s)
    (hstep : ∀ ls l, P ls (run step s ls) → P (ls ++ [l]) (step (run step s ls) l))
    (ls : List ι) : P ls (run step s ls) := by
  induction ls using List.reverseRecOn with
  | nil => exact h0
  | append_singleton ls l ih =>
    rw [run_concat]
    exact hstep ls l ih

/-- The rule for a predicate of the state alone. -/
theorem run_invariant {s : σ} {I : σ → Prop} (h0 : I s) (hstep : ∀ s l, I s → I (step s l))
    (ls : List ι) : I (run step s ls) :=
  run_induction (P := fun _ s ↦ I s) h0 (fun _ l h ↦ hstep _ l h) ls

/-! ## Every step of a run -/

/-- `P` holds of every step of the run, in the state from which the step is taken. -/
def Along (step : σ → ι → σ) (P : σ → ι → Prop) : σ → List ι → Prop
  | _, [] => True
  | s, l :: ls => P s l ∧ Along step P (step s l) ls

variable {P : σ → ι → Prop}

instance decidableAlong [∀ s l, Decidable (P s l)] :
    ∀ (s : σ) (ls : List ι), Decidable (Along step P s ls)
  | _, [] => inferInstanceAs (Decidable True)
  | s, l :: ls =>
    have := decidableAlong (step s l) ls
    inferInstanceAs (Decidable (P s l ∧ Along step P (step s l) ls))

@[simp] theorem along_nil (s : σ) : Along step P s [] := trivial

theorem along_append {s : σ} {ls ls' : List ι} :
    Along step P s (ls ++ ls') ↔ Along step P s ls ∧ Along step P (run step s ls) ls' := by
  induction ls generalizing s with
  | nil => simp
  | cons l ls ih =>
    rw [List.cons_append, Along, Along, ih, and_assoc, run_cons]

@[simp] theorem along_concat {s : σ} {ls : List ι} {l : ι} :
    Along step P s (ls ++ [l]) ↔ Along step P s ls ∧ P (run step s ls) l := by
  rw [along_append, Along, Along, and_true]

/-- A law of every step of a run holds along its beginnings. -/
theorem Along.of_prefix {s : σ} {ls pre : List ι} (h : Along step P s ls) (hpre : pre <+: ls) :
    Along step P s pre := by
  obtain ⟨rest, rfl⟩ := hpre
  exact (along_append.mp h).1

/-- The step-by-step reading: every step is reached by the part of the schedule before it. -/
theorem along_iff {s : σ} {ls : List ι} :
    Along step P s ls ↔ ∀ pre l post, ls = pre ++ l :: post → P (run step s pre) l := by
  constructor
  · rintro h pre l post rfl
    rw [along_append, Along] at h
    exact h.2.1
  · intro h
    induction ls using List.reverseRecOn with
    | nil => trivial
    | append_singleton ls l ih =>
      rw [along_concat]
      refine ⟨ih fun pre m post hls ↦ h pre m (post ++ [l]) ?_, h ls l [] rfl⟩
      rw [hls, List.append_assoc, List.cons_append]

/-- Two laws that agree on the reachable steps hold along the same runs. -/
theorem along_congr {Q : σ → ι → Prop} {s : σ} {ls : List ι}
    (h : ∀ pre l post, ls = pre ++ l :: post → (P (run step s pre) l ↔ Q (run step s pre) l)) :
    Along step P s ls ↔ Along step Q s ls := by
  rw [along_iff, along_iff]
  exact forall_congr' fun pre ↦ forall_congr' fun l ↦ forall_congr' fun post ↦
    forall_congr' fun hls ↦ h pre l post hls

/-- An invariant that gives the law of the next step gives it of every step. -/
theorem along_of_invariant {I : σ → Prop} (hstep : ∀ s l, I s → P s l ∧ I (step s l)) {s : σ}
    (h0 : I s) (ls : List ι) : Along step P s ls := by
  induction ls generalizing s with
  | nil => trivial
  | cons l ls ih => exact ⟨(hstep s l h0).1, ih (hstep s l h0).2⟩

/-- **The termination rule.** A run whose steps finish or lower a measure has finished once it is
longer than the measure. -/
theorem Along.finished {D : σ → Prop} {μ : σ → ℕ} (hD : ∀ s l, D s → D (step s l))
    {s : σ} {ls : List ι}
    (h : Along step (fun s l ↦ D (step s l) ∨ μ (step s l) < μ s) s ls)
    (hlen : μ s < ls.length) : D (run step s ls) := by
  induction ls generalizing s with
  | nil => exact absurd hlen (Nat.not_lt_zero _)
  | cons l ls ih =>
    rcases h.1 with hend | hlt
    · exact run_invariant hend hD ls
    · rw [List.length_cons] at hlen
      exact ih h.2 (by omega)

/-! ## Counting steps -/

/-- How many steps of the run satisfy `p`. -/
def visits (step : σ → ι → σ) (p : σ → ι → Bool) : σ → List ι → ℕ
  | _, [] => 0
  | s, l :: ls => (if p s l then 1 else 0) + visits step p (step s l) ls

variable {p : σ → ι → Bool}

@[simp] theorem visits_nil (s : σ) : visits step p s [] = 0 := rfl

theorem visits_append (s : σ) (ls ls' : List ι) :
    visits step p s (ls ++ ls') = visits step p s ls + visits step p (run step s ls) ls' := by
  induction ls generalizing s with
  | nil => simp
  | cons l ls ih => rw [List.cons_append, visits, visits, ih, Nat.add_assoc, run_cons]

@[simp] theorem visits_concat (s : σ) (ls : List ι) (l : ι) :
    visits step p s (ls ++ [l])
      = visits step p s ls + if p (run step s ls) l then 1 else 0 := by
  rw [visits_append, visits, visits, Nat.add_zero]

/-- A step that can be recognised by its label occurs at most as often as the label. -/
theorem visits_le_countP {q : ι → Bool} (h : ∀ s l, p s l = true → q l = true) (s : σ)
    (ls : List ι) : visits step p s ls ≤ ls.countP q := by
  induction ls generalizing s with
  | nil => exact Nat.le_refl 0
  | cons l ls ih =>
    rw [visits, List.countP_cons, Nat.add_comm]
    refine Nat.add_le_add (ih _) ?_
    split_ifs with hp hq
    · exact Nat.le_refl 1
    · exact absurd (h s l hp) hq
    · exact Nat.zero_le _
    · exact Nat.le_refl 0

/-! ## Simulation -/

/-- The steps of a second system with which a run of the first is answered: `f` says how one step
is answered, by no step, one or several. -/
def answers (step : σ → ι → σ) (f : σ → ι → List κ) : σ → List ι → List κ
  | _, [] => []
  | s, l :: ls => f s l ++ answers step f (step s l) ls

/-- Each step of the first system is answered within the relation. -/
def Simulates (step : σ → ι → σ) (step' : τ → κ → τ) (f : σ → ι → List κ) (R : σ → τ → Prop) :
    Prop :=
  ∀ s t l, R s t → R (step s l) (run step' t (f s l))

variable {step' : τ → κ → τ} {f : σ → ι → List κ} {R : σ → τ → Prop}

theorem Simulates.run (h : Simulates step step' f R) {s : σ} {t : τ} (h0 : R s t) (ls : List ι) :
    R (Transition.run step s ls) (Transition.run step' t (answers step f s ls)) := by
  induction ls generalizing s t with
  | nil => exact h0
  | cons l ls ih =>
    rw [answers, run_append]
    exact ih (h s t l h0)

/-- Steps that are answered by as many steps of a kind as they are themselves are counted alike. -/
theorem Simulates.visits (h : Simulates step step' f R) {p' : τ → κ → Bool}
    (hp : ∀ s t l, R s t → Transition.visits step' p' t (f s l) = if p s l then 1 else 0)
    {s : σ} {t : τ} (h0 : R s t) (ls : List ι) :
    Transition.visits step' p' t (answers step f s ls) = Transition.visits step p s ls := by
  induction ls generalizing s t with
  | nil => rfl
  | cons l ls ih => rw [answers, visits_append, hp s t l h0, ih (h s t l h0), Transition.visits]

/-- Where an answer is one step or none, chosen by the label, the answers are those of the labels. -/
theorem answers_eq_filterMap (step : σ → ι → σ) (g : ι → Option κ) (s : σ) (ls : List ι) :
    answers step (fun _ l ↦ (g l).toList) s ls = ls.filterMap g := by
  induction ls generalizing s with
  | nil => rfl
  | cons l ls ih =>
    rw [answers, ih]
    cases hl : g l with
    | none => rw [List.filterMap_cons_none hl, Option.toList_none, List.nil_append]
    | some k => rw [List.filterMap_cons_some hl, Option.toList_some, List.singleton_append]

/-! ## Views -/

/-- A part of a system that is a system of its own: it makes the steps it sees, and the others leave
it alone. -/
def Views (step : σ → ι → σ) (step' : τ → κ → τ) (view : σ → τ) (sees : ι → Option κ) : Prop :=
  ∀ s l, view (step s l) = Transition.run step' (view s) (sees l).toList

variable {view : σ → τ} {sees : ι → Option κ}

/-- What the part sees of a run is a run of it. -/
theorem Views.run (h : Views step step' view sees) (s : σ) (ls : List ι) :
    view (Transition.run step s ls) = Transition.run step' (view s) (ls.filterMap sees) := by
  induction ls generalizing s with
  | nil => rfl
  | cons l ls ih =>
    rw [run_cons, ih, h s l]
    cases hl : sees l with
    | none => rw [List.filterMap_cons_none hl, Option.toList_none, run_nil]
    | some k => rw [List.filterMap_cons_some hl, Option.toList_some, run_cons, run_nil, run_cons]

/-- A law of the part holds along its run when it holds of the steps that it sees. -/
theorem Views.along (h : Views step step' view sees) {Q : τ → κ → Prop} {s : σ} {ls : List ι} :
    Along step' Q (view s) (ls.filterMap sees) ↔
      Along step (fun s l ↦ ∀ k ∈ sees l, Q (view s) k) s ls := by
  induction ls generalizing s with
  | nil => exact Iff.rfl
  | cons l ls ih =>
    have hview := h s l
    rw [Along, ← ih]
    cases hl : sees l with
    | none =>
      rw [hl, Option.toList_none, run_nil] at hview
      rw [List.filterMap_cons_none hl, hview]
      simp
    | some k =>
      rw [hl, Option.toList_some, run_cons, run_nil] at hview
      rw [List.filterMap_cons_some hl, Along, hview]
      simp

end Transition
