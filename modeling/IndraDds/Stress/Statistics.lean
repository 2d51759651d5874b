import IndraDds.Foundation.Summary
import IndraDds.Stress.Pattern

/-!
# The statistics of a `Distribution`

What `printReport` and `exportReport` print, over exact rationals and less the square roots:
`stdDev` and `localJitter` stand for the numbers whose roots the source returns.

A division by zero and a `size_t` subtraction that wraps have no value here, so a statistic is a
number or nothing. `mode` walks an `unordered_map`, whose order the library chooses; the order is an
argument, and its type holds every order there is and nothing else.
-/

namespace IndraDds

open Summary

/-! ## Arithmetic that can go wrong -/

def checkedDiv (a b : ℚ) : Option ℚ := if b = 0 then none else some (a / b)

/-- The subtraction of two `size_t`, where it does not wrap. -/
def checkedSub (a b : ℕ) : Option ℕ := if b ≤ a then some (a - b) else none

theorem checkedDiv_of_ne {b : ℚ} (h : b ≠ 0) (a : ℚ) : checkedDiv a b = some (a / b) := if_neg h

theorem checkedSub_of_le {a b : ℕ} (h : b ≤ a) : checkedSub a b = some (a - b) := if_pos h

/-- An iteration order of the `unordered_map` that `mode` fills. -/
structure FreqOrder (values : List ℚ) where
  entries : List (ℚ × ℕ)
  perm : entries.Perm (counts values)

/-- The order in which the values were first recorded. -/
def FreqOrder.recorded (values : List ℚ) : FreqOrder values := ⟨counts values, .refl _⟩

/-- The numbers of one report. -/
structure Report where
  count : ℕ
  mean : ℚ
  min : ℚ
  max : ℚ
  mode : ℚ
  stdDev : ℚ
  localJitter : ℚ
deriving DecidableEq, Repr

/-! ## The statistics -/

namespace Distribution

def mean (d : Distribution) : Option ℚ :=
  if d.values = [] then some 0 else checkedDiv (total d.values) d.values.length

/-- `std::min_element` keeps the first of equal elements. -/
def min (d : Distribution) : ℚ :=
  match d.values with
  | [] => 0
  | v :: vs => best (fun a b ↦ a < b) v vs

def max (d : Distribution) : ℚ :=
  match d.values with
  | [] => 0
  | v :: vs => best (fun a b ↦ b < a) v vs

/-- `mode`, where the loop over the map meets its entries in the order `freq`. It starts from
`_values[0]` with `maxCount` 0. -/
def mode (d : Distribution) (freq : FreqOrder d.values) : ℚ :=
  if d.values = [] then 0 else mostFrequent (d.values.headD 0) freq.entries

def stdDev (d : Distribution) : Option ℚ :=
  if d.size < 2 then some 0
  else do
    let m ← d.mean
    let n ← checkedSub d.size 1
    checkedDiv (squares m d.values) n

/-- The deltas between consecutive samples. -/
def diffs (values : List ℚ) : Option (List ℚ) :=
  (List.range' 1 (values.length - 1)).mapM fun i ↦ do
    let j ← checkedSub i 1
    some |values.getD i 0 - values.getD j 0|

def localJitter (d : Distribution) : Option ℚ :=
  if d.size < 2 then some 0
  else do
    let _ ← checkedSub d.size 1 -- `diffs.reserve`
    let ds ← diffs d.values
    let meanDiff ← checkedDiv (total ds) ds.length
    let n ← checkedSub ds.length 1
    checkedDiv (squares meanDiff ds) n

def printReport (d : Distribution) (freq : FreqOrder d.values) : Option Report := do
  let mean ← d.mean
  let stdDev ← d.stdDev
  let localJitter ← d.localJitter
  some { count := d.size, mean := mean, min := d.min, max := d.max, mode := d.mode freq,
         stdDev := stdDev, localJitter := localJitter }

/-- What `exportReport` writes: nothing without a file name, or when the file does not open. -/
def exportReport (d : Distribution) (freq : FreqOrder d.values) (filename : String)
    (isOpen : Bool) : Option (Option Report) :=
  if filename = "" ∨ isOpen = false then some none else (d.printReport freq).map some

/-! ## Defined or not -/

theorem mean_eq {d : Distribution} (h : d.values ≠ []) :
    d.mean = some (total d.values / d.values.length) := by
  rw [mean, if_neg h]
  apply checkedDiv_of_ne
  exact Nat.cast_ne_zero.mpr (List.length_pos_iff.mpr h).ne'

theorem exists_mean (d : Distribution) : ∃ m, d.mean = some m := by
  by_cases h : d.values = []
  · exact ⟨0, if_pos h⟩
  · exact ⟨_, mean_eq h⟩

theorem stdDev_eq {d : Distribution} {m : ℚ} (hm : d.mean = some m) (h : 2 ≤ d.size) :
    d.stdDev = some (squares m d.values / ((d.size - 1 : ℕ) : ℚ)) := by
  have hne : ((d.size - 1 : ℕ) : ℚ) ≠ 0 := Nat.cast_ne_zero.mpr (by omega)
  rw [stdDev, if_neg (by omega), hm, checkedSub_of_le (by omega)]
  exact checkedDiv_of_ne hne _

theorem exists_stdDev (d : Distribution) : ∃ r, d.stdDev = some r ∧ 0 ≤ r := by
  by_cases h : d.size < 2
  · exact ⟨0, if_pos h, le_rfl⟩
  · obtain ⟨m, hm⟩ := d.exists_mean
    exact ⟨_, stdDev_eq hm (by omega), div_nonneg (squares_nonneg _ _) (Nat.cast_nonneg _)⟩

/-- From index 1 on, the index before does not wrap. -/
theorem diffs_eq (values : List ℚ) :
    diffs values = some ((List.range' 1 (values.length - 1)).map fun i ↦
      |values.getD i 0 - values.getD (i - 1) 0|) := by
  have hloop : ∀ n i, 1 ≤ i → (List.range' i n).mapM (fun i ↦ do
      let j ← checkedSub i 1
      some |values.getD i 0 - values.getD j 0|)
      = some ((List.range' i n).map fun i ↦ |values.getD i 0 - values.getD (i - 1) 0|) := by
    intro n
    induction n with
    | zero => exact fun i _ ↦ rfl
    | succ n ih =>
      intro i hi
      rw [List.range'_succ, List.mapM_cons, ih (i + 1) (by omega), checkedSub_of_le hi]
      rfl
  exact hloop _ 1 le_rfl

theorem exists_diffs (values : List ℚ) :
    ∃ ds, diffs values = some ds ∧ ds.length = values.length - 1 :=
  ⟨_, diffs_eq values, by rw [List.length_map, List.length_range']⟩

/-- With two samples there is one delta, and the divisor is what is left of its number less one. -/
theorem localJitter_eq_none {d : Distribution} (h : d.size = 2) : d.localJitter = none := by
  obtain ⟨ds, hds, hlen⟩ := exists_diffs d.values
  rw [size] at h
  rw [localJitter, size, if_neg (by omega), checkedSub_of_le (by omega), hds]
  have hone : ds.length = 1 := by omega
  simp [hone, checkedSub_of_le, checkedDiv]

theorem exists_localJitter {d : Distribution} (h : d.size ≠ 2) :
    ∃ r, d.localJitter = some r ∧ 0 ≤ r := by
  by_cases hsmall : d.size < 2
  · exact ⟨0, if_pos hsmall, le_rfl⟩
  · obtain ⟨ds, hds, hlen⟩ := exists_diffs d.values
    rw [size] at h hsmall
    have hdiv : (ds.length : ℚ) ≠ 0 := Nat.cast_ne_zero.mpr (by omega)
    have hdiv' : ((ds.length - 1 : ℕ) : ℚ) ≠ 0 := Nat.cast_ne_zero.mpr (by omega)
    refine ⟨squares (total ds / ds.length) ds / ((ds.length - 1 : ℕ) : ℚ), ?_,
      div_nonneg (squares_nonneg _ _) (Nat.cast_nonneg _)⟩
    rw [localJitter, size, if_neg hsmall, checkedSub_of_le (by omega), hds]
    calc (checkedDiv (total ds) ds.length).bind (fun meanDiff ↦ (checkedSub ds.length 1).bind
          fun n ↦ checkedDiv (squares meanDiff ds) n)
        = checkedDiv (squares (total ds / ds.length) ds) ((ds.length - 1 : ℕ) : ℚ) := by
          rw [checkedDiv_of_ne hdiv, checkedSub_of_le (by omega)]
          rfl
      _ = _ := checkedDiv_of_ne hdiv' _

/-- Every number the two reports print is defined, the arguments of the square roots included. -/
structure ReportsDefined (d : Distribution) : Prop where
  mean : d.mean.isSome
  stdDev : ∃ r, d.stdDev = some r ∧ 0 ≤ r
  localJitter : ∃ r, d.localJitter = some r ∧ 0 ≤ r
  printReport : ∀ freq, (d.printReport freq).isSome
  exportReport : ∀ freq filename isOpen, (d.exportReport freq filename isOpen).isSome

/-- **The reports are defined** but for a distribution of two samples, which `localJitter` divides
by zero. -/
theorem reportsDefined_iff (d : Distribution) : d.ReportsDefined ↔ d.size ≠ 2 := by
  constructor
  · rintro h hsize
    obtain ⟨r, hr, -⟩ := h.localJitter
    rw [localJitter_eq_none hsize] at hr
    exact absurd hr (by simp)
  · intro h
    obtain ⟨m, hm⟩ := d.exists_mean
    obtain ⟨s, hs, hs0⟩ := d.exists_stdDev
    obtain ⟨j, hj, hj0⟩ := exists_localJitter h
    have hprint : ∀ freq, (d.printReport freq).isSome := by
      intro freq
      rw [printReport, hm, hs, hj]
      rfl
    refine ⟨by rw [hm]; rfl, ⟨s, hs, hs0⟩, ⟨j, hj, hj0⟩, hprint, fun freq filename isOpen ↦ ?_⟩
    rw [exportReport]
    split_ifs
    · rfl
    · rw [Option.isSome_map]
      exact hprint freq

/-- A test of two rounds records two values of each kind. -/
theorem two_samples_undefined : ¬ReportsDefined { values := [1, 2] } := by
  rintro ⟨-, -, ⟨r, hr, -⟩, -, -⟩
  have hnone : localJitter { values := [1, 2] } = none := by decide +kernel
  rw [hnone] at hr
  exact absurd hr (by simp)

/-! ## The extremes -/

theorem min_mem {d : Distribution} (h : d.values ≠ []) : d.min ∈ d.values := by
  rw [min]
  obtain ⟨v, vs, hvs⟩ := List.exists_cons_of_ne_nil h
  rw [hvs]
  exact best_mem v vs

theorem min_le {d : Distribution} {x : ℚ} (hx : x ∈ d.values) : d.min ≤ x := by
  rw [min]
  obtain ⟨v, vs, hvs⟩ := List.exists_cons_of_ne_nil (List.ne_nil_of_mem hx)
  rw [hvs] at hx ⊢
  exact not_lt.mp (not_beats_best (fun a b ↦ a < b) lt_irrefl (fun _ _ _ ↦ lt_trans) hx)

theorem max_mem {d : Distribution} (h : d.values ≠ []) : d.max ∈ d.values := by
  rw [max]
  obtain ⟨v, vs, hvs⟩ := List.exists_cons_of_ne_nil h
  rw [hvs]
  exact best_mem v vs

theorem le_max {d : Distribution} {x : ℚ} (hx : x ∈ d.values) : x ≤ d.max := by
  rw [max]
  obtain ⟨v, vs, hvs⟩ := List.exists_cons_of_ne_nil (List.ne_nil_of_mem hx)
  rw [hvs] at hx ⊢
  exact not_lt.mp (not_beats_best (fun a b ↦ b < a) lt_irrefl (fun _ _ _ h h' ↦ lt_trans h' h) hx)

theorem average_bounds {d : Distribution} (h : d.values ≠ []) :
    ∃ m, d.mean = some m ∧ d.min ≤ m ∧ m ≤ d.max :=
  ⟨_, mean_eq h, average_mem h (fun _ ↦ min_le) (fun _ ↦ le_max)⟩

/-- Samples that do not differ have no deviation, and the other way round. -/
theorem min_eq_max_iff {d : Distribution} (h : 2 ≤ d.size) :
    d.min = d.max ↔ d.stdDev = some 0 := by
  have hne : d.values ≠ [] := by
    rintro hnil
    rw [size, hnil] at h
    exact absurd h (by simp)
  have hpos : ((d.size - 1 : ℕ) : ℚ) ≠ 0 := Nat.cast_ne_zero.mpr (by omega)
  obtain ⟨m, hm, hlow, hhigh⟩ := average_bounds hne
  rw [stdDev_eq hm h, Option.some.injEq, div_eq_zero_iff, or_iff_left hpos, squares_eq_zero_iff]
  constructor
  · intro heq x hx
    have hx1 := min_le hx
    have hx2 := le_max hx
    linarith
  · intro hall
    rw [hall _ (min_mem hne), hall _ (max_mem hne)]

/-! ## The mode -/

theorem isMode_mode {d : Distribution} (h : d.values ≠ []) (freq : FreqOrder d.values) :
    IsMode d.values (d.mode freq) := by
  rw [mode, if_neg h]
  exact isMode_mostFrequent h freq.perm _

/-- Whichever of the most frequent values the map yields first is the mode. -/
theorem exists_mode_eq {d : Distribution} {v : ℚ} (h : IsMode d.values v) :
    ∃ freq, d.mode freq = v := by
  obtain ⟨entries, hperm, hmode⟩ := exists_mostFrequent_eq h (d.values.headD 0)
  refine ⟨⟨entries, hperm⟩, ?_⟩
  rw [mode, if_neg (List.ne_nil_of_mem h.1)]
  exact hmode

/-- The mode is a most frequent sample, mode and mean lie between the extremes, and the extremes
meet where nothing deviates. -/
structure SummaryOrdered (d : Distribution) (freq : FreqOrder d.values) : Prop where
  mode_mem : d.mode freq ∈ d.values
  count_le_mode : ∀ v, d.values.count v ≤ d.values.count (d.mode freq)
  mode_bounds : d.min ≤ d.mode freq ∧ d.mode freq ≤ d.max
  mean_bounds : ∃ m, d.mean = some m ∧ d.min ≤ m ∧ m ≤ d.max
  spread : 2 ≤ d.size → (d.min = d.max ↔ d.stdDev = some 0)

/-- **The summary is ordered**, whatever the order of the table. -/
theorem summary_ordered (d : Distribution) (h : d.values ≠ []) (freq : FreqOrder d.values) :
    d.SummaryOrdered freq := by
  obtain ⟨hmem, hcount⟩ := isMode_mode h freq
  exact ⟨hmem, hcount, ⟨min_le hmem, le_max hmem⟩, average_bounds h, min_eq_max_iff⟩

def threeSamples : Distribution := { values := [1, 2, 2] }

theorem threeSamples_ordered :
    threeSamples.values ≠ [] ∧ threeSamples.SummaryOrdered (.recorded [1, 2, 2]) :=
  ⟨by decide +kernel, summary_ordered threeSamples (by decide +kernel) (.recorded [1, 2, 2])⟩

/-! ## Permutations -/

theorem min_eq_of_perm {d d' : Distribution} (h : d.values.Perm d'.values) : d.min = d'.min := by
  by_cases hne : d.values = []
  · rw [hne, List.nil_perm] at h
    rw [min, min, hne, h]
  · have hne' : d'.values ≠ [] := fun hnil ↦ hne (by rwa [hnil, List.perm_nil] at h)
    exact le_antisymm (min_le (h.mem_iff.mpr (min_mem hne'))) (min_le (h.mem_iff.mp (min_mem hne)))

theorem max_eq_of_perm {d d' : Distribution} (h : d.values.Perm d'.values) : d.max = d'.max := by
  by_cases hne : d.values = []
  · rw [hne, List.nil_perm] at h
    rw [max, max, hne, h]
  · have hne' : d'.values ≠ [] := fun hnil ↦ hne (by rwa [hnil, List.perm_nil] at h)
    exact le_antisymm (le_max (h.mem_iff.mp (max_mem hne))) (le_max (h.mem_iff.mpr (max_mem hne')))

theorem mean_eq_of_perm {d d' : Distribution} (h : d.values.Perm d'.values) :
    d.mean = d'.mean := by
  have hnil : d.values = [] ↔ d'.values = [] := by
    rw [← List.length_eq_zero_iff, ← List.length_eq_zero_iff, h.length_eq]
  rw [mean, mean, total_eq_of_perm h, h.length_eq]
  simp only [hnil]

theorem stdDev_eq_of_perm {d d' : Distribution} (h : d.values.Perm d'.values) :
    d.stdDev = d'.stdDev := by
  have hsize : d.size = d'.size := h.length_eq
  rw [stdDev, stdDev, hsize, mean_eq_of_perm h]
  simp only [squares_eq_of_perm _ h]

/-- The mode is the same under every order of the table exactly when it has no rival. -/
theorem mode_eq_iff {d d' : Distribution} (h : d.values.Perm d'.values) :
    (∀ freq freq', d.mode freq = d'.mode freq')
      ↔ ∀ v w, IsMode d.values v → IsMode d.values w → v = w := by
  constructor
  · intro hall v w hv hw
    obtain ⟨freq, rfl⟩ := exists_mode_eq hv
    obtain ⟨freq', rfl⟩ := exists_mode_eq (hw.of_perm h)
    exact hall freq freq'
  · intro hunique freq freq'
    by_cases hne : d.values = []
    · rw [hne, List.nil_perm] at h
      rw [mode, mode, if_pos hne, if_pos h]
    · have hne' : d'.values ≠ [] := fun hnil ↦ hne (by rwa [hnil, List.perm_nil] at h)
      exact hunique _ _ (isMode_mode hne freq) ((isMode_mode hne' freq').of_perm h.symm)

/-- The statistics other than the mode agree. -/
structure SameSummary (d d' : Distribution) : Prop where
  size : d.size = d'.size
  mean : d.mean = d'.mean
  min : d.min = d'.min
  max : d.max = d'.max
  stdDev : d.stdDev = d'.stdDev

/-- **Permuted samples have the same summary**, but for a mode that has a rival. -/
theorem summary_of_perm (d d' : Distribution) (h : d.values.Perm d'.values) :
    d.SameSummary d' ∧ ((∀ freq freq', d.mode freq = d'.mode freq')
      ↔ ∀ v w, IsMode d.values v → IsMode d.values w → v = w) :=
  ⟨⟨h.length_eq, mean_eq_of_perm h, min_eq_of_perm h, max_eq_of_perm h, stdDev_eq_of_perm h⟩,
    mode_eq_iff h⟩

def swappedSamples : Distribution := { values := [2, 1, 2] }

theorem swappedSamples_summary :
    threeSamples.values.Perm swappedSamples.values ∧ threeSamples.SameSummary swappedSamples
      ∧ ((∀ freq freq', threeSamples.mode freq = swappedSamples.mode freq')
        ↔ ∀ v w, IsMode threeSamples.values v → IsMode threeSamples.values w → v = w) :=
  ⟨by decide +kernel, summary_of_perm threeSamples swappedSamples (by decide +kernel)⟩

/-- Two samples of one occurrence each: either is the mode, as the table yields them. -/
theorem tied_modes_differ : ¬∀ (d d' : Distribution) (freq : FreqOrder d.values)
    (freq' : FreqOrder d'.values), d.values.Perm d'.values →
      d.SameSummary d' ∧ d.mode freq = d'.mode freq' := by
  intro h
  obtain ⟨-, hmode⟩ := h { values := [1, 2] } { values := [1, 2] } (.recorded _)
    ⟨[(2, 1), (1, 1)], by decide +kernel⟩ (.refl _)
  exact absurd hmode (by decide +kernel)

end Distribution

end IndraDds
