import IndraDds.Foundation.Loans
import IndraDds.Vendor.FastSub

/-!
# The batches of the loan drain

`FastSub::run_with_loan` takes up to 100 samples at a time and returns each loan before it takes
the next. The middleware decides how many samples a take returns. Every way to cut what the reader
holds into batches of 1 to 100 is the behaviour of some `batch` function, and of all of them only
the sequence of calls on the reader tells which it was.
-/

namespace IndraDds

open Loans

/-! ## Cutting the reader into batches -/

/-- A list of batch sizes that cuts `len` samples. -/
structure Cuts (len : ℕ) (sizes : List ℕ) : Prop where
  sum_eq : sizes.sum = len
  bounds : ∀ n ∈ sizes, 1 ≤ n ∧ n ≤ 100

/-- The calls on the reader for batches of these sizes. -/
def loanCalls (sizes : List ℕ) : List ReaderCall :=
  sizes.flatMap (fun n ↦ [.take n, .returnLoan n]) ++ [.noData]

/-- The effect of a call on the loans of the reader; a loan is named by its length. -/
def ReaderCall.loanAct : ReaderCall → Loans.Act ℕ
  | take length => .take length
  | noData => .other
  | returnLoan length => .settle length

theorem balanced_loanCalls (sizes : List ℕ) :
    Balanced ((loanCalls sizes).map ReaderCall.loanAct) := by
  rw [loanCalls, List.map_append, List.map_flatMap]
  apply Balanced.append
  · exact Balanced.flatMap (fun n ↦ Balanced.pair n) sizes
  · exact .other .nil

/-- The batch function of a reader that returns batches of the given sizes: the number of samples
left tells which batch is next. -/
def batchOf : List ℕ → ℕ → ℕ
  | [], _ => 0
  | n :: sizes, len => if len = n + sizes.sum then n else batchOf sizes len

theorem Cuts.tail {len n : ℕ} {sizes : List ℕ} (h : Cuts len (n :: sizes)) :
    Cuts (len - n) sizes where
  sum_eq := by
    have hsum := h.sum_eq
    rw [List.sum_cons] at hsum
    omega
  bounds m hm := h.bounds m (List.mem_cons_of_mem n hm)

theorem Cuts.cons {len n : ℕ} {sizes : List ℕ} (hn : 1 ≤ n ∧ n ≤ 100) (hle : n ≤ len)
    (h : Cuts (len - n) sizes) : Cuts len (n :: sizes) where
  sum_eq := by
    rw [List.sum_cons, h.sum_eq]
    omega
  bounds m hm := by
    rcases List.mem_cons.mp hm with rfl | hm
    · exact hn
    · exact h.bounds m hm

/-! ## The loop -/

@[simp] theorem readerCalls_call (d : Drain) (c : ReaderCall) :
    (d.call c).readerCalls = d.readerCalls ++ [c] := rfl

@[simp] theorem readerCalls_foldl_count (xs : List (Sample AirEntity)) (d : Drain) :
    (xs.foldl Drain.count d).readerCalls = d.readerCalls := by
  induction xs generalizing d with
  | nil => rfl
  | cons s xs ih => exact ih (d.count s)

/-- The samples one `take` of the loop returns. -/
def batchLength (batch : ℕ → ℕ) (len : ℕ) : ℕ := min (takeLength batch 100 len) len

theorem batchLength_bounds (batch : ℕ → ℕ) {len : ℕ} (h : 0 < len) :
    1 ≤ batchLength batch len ∧ batchLength batch len ≤ 100 ∧ batchLength batch len ≤ len := by
  rw [batchLength, takeLength]
  omega

/-- One iteration of the loop: a take and its return. -/
theorem loanLoop_step (batch : ℕ → ℕ) {xs : List (Sample AirEntity)} (hxs : xs ≠ [])
    (d : Drain) : ∃ d', d'.readerCalls = d.readerCalls
        ++ [.take (batchLength batch xs.length), .returnLoan (batchLength batch xs.length)]
      ∧ loanLoop batch xs d = loanLoop batch (xs.drop (batchLength batch xs.length)) d' := by
  have hdrop : xs.drop (batchLength batch xs.length)
      = xs.drop (takeLength batch 100 xs.length) := by
    rw [batchLength]
    rcases Nat.le_total (takeLength batch 100 xs.length) xs.length with hle | hle
    · rw [Nat.min_eq_left hle]
    · rw [Nat.min_eq_right hle, List.drop_length, List.drop_eq_nil_of_le hle]
  rw [loanLoop, dif_neg hxs, hdrop]
  refine ⟨_, ?_, rfl⟩
  simp [batchLength]

theorem loanLoop_nil (batch : ℕ → ℕ) (d : Drain) : loanLoop batch [] d = d.call .noData := by
  rw [loanLoop, dif_pos rfl]

/-- **The calls on the reader** are those of a cut of what it holds. -/
theorem exists_cuts (batch : ℕ → ℕ) (xs : List (Sample AirEntity)) (d : Drain) :
    ∃ sizes, Cuts xs.length sizes
      ∧ (loanLoop batch xs d).readerCalls = d.readerCalls ++ loanCalls sizes := by
  induction hlen : xs.length using Nat.strong_induction_on generalizing xs d with
  | _ len ih =>
    subst hlen
    by_cases hxs : xs = []
    · refine ⟨[], ⟨by rw [hxs]; rfl, fun n hn ↦ absurd hn List.not_mem_nil⟩, ?_⟩
      rw [hxs, loanLoop_nil]
      rfl
    · obtain ⟨hpos, hmax, hle⟩ := batchLength_bounds batch (List.length_pos_iff.mpr hxs)
      obtain ⟨d', hcalls, hloop⟩ := loanLoop_step batch hxs d
      obtain ⟨sizes, hcuts, hrest⟩ := ih (xs.drop (batchLength batch xs.length)).length
        (by rw [List.length_drop]; omega) _ d' rfl
      rw [List.length_drop] at hcuts
      refine ⟨batchLength batch xs.length :: sizes, hcuts.cons ⟨hpos, hmax⟩ hle, ?_⟩
      rw [hloop, hrest, hcalls, List.append_assoc]
      rfl

/-- Every cut of what the reader holds is the behaviour of a reader. -/
theorem readerCalls_of_cuts {sizes : List ℕ} {xs : List (Sample AirEntity)}
    (h : Cuts xs.length sizes) {batch : ℕ → ℕ}
    (hbatch : ∀ len ≤ xs.length, batch len = batchOf sizes len) (d : Drain) :
    (loanLoop batch xs d).readerCalls = d.readerCalls ++ loanCalls sizes := by
  induction sizes generalizing xs d with
  | nil =>
    have hnil : xs = [] := List.length_eq_zero_iff.mp h.sum_eq.symm
    rw [hnil, loanLoop_nil]
    rfl
  | cons n sizes ih =>
    have hsum := h.sum_eq
    rw [List.sum_cons] at hsum
    obtain ⟨hpos, hmax⟩ := h.bounds n List.mem_cons_self
    have hlen : batchLength batch xs.length = n := by
      rw [batchLength, takeLength, hbatch _ le_rfl, batchOf, if_pos hsum.symm]
      omega
    have hxs : xs ≠ [] := List.length_pos_iff.mp (by omega)
    obtain ⟨d', hcalls, hloop⟩ := loanLoop_step batch hxs d
    rw [hlen] at hcalls hloop
    rw [hloop, ih (by rw [List.length_drop]; exact h.tail), hcalls, List.append_assoc]
    · rfl
    · intro len hle
      rw [List.length_drop] at hle
      rw [hbatch len (by omega), batchOf, if_neg (by omega)]

/-! ## `run_with_loan` -/

/-- The subscriber on a middleware that cuts batches in its own way. -/
def FastSub.withBatch (f : FastSub) (batch : ℕ → ℕ) : FastSub :=
  { f with reader := { f.reader with batch := batch } }

/-- What every run of `run_with_loan` does, for one way to cut batches. -/
structure FastSub.LoanDrained (f : FastSub) : Prop where
  cut : ∃ sizes, Cuts f.reader.samples.length sizes
    ∧ f.loanDrain.readerCalls = loanCalls sizes
  balanced : Balanced (f.loanDrain.readerCalls.map ReaderCall.loanAct)
  receivedIds : ∀ lost, (f.runWithLoan lost).sub.receivedIds
    = (validIds f.reader.samples).toFinset
  emptied : ∀ lost, (f.runWithLoan lost).sub.reader.samples = []

theorem FastSub.loanDrained (f : FastSub) : f.LoanDrained := by
  obtain ⟨sizes, hcuts, hcalls⟩ := exists_cuts f.reader.batch f.reader.samples {}
  have hcalls' : f.loanDrain.readerCalls = loanCalls sizes := hcalls
  refine ⟨⟨sizes, hcuts, hcalls'⟩, ?_, fun lost ↦ f.loanDrain_spec.1, fun lost ↦ rfl⟩
  rw [hcalls']
  exact balanced_loanCalls sizes

/-- A batch is returned before the next one is taken, with nothing in between that found data. -/
theorem FastSub.take_returned (f : FastSub) {n : ℕ} {pre post : List ReaderCall}
    (h : f.loanDrain.readerCalls = pre ++ .take n :: post) :
    ∃ mid rest, post = mid ++ .returnLoan n :: rest ∧ ∀ c ∈ mid, c = .noData := by
  have hbalanced := f.loanDrained.balanced
  rw [h, List.map_append, List.map_cons] at hbalanced
  obtain ⟨mid, rest, hpost, hmid, -⟩ := hbalanced.settled rfl
  obtain ⟨mid', behind, rfl, rfl, hbehind⟩ := List.map_eq_append_iff.mp hpost
  obtain ⟨c, rest', rfl, hc, -⟩ := List.map_eq_cons_iff.mp hbehind
  obtain rfl : c = .returnLoan n := by
    rcases c with m | _ | m
    · exact absurd hc (by simp [ReaderCall.loanAct])
    · exact absurd hc (by simp [ReaderCall.loanAct])
    · exact congrArg ReaderCall.returnLoan (Loans.Act.settle.inj hc)
  refine ⟨mid', rest', rfl, fun c' hc' ↦ ?_⟩
  have hother := hmid _ (List.mem_map_of_mem hc')
  rcases c' with m | _ | m
  · exact absurd hother (by simp [ReaderCall.loanAct])
  · rfl
  · exact absurd hother (by simp [ReaderCall.loanAct])

/-- **Batching does not matter** to the loan drain: each way to cut batches drains the reader with
one return for each take, to the same ids, verdict and loss; and every cut into batches of 1 to 100
is one of these ways. -/
theorem FastSub.loanDrain_batching (f : FastSub) :
    (∀ batch, (f.withBatch batch).LoanDrained
      ∧ ∀ lost, ((f.withBatch batch).runWithLoan lost).result = (f.runWithLoan lost).result
        ∧ ((f.withBatch batch).runWithLoan lost).lostSamples = (f.runWithLoan lost).lostSamples)
      ∧ ∀ sizes, Cuts f.reader.samples.length sizes →
        ∃ batch, (f.withBatch batch).loanDrain.readerCalls = loanCalls sizes := by
  constructor
  · intro batch
    refine ⟨(f.withBatch batch).loanDrained, fun lost ↦ ?_⟩
    have hids : (f.withBatch batch).loanDrain.receivedIds = f.loanDrain.receivedIds := by
      rw [(f.withBatch batch).loanDrain_spec.1, f.loanDrain_spec.1]
      rfl
    rw [runWithLoan, runWithLoan, hids]
    exact ⟨rfl, rfl⟩
  · intro sizes hsizes
    exact ⟨batchOf sizes, readerCalls_of_cuts hsizes (fun _ _ ↦ rfl) {}⟩

end IndraDds
