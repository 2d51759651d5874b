import IndraDds.Subscriber.Cycle
import IndraDds.Subscriber.Stops
import IndraDds.Vendor.OpenSub

/-!
# The two drains of the Fast DDS subscriber

The plain drain makes at most `expected_messages_cycle` takes, the loan drain goes on until the
reader is empty. They differ in three ways.

The loss is what is expected less the different ids noted, and only the plain drain cannot note more
ids than are expected; where the loan drain does, the loss is negative. A metadata-only sample uses
up a take of the plain drain and nothing of the loan drain, so that the two agree only if the reader
holds no more samples than are expected, with or without data. And the plain drain writes to slots
of vectors that `init` has reserved but not resized, so that every slot is out of bounds.
-/

namespace IndraDds

open Transition

/-! ## Loss accounting -/

/-- The loss of a drain that has `n` samples to wait for. -/
structure LossExact (n : ℕ) (r : DrainResult FastSub) : Prop where
  lost : r.lostSamples = n - r.sub.receivedIds.card
  nonneg : 0 ≤ r.lostSamples
  le : r.lostSamples ≤ n
  zero_iff : r.lostSamples = 0 ↔ r.result = true

theorem card_validIds_take_le (xs : List (Sample AirEntity)) (n : ℕ) :
    (validIds (xs.take n)).toFinset.card ≤ n := by
  calc (validIds (xs.take n)).toFinset.card
      ≤ (validIds (xs.take n)).length := List.toFinset_card_le _
    _ ≤ (xs.take n).length := by
        rw [validIds, List.length_map]
        exact List.length_filter_le _ _
    _ ≤ n := List.length_take_le _ _

/-- `expected_messages_cycle - received_ids.size()` on the machine: an unsigned difference of 64
bits, stored in an `int`. -/
def machineLoss (expected : ℤ) (received : ℕ) : ℤ :=
  Int.bmod (((toSizeT expected : ℤ) - received) % 2 ^ 64) (2 ^ 32)

namespace FastSub

/-- The machine computes the loss of the model, as far as an `int` reaches. -/
theorem lostSamples_eq_machineLoss {f : FastSub} {n : ℕ} (hn : f.expectedMessagesCycle = n)
    (hmax : n < 2 ^ 31) (hreceived : f.receivedIds.card ≤ 2 ^ 31) :
    (f.conclude 0).lostSamples = machineLoss f.expectedMessagesCycle f.receivedIds.card := by
  rw [lostSamples_conclude hn, machineLoss, hn, toSizeT_natCast, Int.bmod_def]
  omega

theorem lossExact_conclude_iff {f : FastSub} {n : ℕ} (hn : f.expectedMessagesCycle = n) :
    LossExact n (f.conclude 0) ↔ f.receivedIds.card ≤ n := by
  have hlost := lostSamples_conclude hn
  have hresult := result_conclude hn 0
  constructor
  · intro h
    have hnonneg := h.nonneg
    omega
  · intro hle
    refine ⟨hlost, ?_, ?_, ?_⟩
    · omega
    · omega
    · rw [hresult, hlost]
      omega

variable {f : FastSub} {n : ℕ}

theorem lossExact_runWithoutLoan (hn : f.expectedMessagesCycle = n) :
    LossExact n (f.runWithoutLoan 0) := by
  refine (lossExact_conclude_iff ?_).mpr ?_
  · exact hn
  · change f.plainDrain.1.receivedIds.card ≤ n
    rw [(plainDrain_spec hn).1]
    exact card_validIds_take_le _ _

/-- **The loss of the loan drain** is exact for so many ids as are expected. -/
theorem lossExact_runWithLoan_iff (hn : f.expectedMessagesCycle = n) :
    LossExact n (f.runWithLoan 0) ↔ (validIds f.reader.samples).toFinset.card ≤ n := by
  rw [← (loanDrain_spec f).1]
  exact lossExact_conclude_iff hn

end FastSub

/-! ## Agreement -/

/-- The two drains of one reader content tell the test the same. -/
structure SameVerdict (f : FastSub) : Prop where
  result : (f.runWithoutLoan 0).result = (f.runWithLoan 0).result
  lostSamples : (f.runWithoutLoan 0).lostSamples = (f.runWithLoan 0).lostSamples
  receivedIds : (f.runWithoutLoan 0).sub.receivedIds = (f.runWithLoan 0).sub.receivedIds

/-- And they leave nothing in the reader. -/
structure SameDrain (f : FastSub) : Prop extends SameVerdict f where
  plainEmpty : (f.runWithoutLoan 0).sub.reader.samples = []
  loanEmpty : (f.runWithLoan 0).sub.reader.samples = []

namespace FastSub

variable {f : FastSub} {n : ℕ}

theorem sameVerdict_of_receivedIds (h : f.plainDrain.1.receivedIds = f.loanDrain.receivedIds) :
    SameVerdict f := by
  refine ⟨?_, ?_, h⟩
  · rw [runWithoutLoan, runWithLoan, h]
    rfl
  · rw [runWithoutLoan, runWithLoan, h]
    rfl

/-- With different ids, the verdict tells of a sample with data that the plain drain has not
come to. -/
theorem sameVerdict_iff (hn : f.expectedMessagesCycle = n)
    (hnodup : (validIds f.reader.samples).Nodup) :
    SameVerdict f ↔ validIds (f.reader.samples.drop n) = [] := by
  have hplain := (plainDrain_spec hn).1
  have hloan := (loanDrain_spec f).1
  rw [← List.take_append_drop n f.reader.samples, validIds_append] at hloan hnodup
  constructor
  · intro h
    have hids : f.plainDrain.1.receivedIds = f.loanDrain.receivedIds := h.receivedIds
    rw [hplain, hloan] at hids
    -- an id behind the takes would have to be that of a sample before as well
    refine List.eq_nil_iff_forall_not_mem.mpr fun i hi ↦ ?_
    have hmem : i ∈ (validIds (f.reader.samples.take n)).toFinset := by
      rw [hids]
      exact List.mem_toFinset.mpr (List.mem_append_right _ hi)
    exact List.disjoint_of_nodup_append hnodup (List.mem_toFinset.mp hmem) hi
  · intro hrest
    refine sameVerdict_of_receivedIds ?_
    rw [hplain, hloan, hrest, List.append_nil]

theorem sameDrain_iff (hn : f.expectedMessagesCycle = n) :
    SameDrain f ↔ f.reader.samples.length ≤ n := by
  obtain ⟨hids, -, hrest⟩ := plainDrain_spec hn
  constructor
  · intro h
    have hempty : f.plainDrain.2 = [] := h.plainEmpty
    rw [hrest] at hempty
    exact List.drop_eq_nil_iff.mp hempty
  · intro hle
    rw [List.take_of_length_le hle, ← (loanDrain_spec f).1] at hids
    rw [List.drop_eq_nil_of_le hle] at hrest
    exact ⟨sameVerdict_of_receivedIds hids, hrest, rfl⟩

end FastSub

/-- **The drains agree** exactly when the reader holds no more samples than are expected; what they
tell the test agrees exactly when none with data stands behind as many. -/
theorem drains_agree_iff (f : FastSub) (n : ℕ) (hnodup : (validIds f.reader.samples).Nodup) :
    (SameDrain (ISub.setExpected f n) ↔ f.reader.samples.length ≤ n) ∧
      (SameVerdict (ISub.setExpected f n) ↔ validIds (f.reader.samples.drop n) = []) :=
  ⟨FastSub.sameDrain_iff (f := ISub.setExpected f n) rfl,
    FastSub.sameVerdict_iff (f := ISub.setExpected f n) rfl hnodup⟩

/-- A sample without data before one with data. -/
def disposedThenSent : List (Sample AirEntity) :=
  [{ data := {}, info := { validData := false } }, { data := { id := 0 } }]

theorem drains_agree_in_two_takes :
    SameDrain (ISub.setExpected { reader := { samples := disposedThenSent } } 2) :=
  (drains_agree_iff { reader := { samples := disposedThenSent } } 2 (by decide)).1.mpr (by decide)

/-- One sample expected, and one there: the plain drain spends its take on the other. -/
theorem drains_disagree_on_metadata : ¬∀ (f : FastSub) (n : ℕ),
    (validIds f.reader.samples).Nodup → (validIds f.reader.samples).length ≤ n →
      SameDrain (ISub.setExpected f n) := by
  intro h
  have hsame := h { reader := { samples := disposedThenSent } } 1 (by decide) (by decide)
  exact absurd ((FastSub.sameDrain_iff (n := 1) rfl).mp hsame) (by decide)

/-! ## Slots -/

theorem accesses_drainLoop (bound i : ℕ) (xs : List (Sample AirEntity)) (d : Drain) :
    (drainLoop bound i xs d).1.accesses
      = d.accesses ++ List.range' i (min (bound - i) (xs.length + 1)) := by
  induction xs generalizing i d with
  | nil =>
    -- the take that finds the reader empty has been handed a slot too
    rw [drainLoop]
    by_cases h : i < bound
    · rw [if_pos h, List.length_nil, Nat.min_eq_right (by omega)]
      rfl
    · rw [if_neg h, show min (bound - i) _ = 0 by omega, List.range'_zero, List.append_nil]
  | cons s xs ih =>
    rw [drainLoop]
    by_cases h : i < bound
    · rw [if_pos h, ih, List.length_cons,
        show min (bound - i) (xs.length + 1 + 1) = min (bound - (i + 1)) (xs.length + 1) + 1 by
          omega, List.range'_succ]
      exact List.append_assoc _ _ _
    · rw [if_neg h, show min (bound - i) _ = 0 by omega, List.range'_zero, List.append_nil]

/-- Every slot the plain drain touches is an element of the preallocated vectors. -/
def FastSub.InBounds (f : FastSub) : Prop :=
  ∀ i ∈ f.plainDrain.1.accesses, i < f.preAllocated.size

theorem FastSub.inBounds_iff {f : FastSub} {n : ℕ} (hn : f.expectedMessagesCycle = n) :
    f.InBounds ↔ min n (f.reader.samples.length + 1) ≤ f.preAllocated.size := by
  have haccesses : f.plainDrain.1.accesses
      = List.range' 0 (min n (f.reader.samples.length + 1)) := by
    rw [plainDrain, hn, toSizeT_natCast, accesses_drainLoop]
    rfl
  rw [InBounds, haccesses]
  constructor
  · intro h
    by_contra hlt
    exact absurd (h f.preAllocated.size (List.mem_range'_1.mpr ⟨Nat.zero_le _, by omega⟩))
      (lt_irrefl _)
  · intro hle i hi
    have hlt := (List.mem_range'_1.mp hi).2
    omega

/-- OpenDDS resizes its vectors to what it is about to take. -/
theorem OpenSub.inBounds (o : OpenSub) (reader : DataReader AirEntity) :
    ∀ i ∈ (o.plainDrain reader).1.accesses,
      i < (o.preAllocated.resize (toSizeT o.ownExpectedMessagesCycle)).size := by
  intro i hi
  rw [plainDrain, accesses_drainLoop, Nat.sub_zero] at hi
  have hlt := (List.mem_range'_1.mp hi).2
  change i < toSizeT o.ownExpectedMessagesCycle
  omega

/-! ## Runs -/

/-- What the two readers hold when a cycle comes to them, and the time of its drain. -/
structure Contents where
  data : List (Sample AirEntity) := []
  control : List (Sample TestControl) := []
  elapsed : ℚ := 0

def Contents.poll (c : Contents) : Poll FastSub where
  batch := c.control
  onSub f := { f with reader := f.reader.withSamples c.data }
  elapsed := c.elapsed

namespace SubTest

/-- A cycle of the Fast DDS subscriber on these contents. -/
def drainCycle (o : Outcome FastSubTest) (c : Contents) : Outcome FastSubTest := cycle o c.poll

/-- The cycle measures a round. -/
structure Draining (s : FastSubTest) (c : Contents) : Prop where
  running : s.exec.currentState = .EXECUTION
  active : s.testActive = true
  silent : c.poll.newest = none

variable {s : FastSubTest} {c : Contents}

theorem drainCycle_of_draining (h : s.Draining c) {n : ℕ}
    (hn : s.sub.expectedMessagesCycle = n) :
    ∃ t : FastSubTest, drainCycle (.ret s) c = .ret t.tick ∧
      (s.heardAll c.poll).Measures t n := by
  obtain ⟨t, ht, hmeasures⟩ := measure_fast (s := s.heardAll c.poll) hn c.elapsed
  refine ⟨t, ?_, hmeasures⟩
  have hcycle := cycle_measures h.running h.silent h.active
  rw [show c.poll.elapsed = c.elapsed from rfl, ht] at hcycle
  exact hcycle

theorem account_of_not_draining (h : ¬s.Draining c) :
    (drainCycle (.ret s) c).world.account = s.account := by
  rw [drainCycle]
  obtain ⟨-, hcycle⟩ | ⟨msg, -, hcycle⟩ | ⟨-, hcycle⟩ | ⟨hrun, hnewest, hactive, -⟩ :=
    cycle_cases s c.poll
  · rw [hcycle]
    rfl
  · rw [hcycle]
    rfl
  · rw [hcycle]
    rfl
  · exact absurd ⟨hrun, hactive, hnewest⟩ h

/-! ### The running total -/

/-- An armed round expects no negative number of samples. -/
def Waits (s : FastSubTest) : Prop := s.testActive = true → 0 ≤ s.sub.expectedMessagesCycle

/-- The starts of a batch expect no negative number of samples. -/
def Sane (c : Contents) : Prop :=
  ∀ msg ∈ messages c.control, msg.start = true → 0 ≤ msg.expectedEntities

theorem Waits.drainCycle (h : s.Waits) (hc : Sane c) :
    (SubTest.drainCycle (.ret s) c).world.Waits := by
  obtain ⟨-, hcycle⟩ | ⟨msg, hnewest, hcycle⟩ | ⟨hactive, hcycle⟩ | ⟨hrun, hnewest, hactive, -⟩ :=
    cycle_cases s c.poll
  · rw [SubTest.drainCycle, hcycle]
    exact h
  · rw [SubTest.drainCycle, hcycle]
    exact hc msg (List.mem_of_getLast? hnewest)
  · rw [SubTest.drainCycle, hcycle]
    intro hactive'
    exact absurd (hactive.symm.trans hactive') Bool.false_ne_true
  · obtain ⟨n, hn⟩ := Int.eq_ofNat_of_zero_le (h hactive)
    obtain ⟨t, ht, hmeasures⟩ := drainCycle_of_draining ⟨hrun, hactive, hnewest⟩ hn
    rw [ht]
    intro hactive'
    exact absurd (hmeasures.testActive.symm.trans hactive') Bool.false_ne_true

theorem waits_run (config : MainTestConfig) (f : FastSub) (control : FastSubControl)
    {cs : List Contents} (hcs : ∀ c ∈ cs, Sane c) :
    (run drainCycle (start config f control) cs).world.Waits := by
  induction cs using List.reverseRecOn with
  | nil =>
    intro hactive
    exact absurd hactive Bool.false_ne_true
  | append_singleton cs c ih =>
    obtain ⟨hbefore, hc⟩ := List.forall_mem_append.mp hcs
    have hwaits := ih hbefore
    rw [run_concat]
    cases hrun : run drainCycle (start config f control) cs with
    | thrown what s =>
      rw [hrun] at hwaits
      exact hwaits
    | ret s =>
      rw [hrun] at hwaits
      exact hwaits.drainCycle (hc c List.mem_cons_self)

/-- The total loss does not go down. -/
def TotalGrows (o : Outcome FastSubTest) (c : Contents) : Prop :=
  o.world.totalLostSamples ≤ (drainCycle o c).world.totalLostSamples

/-- A drain on loan finds no more different ids than are expected. -/
def LoanFits (o : Outcome FastSubTest) (c : Contents) : Prop :=
  ∀ s, o = .ret s → s.Draining c → s.processType = .Loan →
    ((validIds c.data).toFinset.card : ℤ) ≤ s.sub.expectedMessagesCycle

theorem received_le_iff {n : ℕ} (hn : s.sub.expectedMessagesCycle = n) :
    (s.heardAll c.poll).received ≤ n ↔
      (s.processType = .Loan → (validIds c.data).toFinset.card ≤ n) := by
  obtain hmode | hmode := s.processType.normal_or_loan
  · -- the plain drain stops at as many takes as are expected
    have hcounted : (s.heardAll c.poll).counted = c.data.take n := by
      rw [counted, show (s.heardAll c.poll).processType = .Normal from hmode]
      change c.data.take (toSizeT s.sub.expectedMessagesCycle) = _
      rw [hn]
      exact congrArg c.data.take (toSizeT_natCast n)
    rw [received, hcounted]
    refine iff_of_true (card_validIds_take_le _ _) fun hloan ↦ ?_
    rw [hmode] at hloan
    exact absurd hloan (by simp)
  · -- the loan drain takes all there is
    have hcounted : (s.heardAll c.poll).counted = c.data := by
      rw [counted, show (s.heardAll c.poll).processType = .Loan from hmode]
      rfl
    rw [received, hcounted]
    exact ⟨fun hle _ ↦ hle, fun hle ↦ hle hmode⟩

theorem Waits.totalGrows_iff (h : s.Waits) (c : Contents) :
    TotalGrows (.ret s) c ↔ LoanFits (.ret s) c := by
  by_cases hdraining : s.Draining c
  · obtain ⟨n, hn⟩ := Int.eq_ofNat_of_zero_le (h hdraining.active)
    obtain ⟨t, ht, hmeasures⟩ := drainCycle_of_draining hdraining hn
    have htotal : t.totalLostSamples
        = s.totalLostSamples + (n - (s.heardAll c.poll).received) := hmeasures.totalLostSamples
    have hgrows : TotalGrows (.ret s) c ↔ (s.heardAll c.poll).received ≤ n := by
      rw [TotalGrows, ht]
      change s.totalLostSamples ≤ t.totalLostSamples ↔ _
      rw [htotal]
      omega
    rw [hgrows, received_le_iff hn]
    constructor
    · intro hle t ht _ hloan
      rw [← Outcome.ret.inj ht] at hloan ⊢
      rw [hn]
      exact Int.ofNat_le.mpr (hle hloan)
    · intro hfits hloan
      have hle := hfits s rfl hdraining hloan
      rw [hn] at hle
      exact Int.ofNat_le.mp hle
  · refine iff_of_true (le_of_eq ?_) fun t ht hdrain ↦ ?_
    · exact (congrArg Account.totalLostSamples (account_of_not_draining hdraining)).symm
    · rw [← Outcome.ret.inj ht] at hdrain
      exact absurd hdrain hdraining

/-- **Loss accounting.** Both drains account exactly for a reader that holds no more different ids
than are expected. Along a run the total never goes down exactly when no drain on loan finds
more. -/
theorem lossExact_iff (config : MainTestConfig) (isub : FastSub) (isubcontrol : FastSubControl)
    {cs : List Contents} (hcs : ∀ c ∈ cs, Sane c) :
    (∀ (f : FastSub) (n : ℕ),
      LossExact n ((ISub.setExpected f n).runWithoutLoan 0) ∧
        LossExact n ((ISub.setExpected f n).runWithLoan 0) ↔
          (validIds f.reader.samples).toFinset.card ≤ n) ∧
    (Along drainCycle TotalGrows (start config isub isubcontrol) cs ↔
      Along drainCycle LoanFits (start config isub isubcontrol) cs) := by
  constructor
  · intro f n
    have hloan := FastSub.lossExact_runWithLoan_iff (f := ISub.setExpected f n) (n := n) rfl
    exact ⟨fun h ↦ hloan.mp h.2,
      fun hle ↦ ⟨FastSub.lossExact_runWithoutLoan rfl, hloan.mpr hle⟩⟩
  · refine along_congr ?_
    rintro pre c post rfl
    have hwaits := waits_run config isub isubcontrol
      fun c hc ↦ hcs c (List.mem_append_left _ hc)
    cases hrun : run drainCycle (start config isub isubcontrol) pre with
    | thrown what s => exact iff_of_true (Int.le_refl _) fun t ht ↦ absurd ht (by simp)
    | ret s =>
      rw [hrun] at hwaits
      exact hwaits.totalGrows_iff c

theorem total_grows_in_one_round : Along drainCycle TotalGrows
    (start {} { reader := {} } { reader := {} })
    [{ control :=
        [{ data := { testId := 1, start := true, expectedEntities := 1, loan := true } }] },
      { data := [{ data := { id := 0 } }] }] := by
  refine (lossExact_iff {} _ _ ?_).2.mpr ⟨?_, ?_, trivial⟩
  · unfold Sane
    decide
  · rintro s hs hdraining -
    rw [← Outcome.ret.inj hs] at hdraining
    exact absurd hdraining.active (by decide)
  · rintro s hs - -
    rw [← Outcome.ret.inj hs]
    decide

/-- Two samples on loan where one is expected: the loss is minus one. -/
theorem loan_drain_loses_minus_one : ¬∀ (f : FastSub) (n : ℕ),
    LossExact n ((ISub.setExpected f n).runWithoutLoan 0) ∧
      LossExact n ((ISub.setExpected f n).runWithLoan 0) := by
  intro h
  have hloan :=
    (h { reader := { samples := [{ data := { id := 0 } }, { data := { id := 1 } }] } } 1).2
  exact absurd ((FastSub.lossExact_runWithLoan_iff rfl).mp hloan) (by decide)

/-! ### The preallocated vectors -/

theorem keeps_size_preAllocated : ISub.Keeps fun f : FastSub ↦ f.preAllocated.size = 0 where
  withBase _ _ h := h
  resetSamples _ h := h
  runWithoutLoan _ _ h := h
  runWithLoan _ _ r hr h := by
    rw [← Except.ok.inj hr]
    exact h

theorem preAllocated_run (config : MainTestConfig) (reader : DataReader AirEntity)
    (control : FastSubControl) (cs : List Contents) :
    (run drainCycle (start config (FastSub.init { reader := reader }) control)
      cs).world.sub.preAllocated.size = 0 := by
  refine run_invariant (I := fun o : Outcome FastSubTest ↦ o.world.sub.preAllocated.size = 0)
    rfl ?_ cs
  intro o c ho
  have hfilled : (o.map (meet c.poll.move)).world.sub.preAllocated.size = 0 := by
    rw [Outcome.world_map]
    exact ho
  exact keeps_pass keeps_size_preAllocated c.elapsed hfilled

/-- **In bounds.** Whatever has happened since `init`, and whatever the reader holds, the plain
drain stays within the vectors only if it has nothing to wait for. -/
theorem inBounds_iff_eq_zero (config : MainTestConfig) (reader : DataReader AirEntity)
    (control : FastSubControl) (cs : List Contents) (xs : List (Sample AirEntity)) (n : ℕ) :
    let f :=
      (run drainCycle (start config (FastSub.init { reader := reader }) control) cs).world.sub
    (ISub.setExpected { f with reader := f.reader.withSamples xs } n).InBounds ↔ n = 0 := by
  intro f
  have hsize : f.preAllocated.size = 0 := preAllocated_run config reader control cs
  have hbounds := FastSub.inBounds_iff (n := n)
    (f := ISub.setExpected { f with reader := f.reader.withSamples xs } n) rfl
  rw [hbounds]
  change min n (xs.length + 1) ≤ f.preAllocated.size ↔ n = 0
  rw [hsize]
  omega

/-- One sample expected of an empty reader: the first take is handed a slot that is not there. -/
theorem drain_out_of_bounds : ¬∀ (n : ℕ) (xs : List (Sample AirEntity)),
    (ISub.setExpected (FastSub.init { reader := { samples := xs } }) n).InBounds := by
  intro h
  exact absurd ((FastSub.inBounds_iff (n := 1) rfl).mp (h 1 [])) (by decide)

end SubTest

end IndraDds
