import IndraDds.Subscriber.Test

/-!
# The cycle of the Fast DDS subscriber

What one pass of the subscriber's loop does, with the Fast DDS implementations behind its
interfaces. There are three cases: the poll finds messages and the newest is adopted, the poll finds
nothing and the armed round is measured, or nothing happens.

A measurement depends on the samples the drain counts, `counted`: the first `n` in the reader in
the normal mode, all of them in the loan mode.
-/

namespace IndraDds

/-- The subscriber with the Fast DDS implementations of its interfaces. -/
abbrev FastSubTest := SubTest FastSub FastSubControl

/-- A reader without metadata-only samples polls the newest of all. -/
theorem getLast?_messages {xs : List (Sample TestControl)}
    (hvalid : ∀ y ∈ xs, y.info.validData = true) :
    (messages xs).getLast? = xs.getLast?.map Sample.data := by
  rw [messages, List.filter_eq_self.mpr hvalid, List.getLast?_map]

namespace SubTest

/-- A sample arrives on the data topic. -/
def receiveData (s : FastSubTest) (x : Sample AirEntity) : FastSubTest :=
  { s with sub := { s.sub with reader := s.sub.reader.receive AirEntity.id x } }

/-- A message arrives on the control topic. -/
def receiveControl (s : FastSubTest) (x : Sample TestControl) : FastSubTest :=
  { s with
    subControl := { s.subControl with reader := s.subControl.reader.receive TestControl.testId x } }

/-! ## The three cases of `read` -/

section Read

variable {s : FastSubTest} {elapsed : ℚ}

/-- The subscriber after a poll that handed back `msg`. -/
def adopted (s : FastSubTest) (msg : TestControl) : FastSubTest :=
  ({ s with
    subControl := { reader := s.subControl.reader.withSamples [], last := .ofControl msg } } :
    FastSubTest).adopt (.ofControl msg)

theorem read_new {x : Sample TestControl}
    (hvalid : ∀ y ∈ s.subControl.reader.samples, y.info.validData = true)
    (hlast : s.subControl.reader.samples.getLast? = some x) :
    s.read elapsed = .ret (s.adopted x.data) := by
  have hmsg : (messages s.subControl.reader.samples).getLast? = some x.data := by
    rw [getLast?_messages hvalid, hlast]
    rfl
  have hpoll := FastSubControl.pollControl_some hmsg {}
  rw [read_applied (congrArg PollResult.applied hpoll)]
  change Outcome.ret (({ s with subControl := (s.subControl.pollControl {}).control } :
    FastSubTest).adopt (s.subControl.pollControl {}).out) = _
  rw [hpoll]
  rfl

theorem pollControl_nil (h : s.subControl.reader.samples = []) (out : TestConfig) :
    ISubControl.pollControl s.subControl out
      = { applied := false, out := out, control := s.subControl } := by
  change s.subControl.pollControl out = _
  rw [FastSubControl.pollControl_none (by rw [h]; rfl), DataReader.withSamples, ← h]

theorem read_idle (hnil : s.subControl.reader.samples = []) (h : s.testActive = false) :
    s.read elapsed = .ret s := by
  rw [read_inactive (by rw [pollControl_nil hnil]) h, pollControl_nil hnil]

theorem read_measure (hnil : s.subControl.reader.samples = []) (h : s.testActive = true) :
    s.read elapsed = s.measure elapsed := by
  rw [read_active (by rw [pollControl_nil hnil]) h, pollControl_nil hnil]

end Read

/-! ## The measurement -/

/-- The samples the next measurement counts. -/
def counted (s : FastSubTest) : List (Sample AirEntity) :=
  match s.processType with
  | .Normal => s.sub.reader.samples.take (toSizeT s.sub.expectedMessagesCycle)
  | .Loan => s.sub.reader.samples

/-- What it leaves in the reader. -/
def uncounted (s : FastSubTest) : List (Sample AirEntity) :=
  match s.processType with
  | .Normal => s.sub.reader.samples.drop (toSizeT s.sub.expectedMessagesCycle)
  | .Loan => []

/-- The samples it takes, by the record of its drain. -/
def taken (s : FastSubTest) : List (Sample AirEntity) :=
  match s.processType with
  | .Normal => s.sub.resetSamples.plainDrain.1.taken
  | .Loan => s.sub.resetSamples.loanDrain.taken

theorem taken_eq_counted {s : FastSubTest} {n : ℕ} (hn : s.sub.expectedMessagesCycle = n) :
    s.taken = s.counted := by
  rw [taken, counted, hn, toSizeT_natCast]
  cases s.processType with
  | Normal => exact (FastSub.plainDrain_spec (f := s.sub.resetSamples) hn).2.1
  | Loan => exact (FastSub.loanDrain_spec s.sub.resetSamples).2

/-- The number of different ids it counts. -/
def received (s : FastSubTest) : ℕ := (validIds s.counted).toFinset.card

/-- The subscriber after a measurement, of which `n` samples are expected. -/
structure Measures (s t : FastSubTest) (n : ℕ) : Prop where
  measured : t.measured = s.measured ++
    [{ testId := s.currentTestId, expected := n, processType := s.processType,
       result := s.received = n, lostSamples := n - s.received }]
  totalLostSamples : t.totalLostSamples = s.totalLostSamples + (n - s.received)
  testValidation : t.testValidation = s.testValidation.addTestResult
    (if s.received = n then .VALID else .INVALID)
  currentTest : t.currentTest = s.currentTest + 1
  exec : t.exec = if s.maxTest ≤ s.currentTest + 1 then s.exec.requestSimulationEnd else s.exec
  reader : t.sub.reader = s.sub.reader.withSamples s.uncounted
  expected : t.sub.expectedMessagesCycle = n
  subControl : t.subControl = s.subControl
  testActive : t.testActive = false
  currentTestId : t.currentTestId = s.currentTestId
  processType : t.processType = s.processType
  maxTest : t.maxTest = s.maxTest

/-- The drain of the Fast DDS subscriber, which never throws. -/
theorem drain_fast {s : FastSubTest} {n : ℕ} (hn : s.sub.expectedMessagesCycle = n) :
    ∃ r, s.drain = .ok r ∧ r.result = decide (s.received = n) ∧ r.lostSamples = n - s.received ∧
      r.sub.reader = s.sub.reader.withSamples s.uncounted ∧ r.sub.expectedMessagesCycle = n := by
  -- in both modes the drain concludes on a subscriber `f` with the ids of the counted samples
  suffices h : ∃ f : FastSub, s.drain = .ok (f.conclude 0) ∧
      f.receivedIds = (validIds s.counted).toFinset ∧
      f.reader = s.sub.reader.withSamples s.uncounted ∧ f.expectedMessagesCycle = n by
    obtain ⟨f, hdrain, hids, hreader, hf⟩ := h
    refine ⟨_, hdrain, ?_, ?_, hreader, hf⟩
    · rw [received, ← hids, ← Bool.decide_coe (f.conclude 0).result]
      exact decide_eq_decide.mpr (FastSub.result_conclude hf 0)
    · rw [received, ← hids]
      exact FastSub.lostSamples_conclude hf
  rw [drain, counted, uncounted, hn, toSizeT_natCast]
  cases s.processType with
  | Normal =>
    obtain ⟨hids, -, hrest⟩ := FastSub.plainDrain_spec hn
    exact ⟨{ s.sub with
      receivedIds := s.sub.plainDrain.1.receivedIds
      reader := s.sub.reader.withSamples s.sub.plainDrain.2 },
      rfl, hids, congrArg s.sub.reader.withSamples hrest, hn⟩
  | Loan =>
    obtain ⟨hids, -⟩ := FastSub.loanDrain_spec s.sub
    exact ⟨{ s.sub with
      receivedIds := s.sub.loanDrain.receivedIds
      reader := s.sub.reader.withSamples [] }, rfl, hids, rfl, hn⟩

theorem measure_fast {s : FastSubTest} {n : ℕ} (hn : s.sub.expectedMessagesCycle = n)
    (elapsed : ℚ) : ∃ t, s.measure elapsed = .ret t ∧ s.Measures t n := by
  obtain ⟨r, hdrain, hresult, hlost, hreader, hexpected⟩ :=
    drain_fast (s := { s with sub := ISub.resetSamples s.sub }) hn
  have hmeasure : s.measure elapsed
      = .ret (({ s with sub := ISub.resetSamples s.sub } : FastSubTest).conclude elapsed r) := by
    rw [measure]
    simp only [hdrain]
  refine ⟨_, hmeasure, ?_⟩
  rw [conclude_eq]
  have hexp : (ISub.base (ISub.resetSamples s.sub)).expectedMessagesCycle = n := hn
  exact {
    measured := by
      simp only [booked, measurement, hresult, hlost, hexp]
      rfl
    totalLostSamples := by
      simp only [booked, hlost]
      rfl
    testValidation := by
      simp only [booked, hresult, decide_eq_true_eq]
      rfl
    currentTest := rfl
    exec := rfl
    reader := hreader
    expected := hexpected
    subControl := rfl
    testActive := rfl
    currentTestId := rfl
    processType := rfl
    maxTest := rfl }

/-! ## The cycle -/

/-- What a cycle of the subscriber does. -/
inductive Cycles (s : FastSubTest) : FastSubTest → Prop where
  | adopt (x : Sample TestControl) (h : s.subControl.reader.samples.getLast? = some x) :
      Cycles s (s.adopted x.data).tick
  | idle (hnil : s.subControl.reader.samples = []) (h : s.testActive = false) : Cycles s s.tick
  | measure (t : FastSubTest) (n : ℕ) (hnil : s.subControl.reader.samples = [])
      (h : s.testActive = true) (hn : s.sub.expectedMessagesCycle = n) (ht : s.Measures t n) :
      Cycles s t.tick

/-- **Inversion.** A cycle of a subscriber that expects no negative number of samples, if it
expects any. -/
theorem pass_cycles {s : FastSubTest} (elapsed : ℚ) (hrun : s.exec.currentState = .EXECUTION)
    (hvalid : ∀ x ∈ s.subControl.reader.samples, x.info.validData = true)
    (hnonneg : s.testActive = true → 0 ≤ s.sub.expectedMessagesCycle) :
    ∃ t, pass (.ret s) elapsed = .ret t ∧ s.Cycles t := by
  rw [pass_ret elapsed hrun]
  cases hlast : s.subControl.reader.samples.getLast? with
  | some x =>
    rw [read_new hvalid hlast]
    exact ⟨_, rfl, .adopt x hlast⟩
  | none =>
    have hnil := List.getLast?_eq_none_iff.mp hlast
    cases hactive : s.testActive with
    | false =>
      rw [read_idle hnil hactive]
      exact ⟨_, rfl, .idle hnil hactive⟩
    | true =>
      obtain ⟨n, hn⟩ := Int.eq_ofNat_of_zero_le (hnonneg hactive)
      obtain ⟨t, ht, hmeasures⟩ := measure_fast hn elapsed
      rw [read_measure hnil hactive, ht]
      exact ⟨_, rfl, .measure t n hnil hactive hn hmeasures⟩

end SubTest

end IndraDds
