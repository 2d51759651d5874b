import IndraDds.Stress.Pattern
import IndraDds.Vendor.FastSub

/-!
# The subscriber test

`sub_test_1_to_1` polls the control topic in every cycle. A poll that hands back a start adopts its
parameters and ends the cycle; in a later cycle in which the poll hands back nothing, the test
drains the data reader, once, and goes back to waiting for a start.

The test is written against the interfaces `ISub` and `ISubControl`, and so is the model. The
measurements are recorded in `measured` with the parameters the drain was made with, and the final
report in `reports`; neither is read by the code.
-/

namespace IndraDds

/-! ## State -/

/-- A drain and its outcome. -/
structure Measurement where
  testId : ℤ
  expected : ℤ
  processType : ProcessType
  result : Bool
  lostSamples : ℤ
deriving DecidableEq, Repr

/-- What the final report prints. -/
structure SubReport where
  expectedPerCycle : ℤ
  testsRun : ℤ
  validation : TestValidation
  cpuTimes : Distribution
  totalLostSamples : ℤ
deriving DecidableEq

/-- `sub_test_1_to_1` and the executive it calls back into. -/
structure SubTest (σ κ : Type) extends PatternBase where
  exec : Executive := {}
  sub : σ
  subControl : κ
  testActive : Bool := false
  currentTestId : ℤ := 0
  totalLostSamples : ℤ := 0
  testValidation : TestValidation := {}
  cpuTimes : Distribution := {}
  config : MainTestConfig
  processType : ProcessType := .Normal
  measured : List Measurement := []
  reports : List SubReport := []

variable {σ κ : Type}

instance : HasExecutive (SubTest σ κ) where
  exec := SubTest.exec
  withExec s e := { s with exec := e }

namespace SubTest

variable [ISub σ]

/-- The constructor. -/
def new (config : MainTestConfig) (isub : σ) (isubcontrol : κ) : SubTest σ κ where
  config := config
  sub := ISub.setExpected isub config.messageCount
  subControl := isubcontrol
  maxTest := config.testCount
  processType := ProcessType.ofLoan config.loanMode

def makeFinalReport (s : SubTest σ κ) : SubTest σ κ :=
  { s with
    reports := s.reports ++
      [{ expectedPerCycle := (ISub.base s.sub).expectedMessagesCycle
         testsRun := s.currentTest
         validation := s.testValidation
         cpuTimes := s.cpuTimes
         totalLostSamples := s.totalLostSamples }]
    exec := s.exec.requestSimulationEnd }

instance : Pattern (SubTest σ κ) where
  base := SubTest.toPatternBase
  withBase s b := { s with toPatternBase := b }
  onTestFinished value s :=
    { s with
      testValidation := s.testValidation.addTestResult (if value then .VALID else .INVALID) }
  makeFinalReport := makeFinalReport

/-- `reset_test`. -/
def resetTest (s : SubTest σ κ) : SubTest σ κ :=
  { s with sub := ISub.resetSamples s.sub, testActive := false }

/-! ## The cycle -/

/-- The assignments of a poll that handed back a configuration. -/
def adopt (s : SubTest σ κ) (testConfig : TestConfig) : SubTest σ κ :=
  { s with
    currentTestId := testConfig.testId
    sub := ISub.setExpected s.sub testConfig.expectedEntities
    testActive := testConfig.active
    processType := if testConfig.loan then .Loan else .Normal }

/-- The drain of the current mode, with `current_lost_samples` at zero. -/
def drain (s : SubTest σ κ) : Except String (DrainResult σ) :=
  match s.processType with
  | .Normal => .ok (ISub.runWithoutLoan s.sub 0)
  | .Loan => ISub.runWithLoan s.sub 0

/-- What is recorded of a drain. -/
def measurement (s : SubTest σ κ) (r : DrainResult σ) : Measurement where
  testId := s.currentTestId
  expected := (ISub.base s.sub).expectedMessagesCycle
  processType := s.processType
  result := r.result
  lostSamples := r.lostSamples

/-- What follows a drain. -/
def conclude (elapsed : ℚ) (s : SubTest σ κ) (r : DrainResult σ) : SubTest σ κ :=
  let s := { s with
    sub := r.sub
    measured := s.measured ++ [s.measurement r]
    cpuTimes := s.cpuTimes.addValue elapsed
    totalLostSamples := s.totalLostSamples + r.lostSamples }
  (finishTest r.result s).resetTest

/-- The subscriber after a drain, less the report and the end that the last drain asks for. -/
def booked (elapsed : ℚ) (s : SubTest σ κ) (r : DrainResult σ) : SubTest σ κ :=
  { s with
    currentTest := s.currentTest + 1
    sub := ISub.resetSamples r.sub
    testActive := false
    totalLostSamples := s.totalLostSamples + r.lostSamples
    testValidation := s.testValidation.addTestResult (if r.result then .VALID else .INVALID)
    cpuTimes := s.cpuTimes.addValue elapsed
    measured := s.measured ++ [s.measurement r] }

/-- What the subscriber would report, of `expected` samples a cycle. -/
def report (s : SubTest σ κ) (expected : ℤ) : SubReport where
  expectedPerCycle := expected
  testsRun := s.currentTest
  validation := s.testValidation
  cpuTimes := s.cpuTimes
  totalLostSamples := s.totalLostSamples

theorem conclude_eq (elapsed : ℚ) (s : SubTest σ κ) (r : DrainResult σ) :
    s.conclude elapsed r =
      { s.booked elapsed r with
        exec := if s.maxTest ≤ s.currentTest + 1 then s.exec.requestSimulationEnd else s.exec
        reports := if s.maxTest ≤ s.currentTest + 1
          then s.reports ++ [(s.booked elapsed r).report (ISub.base r.sub).expectedMessagesCycle]
          else s.reports } := by
  rw [conclude]
  change (ite (s.maxTest ≤ s.currentTest + 1) _ _ : SubTest σ κ).resetTest = _
  by_cases h : s.maxTest ≤ s.currentTest + 1
  · rw [if_pos h, if_pos h, if_pos h]
    rfl
  · rw [if_neg h, if_neg h, if_neg h]
    rfl

theorem currentTestId_conclude (elapsed : ℚ) (s : SubTest σ κ) (r : DrainResult σ) :
    (s.conclude elapsed r).currentTestId = s.currentTestId := by
  rw [conclude_eq]
  rfl

theorem testActive_conclude (elapsed : ℚ) (s : SubTest σ κ) (r : DrainResult σ) :
    (s.conclude elapsed r).testActive = false := by
  rw [conclude_eq]
  rfl

/-- The part of `read` after "Begin test". -/
def measure (elapsed : ℚ) (s : SubTest σ κ) : Outcome (SubTest σ κ) :=
  let s := { s with sub := ISub.resetSamples s.sub }
  match s.drain with
  | .error what => .thrown what s
  | .ok r => .ret (s.conclude elapsed r)

variable [ISubControl κ]

/-- `read`, in a cycle whose drain takes the time `elapsed`. -/
def read (elapsed : ℚ) (s : SubTest σ κ) : Outcome (SubTest σ κ) :=
  let poll := ISubControl.pollControl s.subControl {}
  let s := { s with subControl := poll.control }
  let s := if poll.applied then s.adopt poll.out else s
  if poll.applied && s.testActive then .ret s
  else if !s.testActive then .ret s
  else s.measure elapsed

/-! ### The cases of `read` -/

section Read

variable {s : SubTest σ κ} {elapsed : ℚ}

/-- A poll that hands back a configuration ends the cycle, whatever it says. -/
theorem read_applied (h : (ISubControl.pollControl s.subControl {}).applied = true) :
    s.read elapsed
      = .ret (({ s with subControl := (ISubControl.pollControl s.subControl {}).control } :
          SubTest σ κ).adopt (ISubControl.pollControl s.subControl {}).out) := by
  rw [read]
  simp only [h, if_true, Bool.true_and]
  split_ifs with h1 h2
  · rfl
  · rfl
  · exact absurd (by simpa using h1) h2

theorem read_inactive (h : (ISubControl.pollControl s.subControl {}).applied = false)
    (hactive : s.testActive = false) :
    s.read elapsed
      = .ret { s with subControl := (ISubControl.pollControl s.subControl {}).control } := by
  rw [read]
  simp only [h, hactive, Bool.false_and, Bool.false_eq_true, if_false, Bool.not_false, if_true]

theorem read_active (h : (ISubControl.pollControl s.subControl {}).applied = false)
    (hactive : s.testActive = true) :
    s.read elapsed
      = ({ s with subControl := (ISubControl.pollControl s.subControl {}).control } :
          SubTest σ κ).measure elapsed := by
  rw [read]
  simp only [h, hactive, Bool.false_and, Bool.false_eq_true, if_false, Bool.not_true]

end Read

/-! ## The run -/

/-- The only module of the executive. The initialisation of the two subscribers, whose failure is
only printed, has happened. -/
def clModule (elapsed : ℚ) : ClModule (SubTest σ κ) where
  moduleId := 0
  init := .ret
  read := SubTest.read elapsed
  write := .ret
  update := .ret

/-- The test after `_exec->init()`. -/
def start (config : MainTestConfig) (isub : σ) (isubcontrol : κ) : Outcome (SubTest σ κ) :=
  Executive.init [clModule 0] (new config isub isubcontrol)

/-- One pass of the loop of `main`. -/
def pass (o : Outcome (SubTest σ κ)) (elapsed : ℚ) : Outcome (SubTest σ κ) :=
  mainPass [clModule elapsed] o

/-- The cycle has been counted. -/
def tick (s : SubTest σ κ) : SubTest σ κ :=
  { s with exec := { s.exec with currentCycle := s.exec.currentCycle + 1 } }

theorem pass_ret (elapsed : ℚ) {s : SubTest σ κ} (h : s.exec.currentState = .EXECUTION) :
    pass (.ret s) elapsed = (s.read elapsed).bind fun s ↦ .ret s.tick :=
  mainPass_singleton (clModule elapsed) h

end SubTest

/-! ## What a cycle does to the two objects -/

section Keeps

variable [ISub σ]

/-- No call through the interface takes the property `I` away. -/
structure ISub.Keeps (I : σ → Prop) : Prop where
  withBase : ∀ s b, I s → I (ISub.withBase s b)
  resetSamples : ∀ s, I s → I (ISub.resetSamples s)
  runWithoutLoan : ∀ s lost, I s → I (ISub.runWithoutLoan s lost).sub
  runWithLoan : ∀ s lost r, ISub.runWithLoan s lost = .ok r → I s → I r.sub

namespace SubTest

variable {I : σ → Prop} {s : SubTest σ κ}

theorem keeps_measure (hI : ISub.Keeps I) (elapsed : ℚ) (h : I s.sub) :
    I (s.measure elapsed).world.sub := by
  have hreset : I (ISub.resetSamples s.sub) := hI.resetSamples _ h
  have hdrain : ∀ r, drain { s with sub := ISub.resetSamples s.sub } = .ok r → I r.sub := by
    intro r hr
    rw [drain] at hr
    rcases hmode : s.processType with _ | _
    · rw [hmode] at hr
      rw [← Except.ok.inj hr]
      exact hI.runWithoutLoan _ _ hreset
    · rw [hmode] at hr
      exact hI.runWithLoan _ _ r hr hreset
  rw [measure]
  rcases hr : drain { s with sub := ISub.resetSamples s.sub } with what | r
  · exact hreset
  · change I (conclude elapsed _ r).sub
    rw [conclude_eq]
    exact hI.resetSamples _ (hdrain r hr)

theorem subControl_measure (elapsed : ℚ) (s : SubTest σ κ) :
    (s.measure elapsed).world.subControl = s.subControl := by
  rw [measure]
  split
  · rfl
  · rw [Outcome.world_ret, conclude_eq]
    rfl

variable [ISubControl κ]

theorem keeps_read (hI : ISub.Keeps I) (elapsed : ℚ) (h : I s.sub) :
    I (s.read elapsed).world.sub := by
  rcases happlied : (ISubControl.pollControl s.subControl {}).applied with _ | _
  · rcases hactive : s.testActive with _ | _
    · rw [read_inactive happlied hactive]
      exact h
    · rw [read_active happlied hactive]
      exact keeps_measure hI elapsed h
  · rw [read_applied happlied]
    exact hI.withBase _ _ h

/-- Whatever else a cycle does, it polls once. -/
theorem subControl_read (elapsed : ℚ) (s : SubTest σ κ) :
    (s.read elapsed).world.subControl = (ISubControl.pollControl s.subControl {}).control := by
  rcases happlied : (ISubControl.pollControl s.subControl {}).applied with _ | _
  · rcases hactive : s.testActive with _ | _
    · rw [read_inactive happlied hactive]
      rfl
    · rw [read_active happlied hactive, subControl_measure]
  · rw [read_applied happlied]
    rfl

theorem sub_pass (elapsed : ℚ) (h : s.exec.currentState = .EXECUTION) :
    (pass (.ret s) elapsed).world.sub = (s.read elapsed).world.sub := by
  rw [pass_ret elapsed h]
  exact Outcome.world_bind_ret (f := tick) (g := fun t ↦ t.sub) (fun _ ↦ rfl) _

theorem subControl_pass (elapsed : ℚ) (h : s.exec.currentState = .EXECUTION) :
    (pass (.ret s) elapsed).world.subControl
      = (ISubControl.pollControl s.subControl {}).control := by
  rw [pass_ret elapsed h, ← subControl_read elapsed]
  exact Outcome.world_bind_ret (f := tick) (g := fun t ↦ t.subControl) (fun _ ↦ rfl) _

/-- **What the interface keeps a cycle keeps**, of the data subscriber. -/
theorem keeps_pass (hI : ISub.Keeps I) (elapsed : ℚ) {o : Outcome (SubTest σ κ)}
    (h : I o.world.sub) : I (pass o elapsed).world.sub := by
  rcases o with s | ⟨what, s⟩
  · by_cases hrun : s.exec.currentState = .EXECUTION
    · rw [sub_pass elapsed hrun]
      exact keeps_read hI elapsed h
    · rw [pass, mainPass_of_ended (w := s) _ hrun]
      exact h
  · exact h

/-- The same of the control subscriber. -/
theorem keepsControl_pass {J : κ → Prop}
    (hJ : ∀ c out, J c → J (ISubControl.pollControl c out).control) (elapsed : ℚ)
    {o : Outcome (SubTest σ κ)} (h : J o.world.subControl) :
    J (pass o elapsed).world.subControl := by
  rcases o with s | ⟨what, s⟩
  · by_cases hrun : s.exec.currentState = .EXECUTION
    · rw [subControl_pass elapsed hrun]
      exact hJ _ _ h
    · rw [pass, mainPass_of_ended (w := s) _ hrun]
      exact h
  · exact h

end SubTest

end Keeps

end IndraDds
