import IndraDds.Stress.Executive
import Mathlib.Data.Rat.Defs

/-!
# The base of the test patterns

`pattern_base` counts the finished tests and asks for the final report when `max_test` of them are
done. What finishing a test and reporting mean is virtual, so `finishTest` is stated for any
pattern and the publisher and the subscriber supply the two calls.

C++ `int` members are integers here. The statistics are exact rationals; the measured times they
hold are whatever the clock says, so every cycle is handed one.
-/

namespace IndraDds

/-! ## Configuration and statistics -/

/-- The members of `test_config` that the two tests read. -/
structure MainTestConfig where
  messageCount : ℤ := 100
  testCount : ℤ := 10
  loanMode : Bool := false
  listenerNumber : ℤ := 0
deriving DecidableEq, Repr

/-- `enum ProcessType{ Normal = 0, Loan = 1}`, declared alike by both tests. -/
inductive ProcessType where
  | Normal
  | Loan
deriving DecidableEq, Repr

theorem ProcessType.normal_or_loan (t : ProcessType) : t = .Normal ∨ t = .Loan := by
  cases t with
  | Normal => exact .inl rfl
  | Loan => exact .inr rfl

/-- The conversion `(ProcessType)loan_mode` of a `bool`. -/
def ProcessType.ofLoan (loan : Bool) : ProcessType := if loan then .Loan else .Normal

/-- The recorded values of a `Distribution`. -/
structure Distribution where
  nameDistribution : String := "DISTRIBUTION"
  values : List ℚ := []
deriving DecidableEq

namespace Distribution

def setDistributionName (d : Distribution) (name : String) : Distribution :=
  { d with nameDistribution := name }

def addValue (d : Distribution) (value : ℚ) : Distribution :=
  { d with values := d.values ++ [value] }

def size (d : Distribution) : ℕ := d.values.length

@[simp] theorem size_addValue (d : Distribution) (value : ℚ) :
    (d.addValue value).size = d.size + 1 := by
  rw [size, addValue, List.length_append, List.length_singleton, size]

end Distribution

/-- `enum class TestResult`. -/
inductive TestResult where
  | INVALID
  | VALID
deriving DecidableEq, Repr

structure TestValidation where
  tests : List TestResult := []
deriving DecidableEq, Repr

namespace TestValidation

def addTestResult (v : TestValidation) (r : TestResult) : TestValidation :=
  { v with tests := v.tests ++ [r] }

/-- `get_percentage`, in exact arithmetic. -/
def getPercentage (v : TestValidation) : ℚ :=
  if v.tests = [] then 0 else v.tests.count .VALID / v.tests.length * 100

end TestValidation

/-! ## The pattern -/

/-- The counters of `pattern_base`. -/
structure PatternBase where
  maxTest : ℤ := 100
  currentTest : ℤ := 0
deriving DecidableEq, Repr

/-- A pattern: its counters, and the two virtual calls `finish_test` makes. `on_end_test` is empty
in every pattern. -/
class Pattern (ω : Type) where
  base : ω → PatternBase
  withBase : ω → PatternBase → ω
  onTestFinished : Bool → ω → ω
  makeFinalReport : ω → ω

/-- `pattern_base::finish_test`. -/
def finishTest {ω : Type} [Pattern ω] (value : Bool) (w : ω) : ω :=
  let w := Pattern.onTestFinished value w
  let b := Pattern.base w
  let w := Pattern.withBase w { b with currentTest := b.currentTest + 1 }
  if (Pattern.base w).currentTest ≥ (Pattern.base w).maxTest then Pattern.makeFinalReport w else w

end IndraDds
