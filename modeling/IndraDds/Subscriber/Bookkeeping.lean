import IndraDds.Foundation.Transition
import IndraDds.Subscriber.Test
import Mathlib.Tactic.FieldSimp
import Mathlib.Tactic.Positivity

/-!
# The books of the subscriber

The subscriber keeps five accumulators: the verdicts, the times, the counter of the base class, the
total loss and the final report. They are written by different functions, some of them before
`finish_test` and some in it, but all in the one kind of cycle that drains the data reader. So the
accumulators together are an `Account`, a cycle leaves it or enters one round into it, and what is
claimed of a run follows from the list of the rounds entered.

Between two cycles anything may happen to the two interface objects, so whatever the polls hand back
and the drains return, in any order, is the behaviour of some run. Nothing is asked of the two
implementations either; a drain may throw, which ends the process.
-/

namespace IndraDds

open Transition

variable {σ κ : Type}

/-! ## Runs of a subscriber test -/

/-- What happens to the interface objects before a cycle, and the time its drain takes. -/
structure SubMove (σ κ : Type) where
  onSub : σ → σ := id
  onControl : κ → κ := id
  elapsed : ℚ := 0

namespace SubTest

def meet (m : SubMove σ κ) (s : SubTest σ κ) : SubTest σ κ :=
  { s with sub := m.onSub s.sub, subControl := m.onControl s.subControl }

/-- One pass of the loop of `main`, and what has happened before it. -/
def step [ISub σ] [ISubControl κ] (o : Outcome (SubTest σ κ)) (m : SubMove σ κ) :
    Outcome (SubTest σ κ) :=
  pass (o.map (meet m)) m.elapsed

end SubTest

/-! ## Accounts -/

/-- The accumulators of the subscriber, and the state of its executive. -/
structure Account where
  maxTest : ℤ
  currentTest : ℤ
  testValidation : TestValidation
  cpuTimes : Distribution
  totalLostSamples : ℤ
  measured : List Measurement
  reports : List SubReport
  state : ExecutiveState

/-- A measured round: its measurement and the time it took. -/
structure Round where
  measurement : Measurement
  elapsed : ℚ

def Measurement.verdict (m : Measurement) : TestResult := if m.result then .VALID else .INVALID

namespace Account

/-- What is reported, of `expected` samples a cycle. -/
def report (a : Account) (expected : ℤ) : SubReport where
  expectedPerCycle := expected
  testsRun := a.currentTest
  validation := a.testValidation
  cpuTimes := a.cpuTimes
  totalLostSamples := a.totalLostSamples

/-- A round is entered. -/
def book (a : Account) (r : Round) : Account :=
  { a with
    currentTest := a.currentTest + 1
    testValidation := a.testValidation.addTestResult r.measurement.verdict
    cpuTimes := a.cpuTimes.addValue r.elapsed
    totalLostSamples := a.totalLostSamples + r.measurement.lostSamples
    measured := a.measured ++ [r.measurement] }

/-- The account is reported and closed. -/
def close (a : Account) (expected : ℤ) : Account :=
  { a with reports := a.reports ++ [a.report expected], state := .END }

/-- What a cycle does to the account. -/
inductive Moves (a : Account) : Account → Prop where
  | stay : Moves a a
  | book (r : Round) (hrun : a.state = .EXECUTION) (hmore : a.currentTest + 1 < a.maxTest) :
      Moves a (a.book r)
  | close (r : Round) (expected : ℤ) (hrun : a.state = .EXECUTION)
      (hlast : a.maxTest ≤ a.currentTest + 1) : Moves a ((a.book r).close expected)

end Account

namespace SubTest

def account (s : SubTest σ κ) : Account where
  maxTest := s.maxTest
  currentTest := s.currentTest
  testValidation := s.testValidation
  cpuTimes := s.cpuTimes
  totalLostSamples := s.totalLostSamples
  measured := s.measured
  reports := s.reports
  state := s.exec.currentState

@[simp] theorem account_meet (m : SubMove σ κ) (s : SubTest σ κ) :
    (s.meet m).account = s.account := rfl

variable [ISub σ]

/-- The end of a measurement is a change of the account. -/
theorem moves_conclude {s : SubTest σ κ} (hrun : s.exec.currentState = .EXECUTION) (elapsed : ℚ)
    (r : DrainResult σ) : s.account.Moves (s.conclude elapsed r).account := by
  rw [conclude_eq]
  by_cases hlast : s.maxTest ≤ s.currentTest + 1
  · rw [if_pos hlast, if_pos hlast]
    exact .close ⟨s.measurement r, elapsed⟩ (ISub.base r.sub).expectedMessagesCycle hrun hlast
  · rw [if_neg hlast, if_neg hlast]
    exact .book ⟨s.measurement r, elapsed⟩ hrun (Int.lt_of_not_ge hlast)

theorem moves_measure {s : SubTest σ κ} (hrun : s.exec.currentState = .EXECUTION) (elapsed : ℚ) :
    s.account.Moves (s.measure elapsed).world.account := by
  rw [measure]
  cases hdrain : ({ s with sub := ISub.resetSamples s.sub } : SubTest σ κ).drain with
  | error what => exact .stay
  | ok r => exact moves_conclude (s := { s with sub := ISub.resetSamples s.sub }) hrun elapsed r

variable [ISubControl κ]

theorem moves_read {s : SubTest σ κ} (hrun : s.exec.currentState = .EXECUTION) (elapsed : ℚ) :
    s.account.Moves (s.read elapsed).world.account := by
  cases happlied : (ISubControl.pollControl s.subControl {}).applied with
  | true =>
    rw [read_applied happlied]
    exact .stay
  | false =>
    cases hactive : s.testActive with
    | false =>
      rw [read_inactive happlied hactive]
      exact .stay
    | true =>
      rw [read_active happlied hactive]
      exact moves_measure (s := { s with
        subControl := (ISubControl.pollControl s.subControl {}).control }) hrun elapsed

/-- **The account in a cycle**, whatever the poll hands back and the drain returns. -/
theorem moves_pass (o : Outcome (SubTest σ κ)) (elapsed : ℚ) :
    o.world.account.Moves (pass o elapsed).world.account := by
  cases o with
  | thrown what s => exact .stay
  | ret s =>
    by_cases hrun : s.exec.currentState = .EXECUTION
    · rw [pass_ret elapsed hrun, Outcome.world_bind_ret (f := tick) (g := account) fun _ ↦ rfl]
      exact moves_read hrun elapsed
    · rw [pass, mainPass_of_ended (w := s) _ hrun]
      exact .stay

theorem moves_step (o : Outcome (SubTest σ κ)) (m : SubMove σ κ) :
    o.world.account.Moves (step o m).world.account := by
  have hmoves := moves_pass (o.map (meet m)) m.elapsed
  rw [Outcome.world_map, account_meet] at hmoves
  exact hmoves

end SubTest

/-! ## What an account holds -/

namespace Account

/-- The accumulators tell of the same rounds. The account is closed, with its one report, when
there are as many rounds as asked for, and at least one. -/
structure Books (N : ℤ) (rounds : List Round) (a : Account) : Prop where
  maxTest : a.maxTest = N
  currentTest : a.currentTest = rounds.length
  tests : a.testValidation.tests = rounds.map fun r ↦ r.measurement.verdict
  cpuTimes : a.cpuTimes.values = rounds.map Round.elapsed
  totalLostSamples : a.totalLostSamples = (rounds.map fun r ↦ r.measurement.lostSamples).sum
  measured : a.measured = rounds.map Round.measurement
  phase : (a.state = .EXECUTION ∧ a.reports = [] ∧ a.currentTest < max 1 N) ∨
    (a.state = .END ∧ (∃ expected, a.reports = [a.report expected]) ∧ a.currentTest = max 1 N)

variable {N : ℤ} {rounds : List Round} {a b : Account}

/-- One more round, with the phase it leads to. -/
theorem Books.book (h : a.Books N rounds) (r : Round) (hb : b = { a.book r with
    reports := b.reports, state := b.state })
    (hphase : (b.state = .EXECUTION ∧ b.reports = [] ∧ b.currentTest < max 1 N) ∨
      (b.state = .END ∧ (∃ expected, b.reports = [b.report expected]) ∧ b.currentTest = max 1 N)) :
    b.Books N (rounds ++ [r]) := by
  refine ⟨?_, ?_, ?_, ?_, ?_, ?_, hphase⟩ <;> rw [hb]
  · exact h.maxTest
  · rw [List.length_append, List.length_singleton, Nat.cast_add, Nat.cast_one, ← h.currentTest]
    rfl
  · rw [List.map_append, ← h.tests]
    rfl
  · rw [List.map_append, ← h.cpuTimes]
    rfl
  · rw [List.map_append, List.sum_append, ← h.totalLostSamples, List.map_singleton,
      List.sum_singleton]
    rfl
  · rw [List.map_append, ← h.measured]
    rfl

theorem Books.moves (h : a.Books N rounds) (hmoves : a.Moves b) : ∃ rounds', b.Books N rounds' := by
  have hmax := h.maxTest
  have hcount := h.currentTest
  cases hmoves with
  | stay => exact ⟨rounds, h⟩
  | book r hrun hmore =>
    -- a closed account is not in execution
    obtain ⟨-, hreports, -⟩ | ⟨hend, -⟩ := h.phase
    · refine ⟨rounds ++ [r], h.book r rfl (.inl ⟨hrun, hreports, ?_⟩)⟩
      change a.currentTest + 1 < max 1 N
      omega
    · rw [hrun] at hend
      exact absurd hend (by simp)
  | close r expected hrun hlast =>
    obtain ⟨-, hreports, hfew⟩ | ⟨hend, -⟩ := h.phase
    · refine ⟨rounds ++ [r], h.book r rfl (.inr ⟨rfl, ⟨expected, ?_⟩, ?_⟩)⟩
      · change a.reports ++ [_] = _
        rw [hreports]
        rfl
      · change a.currentTest + 1 = max 1 N
        omega
    · rw [hrun] at hend
      exact absurd hend (by simp)

end Account

namespace SubTest

variable [ISub σ] [ISubControl κ]

theorem books_start (config : MainTestConfig) (isub : σ) (isubcontrol : κ) :
    (start config isub isubcontrol).world.account.Books config.testCount [] := by
  refine ⟨rfl, rfl, rfl, rfl, rfl, rfl, .inl ⟨rfl, rfl, ?_⟩⟩
  exact lt_of_lt_of_le Int.one_pos (le_max_left _ _)

theorem books_run (config : MainTestConfig) (isub : σ) (isubcontrol : κ)
    (ms : List (SubMove σ κ)) : ∃ rounds,
      (run step (start config isub isubcontrol) ms).world.account.Books config.testCount
        rounds := by
  refine run_invariant
    (I := fun o : Outcome (SubTest σ κ) ↦ ∃ rounds, o.world.account.Books config.testCount rounds)
    ⟨[], books_start config isub isubcontrol⟩ ?_ ms
  rintro o m ⟨rounds, hrounds⟩
  exact hrounds.moves (moves_step o m)

end SubTest

/-! ## The bookkeeping of a run -/

namespace TestValidation

/-- The success ratio is one. -/
theorem getPercentage_eq (v : TestValidation) :
    v.getPercentage = 100 * v.tests.count .VALID / v.tests.length := by
  rw [getPercentage]
  split_ifs with h
  · rw [h]
    simp
  · rw [div_mul_eq_mul_div, mul_comm]

theorem getPercentage_nonneg (v : TestValidation) : 0 ≤ v.getPercentage := by
  rw [getPercentage_eq]
  positivity

theorem getPercentage_le (v : TestValidation) : v.getPercentage ≤ 100 := by
  rw [getPercentage_eq]
  have hcount : (v.tests.count .VALID : ℚ) ≤ v.tests.length := Nat.cast_le.mpr List.count_le_length
  apply div_le_of_le_mul₀
  · positivity
  · positivity
  · exact mul_le_mul_of_nonneg_left hcount (by positivity)

end TestValidation

namespace SubTest

/-- What the accumulators say of each other, in a run of `N` tests. -/
structure Bookkept (N : ℤ) (s : SubTest σ κ) : Prop where
  tests : (s.testValidation.tests.length : ℤ) = s.currentTest
  cpuTimes : (s.cpuTimes.size : ℤ) = s.currentTest
  verdicts : s.testValidation.tests = s.measured.map Measurement.verdict
  totalLostSamples : s.totalLostSamples = (s.measured.map Measurement.lostSamples).sum
  percentage : s.testValidation.getPercentage
    = 100 * s.testValidation.tests.count .VALID / s.currentTest
  percentage_mem : 0 ≤ s.testValidation.getPercentage ∧ s.testValidation.getPercentage ≤ 100
  unreported : s.currentTest < max 1 N → s.reports = []
  reported : max 1 N ≤ s.currentTest →
    s.currentTest = max 1 N ∧ ∃ expected, s.reports = [s.report expected]

theorem bookkept_of_books {s : SubTest σ κ} {N : ℤ} {rounds : List Round}
    (h : s.account.Books N rounds) : s.Bookkept N := by
  have htests : (s.testValidation.tests.length : ℤ) = s.currentTest := by
    rw [show s.testValidation.tests = _ from h.tests, List.length_map]
    exact h.currentTest.symm
  have hmeasured : s.measured = rounds.map Round.measurement := h.measured
  refine ⟨htests, ?_, ?_, ?_, ?_, ⟨?_, ?_⟩, ?_, ?_⟩
  · rw [Distribution.size, show s.cpuTimes.values = _ from h.cpuTimes, List.length_map]
    exact h.currentTest.symm
  · rw [hmeasured, List.map_map]
    exact h.tests
  · rw [hmeasured, List.map_map]
    exact h.totalLostSamples
  · rw [TestValidation.getPercentage_eq, ← htests, Int.cast_natCast]
  · exact s.testValidation.getPercentage_nonneg
  · exact s.testValidation.getPercentage_le
  · intro hfew
    obtain ⟨-, hreports, -⟩ | ⟨-, -, hfull⟩ := h.phase
    · exact hreports
    · exact absurd hfull (ne_of_lt hfew)
  · intro hfull
    obtain ⟨-, -, hfew⟩ | ⟨-, hreports, hcount⟩ := h.phase
    · exact absurd hfull (not_le_of_gt hfew)
    · exact ⟨hcount, hreports⟩

variable [ISub σ] [ISubControl κ]

/-- **The bookkeeping** of every run, with the report made once, at the last round; from then on the
loop of `main` starts no further cycle. -/
theorem bookkept_run (config : MainTestConfig) (isub : σ) (isubcontrol : κ)
    (ms : List (SubMove σ κ)) :
    (run step (start config isub isubcontrol) ms).world.Bookkept config.testCount ∧
      ((run step (start config isub isubcontrol) ms).world.reports ≠ [] →
        ∀ m, step (run step (start config isub isubcontrol) ms) m
          = (run step (start config isub isubcontrol) ms).map (meet m)) := by
  obtain ⟨rounds, hbooks⟩ := books_run config isub isubcontrol ms
  refine ⟨bookkept_of_books hbooks, fun hreported m ↦ ?_⟩
  cases hrun : run step (start config isub isubcontrol) ms with
  | thrown what s => rfl
  | ret s =>
    rw [hrun] at hbooks hreported
    obtain ⟨-, hreports, -⟩ | ⟨hend, -⟩ := hbooks.phase
    · exact absurd hreports hreported
    · have hend : s.exec.currentState = .END := hend
      exact mainPass_of_ended (w := s.meet m) _ (hend.trans_ne ExecutiveState.noConfusion)

end SubTest

end IndraDds
