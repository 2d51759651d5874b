import IndraDds.Subscriber.Bookkeeping
import IndraDds.Vendor.OpenSub
import IndraDds.Vendor.OpenSubControl

/-!
# Any subscriber in place of `FastSub`

What a subscriber behind `ISub` returns decides the verdicts and the losses, and nothing else: which
rounds are measured, in which order, with which parameters and when the test ends is settled by what
the polls hand back. The part of the test that this is about is its itinerary.

An itinerary is a machine of its own, driven by the polls and the clock; it has no data subscriber.
Every test follows it as long as no drain throws, and two tests whose control subscribers poll alike
follow the same one. That is how a result about the rounds of one vendor becomes one about another.
-/

namespace IndraDds

open Transition

variable {σ κ σ' κ' : Type}

/-! ## The itinerary -/

/-- A measured round, less what came of it. -/
structure Visit where
  testId : ℤ
  expected : ℤ
  processType : ProcessType
deriving DecidableEq, Repr

def Measurement.visit (m : Measurement) : Visit where
  testId := m.testId
  expected := m.expected
  processType := m.processType

/-- What the test keeps that no sample changes. -/
structure Itinerary extends PatternBase where
  exec : Executive
  expected : ℤ
  testActive : Bool
  currentTestId : ℤ
  processType : ProcessType
  cpuTimes : Distribution
  visits : List Visit
  reports : ℕ

namespace Itinerary

/-- The itinerary after `_exec->init()`. -/
def initial (config : MainTestConfig) : Itinerary where
  maxTest := config.testCount
  exec := { currentState := .EXECUTION }
  expected := config.messageCount
  testActive := false
  currentTestId := 0
  processType := ProcessType.ofLoan config.loanMode
  cpuTimes := {}
  visits := []
  reports := 0

/-- A poll has handed back a configuration. -/
def adopt (i : Itinerary) (c : TestConfig) : Itinerary :=
  { i with
    currentTestId := c.testId
    expected := c.expectedEntities
    testActive := c.active
    processType := if c.loan then .Loan else .Normal }

/-- The armed round is measured. -/
def measure (elapsed : ℚ) (i : Itinerary) : Itinerary :=
  { i with
    currentTest := i.currentTest + 1
    testActive := false
    cpuTimes := i.cpuTimes.addValue elapsed
    visits := i.visits ++ [⟨i.currentTestId, i.expected, i.processType⟩]
    exec := if i.maxTest ≤ i.currentTest + 1 then i.exec.requestSimulationEnd else i.exec
    reports := if i.maxTest ≤ i.currentTest + 1 then i.reports + 1 else i.reports }

/-- `read`, given what the poll hands back, if anything. -/
def read (poll : Option TestConfig) (elapsed : ℚ) (i : Itinerary) : Itinerary :=
  match poll with
  | some c => i.adopt c
  | none => if i.testActive then i.measure elapsed else i

/-- The cycle has been counted. -/
def tick (i : Itinerary) : Itinerary :=
  { i with exec := { i.exec with currentCycle := i.exec.currentCycle + 1 } }

/-- One pass of the loop of `main`. -/
def pass (poll : Option TestConfig) (elapsed : ℚ) (i : Itinerary) : Itinerary :=
  if i.exec.currentState = .EXECUTION then (i.read poll elapsed).tick else i

end Itinerary

/-- The count stored through the interface. -/
def ISub.count [ISub σ] (s : σ) : ℤ := (ISub.base s).expectedMessagesCycle

/-- An implementation changes the count where it is told to, and nowhere else. -/
structure ISub.KeepsCount (σ : Type) [ISub σ] : Prop where
  withBase : ∀ (s : σ) b, ISub.count (ISub.withBase s b) = b.expectedMessagesCycle
  resetSamples : ∀ s : σ, ISub.count (ISub.resetSamples s) = ISub.count s
  runWithoutLoan : ∀ (s : σ) lost, ISub.count (ISub.runWithoutLoan s lost).sub = ISub.count s
  runWithLoan : ∀ (s : σ) lost r, ISub.runWithLoan s lost = .ok r → ISub.count r.sub = ISub.count s

/-- What a poll hands back. -/
def ISubControl.polled [ISubControl κ] (c : κ) : Option TestConfig :=
  if (ISubControl.pollControl c {}).applied then some (ISubControl.pollControl c {}).out else none

namespace SubTest

variable [ISub σ] [ISub σ']

def itinerary (s : SubTest σ κ) : Itinerary where
  toPatternBase := s.toPatternBase
  exec := s.exec
  expected := ISub.count s.sub
  testActive := s.testActive
  currentTestId := s.currentTestId
  processType := s.processType
  cpuTimes := s.cpuTimes
  visits := s.measured.map Measurement.visit
  reports := s.reports.length

/-! ## A test follows its itinerary -/

variable {s t : SubTest σ κ} {elapsed : ℚ}

theorem itinerary_adopt (hσ : ISub.KeepsCount σ) (c : TestConfig) :
    (s.adopt c).itinerary = s.itinerary.adopt c := by
  have hcount : ISub.count (ISub.setExpected s.sub c.expectedEntities) = c.expectedEntities :=
    hσ.withBase _ _
  rw [itinerary, adopt]
  simp only [hcount]
  rfl

theorem count_drain (hσ : ISub.KeepsCount σ) {r : DrainResult σ} (h : s.drain = .ok r) :
    ISub.count r.sub = ISub.count s.sub := by
  rw [drain] at h
  split at h
  · rw [← Except.ok.inj h]
    exact hσ.runWithoutLoan _ _
  · exact hσ.runWithLoan _ _ _ h

theorem itinerary_conclude (hσ : ISub.KeepsCount σ) {r : DrainResult σ}
    (h : ISub.count r.sub = ISub.count s.sub) :
    (s.conclude elapsed r).itinerary = s.itinerary.measure elapsed := by
  have hcount : ISub.count (ISub.resetSamples r.sub) = ISub.count s.sub :=
    (hσ.resetSamples _).trans h
  have hlast : s.itinerary.maxTest ≤ s.itinerary.currentTest + 1 ↔ s.maxTest ≤ s.currentTest + 1 :=
    Iff.rfl
  rw [conclude_eq, itinerary, Itinerary.measure]
  simp only [booked, hcount, List.map_append, hlast]
  by_cases h' : s.maxTest ≤ s.currentTest + 1
  · simp only [h', if_true, List.length_append]
    rfl
  · simp only [h', if_false]
    rfl

theorem itinerary_measure (hσ : ISub.KeepsCount σ) (h : s.measure elapsed = .ret t) :
    t.itinerary = s.itinerary.measure elapsed := by
  have hreset : ({ s with sub := ISub.resetSamples s.sub } : SubTest σ κ).itinerary
      = s.itinerary := by
    rw [itinerary, itinerary]
    simp only [hσ.resetSamples]
  rw [measure] at h
  rcases hdrain : drain { s with sub := ISub.resetSamples s.sub } with what | r
  · rw [hdrain] at h
    exact absurd h (by simp)
  · rw [hdrain] at h
    rw [← Outcome.ret.inj h, itinerary_conclude hσ (count_drain hσ hdrain), hreset]

variable [ISubControl κ] [ISubControl κ']

theorem itinerary_read (hσ : ISub.KeepsCount σ) (h : s.read elapsed = .ret t) :
    t.itinerary = s.itinerary.read (ISubControl.polled s.subControl) elapsed := by
  rcases happlied : (ISubControl.pollControl s.subControl {}).applied with _ | _
  · have hpoll : ISubControl.polled s.subControl = none := by
      rw [ISubControl.polled, happlied]
      rfl
    rw [hpoll, Itinerary.read]
    rcases hactive : s.testActive with _ | _
    · rw [read_inactive happlied hactive] at h
      rw [← Outcome.ret.inj h, if_neg (by rw [itinerary, hactive]; exact Bool.false_ne_true)]
      rfl
    · rw [read_active happlied hactive] at h
      rw [itinerary_measure hσ h, if_pos (by rw [itinerary, hactive])]
      rfl
  · have hpoll : ISubControl.polled s.subControl
        = some (ISubControl.pollControl s.subControl {}).out := by
      rw [ISubControl.polled, happlied]
      rfl
    rw [read_applied happlied] at h
    rw [← Outcome.ret.inj h, itinerary_adopt hσ, hpoll]
    rfl

/-- **A cycle** of a test is a cycle of its itinerary, unless its drain throws. -/
theorem itinerary_pass (hσ : ISub.KeepsCount σ) (h : pass (.ret s) elapsed = .ret t) :
    t.itinerary = s.itinerary.pass (ISubControl.polled s.subControl) elapsed := by
  by_cases hrun : s.itinerary.exec.currentState = .EXECUTION
  · rw [pass_ret elapsed hrun] at h
    rw [Itinerary.pass, if_pos hrun]
    rcases hread : s.read elapsed with u | ⟨what, u⟩
    · rw [hread] at h
      rw [← Outcome.ret.inj h, ← itinerary_read hσ hread]
      rfl
    · rw [hread] at h
      exact absurd h (by simp)
  · rw [SubTest.pass, mainPass_of_ended (w := s) _ hrun] at h
    rw [← Outcome.ret.inj h, Itinerary.pass, if_neg hrun]

/-- A cycle that a drain ends was to measure a round, and has not. -/
theorem pass_thrown {what : String} (h : pass (.ret s) elapsed = .thrown what t) :
    s.exec.currentState = .EXECUTION ∧ s.testActive = true ∧
      ISubControl.polled s.subControl = none ∧ t.measured = s.measured ∧
      t.processType = s.processType := by
  by_cases hrun : s.exec.currentState = .EXECUTION
  · rw [pass_ret elapsed hrun] at h
    rcases happlied : (ISubControl.pollControl s.subControl {}).applied with _ | _
    · rcases hactive : s.testActive with _ | _
      · rw [read_inactive happlied hactive] at h
        exact absurd h (by simp)
      · rw [read_active happlied hactive, measure] at h
        refine ⟨hrun, rfl, if_neg (by rw [happlied]; exact Bool.false_ne_true), ?_⟩
        split at h
        · obtain ⟨-, rfl⟩ := Outcome.thrown.inj h
          exact ⟨rfl, rfl⟩
        · exact absurd h (by simp)
    · rw [read_applied happlied] at h
      exact absurd h (by simp)
  · rw [SubTest.pass, mainPass_of_ended (w := s) _ hrun] at h
    exact absurd h (by simp)

end SubTest

namespace Itinerary

theorem visits_pass (poll : Option TestConfig) (elapsed : ℚ) (i : Itinerary) :
    i.visits <+: (i.pass poll elapsed).visits := by
  rw [pass]
  split_ifs
  · rcases poll with _ | c
    · rw [read]
      split_ifs
      · exact List.prefix_append _ _
      · exact List.prefix_rfl
    · exact List.prefix_rfl
  · exact List.prefix_rfl

/-- An armed round is measured in a cycle in which nothing is polled. -/
theorem visits_pass_measure {i : Itinerary} (hrun : i.exec.currentState = .EXECUTION)
    (hactive : i.testActive = true) (elapsed : ℚ) :
    (i.pass none elapsed).visits = i.visits ++ [⟨i.currentTestId, i.expected, i.processType⟩] := by
  rw [pass, if_pos hrun, read, if_pos hactive]
  rfl

end Itinerary

/-! ## Two tests side by side -/

/-- Control subscribers related by `R` poll alike, and stay related. -/
structure ISubControl.PollsAlike [ISubControl κ] [ISubControl κ'] (R : κ → κ' → Prop) : Prop where
  polled : ∀ c c', R c c' → ISubControl.polled c' = ISubControl.polled c
  control : ∀ c c', R c c' →
    R (ISubControl.pollControl c {}).control (ISubControl.pollControl c' {}).control

variable [ISub σ] [ISub σ']

/-- Moves of the same length, in which the control topic brings both tests the same and the data
topic leaves the two counts alone. -/
structure SubMove.Alike (R : κ → κ' → Prop) (m : SubMove σ κ) (m' : SubMove σ' κ') : Prop where
  onSub : ∀ s, ISub.count (m.onSub s) = ISub.count s
  onSub' : ∀ s, ISub.count (m'.onSub s) = ISub.count s
  onControl : ∀ c c', R c c' → R (m.onControl c) (m'.onControl c')
  elapsed : m'.elapsed = m.elapsed

namespace SubTest

/-- Two tests on the same itinerary, whose control subscribers poll alike. -/
structure SameCourse (R : κ → κ' → Prop) (s : SubTest σ κ) (s' : SubTest σ' κ') : Prop where
  itinerary : s'.itinerary = s.itinerary
  control : R s.subControl s'.subControl

variable {R : κ → κ' → Prop} {s t : SubTest σ κ} {s' t' : SubTest σ' κ'} {elapsed : ℚ}

theorem itinerary_meet {m : SubMove σ κ} (h : ∀ x, ISub.count (m.onSub x) = ISub.count x) :
    (s.meet m).itinerary = s.itinerary := by
  rw [itinerary, itinerary, meet]
  simp only [h]

theorem SameCourse.meet (h : s.SameCourse R s') {m : SubMove σ κ} {m' : SubMove σ' κ'}
    (hm : m.Alike R m') : (s.meet m).SameCourse R (s'.meet m') := by
  refine ⟨?_, hm.onControl _ _ h.control⟩
  rw [itinerary_meet hm.onSub, itinerary_meet hm.onSub', h.itinerary]

variable [ISubControl κ] [ISubControl κ']

theorem SameCourse.pass (h : s.SameCourse R s') (hR : ISubControl.PollsAlike R)
    (hσ : ISub.KeepsCount σ) (hσ' : ISub.KeepsCount σ') (ht : pass (.ret s) elapsed = .ret t)
    (ht' : SubTest.pass (.ret s') elapsed = .ret t') : t.SameCourse R t' := by
  have hitinerary : t'.itinerary = t.itinerary := by
    rw [itinerary_pass hσ ht, itinerary_pass hσ' ht', h.itinerary, hR.polled _ _ h.control]
  refine ⟨hitinerary, ?_⟩
  have hexec : s'.exec = s.exec := congrArg Itinerary.exec h.itinerary
  by_cases hrun : s.exec.currentState = .EXECUTION
  · have hcontrol := subControl_pass (s := s) elapsed hrun
    have hcontrol' := subControl_pass (s := s') elapsed (hexec ▸ hrun)
    rw [ht, Outcome.world_ret] at hcontrol
    rw [ht', Outcome.world_ret] at hcontrol'
    rw [hcontrol, hcontrol']
    exact hR.control _ _ h.control
  · rw [SubTest.pass, mainPass_of_ended (w := s) _ hrun] at ht
    have hrun' : s'.exec.currentState ≠ .EXECUTION := hexec ▸ hrun
    rw [SubTest.pass, mainPass_of_ended (w := s') _ hrun'] at ht'
    rw [← Outcome.ret.inj ht, ← Outcome.ret.inj ht']
    exact h.control

theorem step_ret {o : Outcome (SubTest σ κ)} {m : SubMove σ κ} (h : step o m = .ret t) :
    ∃ s, o = .ret s ∧ SubTest.pass (.ret (s.meet m)) m.elapsed = .ret t := by
  rcases o with s | ⟨what, s⟩
  · exact ⟨s, rfl, h⟩
  · exact absurd h (by simp [step, SubTest.pass, mainPass, Outcome.map])

theorem itinerary_start (hσ : ISub.KeepsCount σ) (config : MainTestConfig) (sub : σ)
    (control : κ) : (start config sub control).world.itinerary = Itinerary.initial config := by
  have hcount : ISub.count (ISub.setExpected sub config.messageCount) = config.messageCount :=
    hσ.withBase _ _
  have hstart : (start config sub control).world.itinerary = { Itinerary.initial config with
      expected := ISub.count (ISub.setExpected sub config.messageCount) } := rfl
  rw [hstart, hcount]
  rfl

end SubTest

/-! ## The implementations -/

theorem FastSub.keepsCount : ISub.KeepsCount FastSub where
  withBase _ _ := rfl
  resetSamples _ := rfl
  runWithoutLoan _ _ := rfl
  runWithLoan _ _ _ h := by rw [← Except.ok.inj h]; rfl

theorem OpenSub.keepsCount : ISub.KeepsCount OpenSub where
  withBase _ _ := rfl
  resetSamples _ := rfl
  runWithoutLoan o lost := by
    change ISub.count (o.runWithoutLoan lost).sub = ISub.count o
    rw [OpenSub.runWithoutLoan]
    split <;> rfl
  runWithLoan _ _ _ h := absurd h (by simp [ISub.runWithLoan])

/-- `dr` has been narrowed by `init`, so what a second `_narrow` would answer is never asked. -/
instance : ISubControl OpenSubControl where
  pollControl := OpenSubControl.pollControl false

/-- What `OpenSubControl::init` leaves: a reader, and `dr` narrowed from it. -/
def OpenSubControl.init : OpenSubControl where
  reader := some {}
  narrowed := true
  reader_of_narrowed _ := rfl

/-- A message arrives on the control topic. -/
def OpenSubControl.receive (x : Sample TestControl) (o : OpenSubControl) : OpenSubControl where
  reader := o.reader.map fun r ↦ r.receive TestControl.testId x
  narrowed := o.narrowed
  last := o.last
  reader_of_narrowed h := by
    rw [Option.isSome_map]
    exact o.reader_of_narrowed h

/-- The same for `FastSubControl`. -/
def FastSubControl.receive (x : Sample TestControl) (c : FastSubControl) : FastSubControl :=
  { c with reader := c.reader.receive TestControl.testId x }

/-- `FastSubControl` and an initialised `OpenSubControl` with the same messages to poll. -/
structure OpenSubControl.Matches (o : OpenSubControl) (c : FastSubControl) : Prop where
  narrowed : o.narrowed = true
  reader : o.reader = some c.reader
  last : o.last = c.last

theorem OpenSubControl.pollControl_matches {c : FastSubControl} {o : OpenSubControl}
    (h : o.Matches c) (out : TestConfig) :
    (o.pollControl false out).applied = (c.pollControl out).applied ∧
      (o.pollControl false out).out = (c.pollControl out).out ∧
      (o.pollControl false out).control.Matches (c.pollControl out).control := by
  obtain ⟨hnarrowed, hreader, hlast⟩ := h
  have htyped : o.typedReader false = some c.reader := by
    rw [typedReader, hnarrowed, hreader]
    rfl
  rw [pollControl, htyped, hlast]
  exact ⟨rfl, rfl, rfl, rfl, rfl⟩

theorem OpenSubControl.pollsAlike :
    ISubControl.PollsAlike fun (c : FastSubControl) (o : OpenSubControl) ↦ o.Matches c where
  polled c o h := by
    obtain ⟨happlied, hout, -⟩ := pollControl_matches h {}
    change (if (o.pollControl false {}).applied then some (o.pollControl false {}).out else none)
      = if (c.pollControl {}).applied then some (c.pollControl {}).out else none
    rw [happlied, hout]
  control c o h := (pollControl_matches h {}).2.2

theorem OpenSubControl.init_matches : OpenSubControl.init.Matches { reader := {} } :=
  ⟨rfl, rfl, rfl⟩

theorem OpenSubControl.Matches.receive {c : FastSubControl} {o : OpenSubControl}
    (h : o.Matches c) (x : Sample TestControl) :
    (o.receive x).Matches (c.receive x) := by
  obtain ⟨hnarrowed, hreader, hlast⟩ := h
  refine ⟨hnarrowed, ?_, hlast⟩
  change o.reader.map (fun r ↦ r.receive TestControl.testId x) = _
  rw [hreader]
  rfl

namespace SubTest

end SubTest

end IndraDds
