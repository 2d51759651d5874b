import IndraDds.Foundation.Mailbox
import IndraDds.Subscriber.Cycle

/-!
# The subscriber looks at the newest message

The control side of the subscriber is the consumer of `Mailbox`: its messages are those that have
reached the control reader, the keys are the rounds they announce, a cycle is a look, and to handle
a key is to measure the round. `Refines` is the relation; a cycle and an arriving message keep it.
-/

namespace IndraDds

open Mailbox

/-- The parameters of a round are those of its announcement. -/
structure TestControl.Sets (msg : TestControl) (testId expected : ℤ) (mode : ProcessType) :
    Prop where
  start : msg.start = true
  testId : msg.testId = testId
  expected : expected = msg.expectedEntities
  mode : mode = ProcessType.ofLoan msg.loan

namespace SubTest

/-- The subscriber and the consumer that it implements. -/
structure Refines (s : FastSubTest) (b : Box TestControl ℤ) : Prop where
  ordered : b.Ordered TestControl.announced
  reader : s.subControl.reader.samples.map Sample.data = b.messages.drop b.seen
  valid : ∀ x ∈ s.subControl.reader.samples, x.info.validData = true
  history : s.subControl.reader.history = .keepAll
  armed : b.armed = if s.testActive then some s.currentTestId else none
  adopted : s.testActive = true → ∃ msg ∈ b.messages,
    msg.Sets s.currentTestId s.sub.expectedMessagesCycle s.processType
  handled : s.measured.map Measurement.testId = b.handled
  parameters : ∀ m ∈ s.measured, ∃ msg ∈ b.messages, msg.Sets m.testId m.expected m.processType
  currentTest : s.currentTest = s.measured.length
  bounded : (s.measured.length : ℤ) ≤ max 1 s.maxTest
  running : s.exec.currentState =
    if s.measured ≠ [] ∧ s.maxTest ≤ s.measured.length then .END else .EXECUTION

variable {s t : FastSubTest} {b : Box TestControl ℤ}

theorem Refines.tick (h : s.Refines b) : s.tick.Refines b :=
  ⟨h.ordered, h.reader, h.valid, h.history, h.armed, h.adopted, h.handled, h.parameters,
    h.currentTest, h.bounded, h.running⟩

/-- What is known of messages stays known when one more arrives. -/
theorem exists_sets_concat {msgs : List TestControl} {msg : TestControl} {k expected : ℤ}
    {mode : ProcessType} (h : ∃ m ∈ msgs, m.Sets k expected mode) :
    ∃ m ∈ msgs ++ [msg], m.Sets k expected mode := by
  obtain ⟨m, hm, hsets⟩ := h
  exact ⟨m, List.mem_append_left _ hm, hsets⟩

theorem Refines.receiveControl (h : s.Refines b) (msg : TestControl) (i : ℕ) :
    (s.receiveControl { data := msg, info := { sequenceNumber := i } }).Refines
      (b.step TestControl.announced (.deliver msg)) := by
  have hsamples : (s.receiveControl
      { data := msg, info := { sequenceNumber := i } }).subControl.reader.samples
        = s.subControl.reader.samples ++ [{ data := msg, info := { sequenceNumber := i } }] := by
    rw [SubTest.receiveControl, DataReader.receive, h.history]
    rfl
  refine ⟨h.ordered.step _, ?_, ?_, h.history, h.armed, fun hactive ↦ ?_, h.handled,
    fun m hm ↦ ?_, h.currentTest, h.bounded, h.running⟩
  · change _ = (b.messages ++ [msg]).drop b.seen
    rw [hsamples, List.map_append, h.reader, List.drop_append_of_le_length h.ordered.seen_le]
    rfl
  · intro x hx
    rw [hsamples, List.mem_append, List.mem_singleton] at hx
    rcases hx with hx | rfl
    · exact h.valid x hx
    · rfl
  · exact exists_sets_concat (h.adopted hactive)
  · exact exists_sets_concat (h.parameters m hm)

theorem Refines.receiveData (h : s.Refines b) (x : Sample AirEntity) :
    (s.receiveData x).Refines b :=
  ⟨h.ordered, h.reader, h.valid, h.history, h.armed, h.adopted, h.handled, h.parameters,
    h.currentTest, h.bounded, h.running⟩

/-- Nothing is left to poll when everything that has arrived has been taken. -/
theorem Refines.le_seen (h : s.Refines b) (hnil : s.subControl.reader.samples = []) :
    b.messages.length ≤ b.seen := by
  have hdrop := h.reader
  rw [hnil, List.map_nil] at hdrop
  exact List.drop_eq_nil_iff.mp hdrop.symm

theorem Refines.adopt (h : s.Refines b) {x : Sample TestControl}
    (hlast : s.subControl.reader.samples.getLast? = some x) :
    (s.adopted x.data).Refines (b.look TestControl.announced) := by
  have hlt : b.seen < b.messages.length := by
    by_contra hge
    have hdrop := h.reader
    rw [List.drop_eq_nil_iff.mpr (Nat.not_lt.mp hge), List.map_eq_nil_iff] at hdrop
    rw [hdrop] at hlast
    exact absurd hlast (by simp)
  have hnewest : b.messages.getLast? = some x.data := by
    have hdrop := congrArg List.getLast? h.reader
    rw [List.getLast?_map, hlast, List.getLast?_drop, if_neg (Nat.not_le.mpr hlt)] at hdrop
    exact hdrop.symm
  have hordered := h.ordered.step .look
  rw [Box.step_look] at hordered
  rw [Box.look_new _ hlt] at hordered ⊢
  refine ⟨hordered, ?_, fun y hy ↦ absurd hy List.not_mem_nil, h.history, ?_, fun hactive ↦ ?_,
    h.handled, h.parameters, h.currentTest, h.bounded, h.running⟩
  · exact (List.drop_length).symm
  · change b.newest _ = _
    rw [Box.newest, hnewest]
    rfl
  · exact ⟨x.data, List.mem_of_getLast? hnewest, hactive, rfl, rfl, rfl⟩

theorem Refines.idle (h : s.Refines b) (hnil : s.subControl.reader.samples = [])
    (hactive : s.testActive = false) : s.Refines (b.look TestControl.announced) := by
  have hordered := h.ordered.step .look
  have harmed : b.armed = none := by
    rw [h.armed, hactive]
    rfl
  rw [Box.step_look] at hordered
  rw [Box.look_again _ (h.le_seen hnil), harmed] at hordered ⊢
  refine ⟨hordered, h.reader, h.valid, h.history, ?_, h.adopted, ?_, h.parameters, h.currentTest,
    h.bounded, h.running⟩
  · rw [hactive]
    rfl
  · rw [h.handled]
    exact (List.append_nil _).symm

theorem Refines.measure (h : s.Refines b) (hrun : s.exec.currentState = .EXECUTION)
    (hnil : s.subControl.reader.samples = []) (hactive : s.testActive = true) {n : ℕ}
    (hn : s.sub.expectedMessagesCycle = n) (ht : s.Measures t n) :
    t.Refines (b.look TestControl.announced) := by
  have hordered := h.ordered.step .look
  have harmed : b.armed = some s.currentTestId := by
    rw [h.armed, hactive]
    rfl
  have hlen : (t.measured.length : ℤ) = s.measured.length + 1 := by
    rw [ht.measured, List.length_append]
    rfl
  have hne : t.measured ≠ [] := by
    rw [ht.measured]
    exact List.append_ne_nil_of_right_ne_nil _ (List.cons_ne_nil _ _)
  -- while the executive runs, the rounds measured are fewer than the test wants
  have hfew : s.measured = [] ∨ (s.measured.length : ℤ) < s.maxTest := by
    have hrunning := h.running
    rw [hrun] at hrunning
    by_contra hall
    rw [not_or, not_lt] at hall
    rw [if_pos hall] at hrunning
    exact absurd hrunning (by simp)
  rw [Box.step_look] at hordered
  rw [Box.look_again _ (h.le_seen hnil), harmed] at hordered ⊢
  refine ⟨hordered, ?_, ?_, ?_, ?_, ?_, ?_, ?_, ?_, ?_, ?_⟩
  · rw [ht.subControl]
    exact h.reader
  · rw [ht.subControl]
    exact h.valid
  · rw [ht.subControl]
    exact h.history
  · rw [ht.testActive]
    rfl
  · rw [ht.testActive]
    simp
  · rw [ht.measured, List.map_append, h.handled]
    rfl
  · intro m hm
    rw [ht.measured, List.mem_append, List.mem_singleton] at hm
    rcases hm with hm | rfl
    · exact h.parameters m hm
    · rw [← hn]
      exact h.adopted hactive
  · rw [ht.currentTest, h.currentTest, hlen]
  · rw [ht.maxTest, hlen]
    rcases hfew with hnone | hlt
    · rw [hnone]
      exact le_max_left _ _
    · exact (Int.add_one_le_of_lt hlt).trans (le_max_right _ _)
  · rw [ht.exec, ht.maxTest, hlen, h.currentTest]
    simp only [ne_eq, hne, not_false_eq_true, true_and]
    split_ifs
    · rfl
    · exact hrun

theorem Refines.pass (h : s.Refines b) (hrun : s.exec.currentState = .EXECUTION)
    (hnonneg : ∀ msg ∈ b.messages, msg.start = true → 0 ≤ msg.expectedEntities) (elapsed : ℚ) :
    ∃ t, pass (.ret s) elapsed = .ret t ∧ s.Cycles t ∧
      t.Refines (b.look TestControl.announced) := by
  have hexpected : s.testActive = true → 0 ≤ s.sub.expectedMessagesCycle := by
    intro hactive
    obtain ⟨msg, hmsg, hsets⟩ := h.adopted hactive
    rw [hsets.expected]
    exact hnonneg msg hmsg hsets.start
  obtain ⟨t, ht, hcycles⟩ := pass_cycles elapsed hrun h.valid hexpected
  refine ⟨t, ht, hcycles, ?_⟩
  cases hcycles with
  | adopt x hlast => exact (h.adopt hlast).tick
  | idle hnil hactive => exact (h.idle hnil hactive).tick
  | measure t n hnil hactive hn hmeasures =>
    exact (h.measure hrun hnil hactive hn hmeasures).tick

/-- When there is nothing to poll and a round is active, the newest message that has arrived
announces it. -/
theorem Refines.newest_of_active (h : s.Refines b) (hnil : s.subControl.reader.samples = [])
    (hactive : s.testActive = true) : b.newest TestControl.announced = some s.currentTestId := by
  refine h.ordered.armed (Nat.le_antisymm h.ordered.seen_le (h.le_seen hnil)) _ ?_
  rw [h.armed, hactive]
  rfl

end SubTest

end IndraDds
