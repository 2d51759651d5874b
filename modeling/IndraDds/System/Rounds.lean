import IndraDds.Subscriber.Refinement
import IndraDds.System.Composition
import Mathlib.Data.List.Sort

/-!
# Which rounds are measured

The composition, seen through the control topic, is a run of the mailbox consumer: whatever the
publisher, the middleware and the schedule do, the messages delivered are a prefix of the control
messages sent, and the subscriber's cycles are its looks. Two results follow for every schedule.

What is measured is measured in the order of the announcements, once, and with the parameters of
the announcement. And a round is measured exactly when the subscriber makes two cycles while its
start is the newest message delivered: one whose start is overtaken before that is never measured.
-/

namespace IndraDds

open Transition Mailbox
open scoped List

namespace Sys

/-! ## The control topic -/

/-- The control messages that have reached the subscriber. -/
def delivered (s : Sys) : List TestControl := s.control.take s.controlDelivered

/-- The round that the newest of them announces, if it is a start. -/
def newestRound (s : Sys) : Option ℤ := s.delivered.getLast?.bind TestControl.announced

/-- The looks and arrivals that a step is. -/
def boxOps (s : Sys) : Label → List (Op TestControl)
  | .subCycle _ => if s.sub.world.exec.inExecution then [.look] else []
  | .deliverControl => s.control[s.controlDelivered]?.toList.map .deliver
  | _ => []

/-- The composition and the consumer on its control topic. -/
structure Tracks (c : Setup) (s : Sys) (b : Box TestControl ℤ) : Prop where
  pub : ∃ ios, s.pub = run PubTest.pass (PubTest.start c.pubConfig c.reset) ios
  sub : s.sub = .ret s.sub.world
  maxTest : s.sub.world.maxTest = c.subConfig.testCount
  delivered_le : s.controlDelivered ≤ s.control.length
  messages : b.messages = s.delivered
  refines : s.sub.world.Refines b

variable {c : Setup} {s : Sys} {b : Box TestControl ℤ}

theorem Tracks.announces (h : s.Tracks c b) : s.pub.world.ledger.Announces c.pubConfig := by
  obtain ⟨ios, hpub⟩ := h.pub
  rw [hpub]
  exact PubTest.announces_run c.pubConfig c.reset ios

theorem Tracks.nonneg (h : s.Tracks c b) :
    ∀ msg ∈ b.messages, msg.start = true → 0 ≤ msg.expectedEntities := by
  intro msg hmsg hstart
  rw [h.messages] at hmsg
  have hsent : msg ∈ s.control := List.mem_of_mem_take hmsg
  rw [(h.announces.settings msg hsent hstart).1]
  obtain ⟨ios, hpub⟩ := h.pub
  have hlog : (run PubTest.pass (PubTest.start c.pubConfig c.reset) ios).world.log ≠ [] := by
    rw [← hpub]
    intro hnil
    rw [control, hnil] at hsent
    exact absurd hsent (by simp)
  exact PubTest.messageCount_nonneg hlog

/-! ## The simulation -/

theorem Tracks.pubCycle (h : s.Tracks c b) (io : PubAnswers) :
    Tracks c (s.step (.pubCycle io)) b := by
  -- what the pass adds to the topic has not been delivered
  obtain ⟨msgs, hmsgs⟩ : s.control <+: (s.step (.pubCycle io)).control :=
    controlSent_prefix (PubTest.pass_log_prefix s.pub io)
  obtain ⟨ios, hpub⟩ := h.pub
  refine ⟨⟨ios ++ [io], ?_⟩, h.sub, h.maxTest, ?_, ?_, h.refines⟩
  · rw [run_concat, ← hpub]
    rfl
  · rw [← hmsgs, List.length_append]
    exact Nat.le_add_right_of_le h.delivered_le
  · rw [h.messages, delivered, delivered, ← hmsgs]
    exact (List.take_append_of_le_length h.delivered_le).symm

theorem Tracks.deliverControl (h : s.Tracks c b) :
    Tracks c s.deliverControl
      (run (Box.step TestControl.announced) b (s.boxOps .deliverControl)) := by
  rw [Sys.deliverControl, boxOps]
  cases hmsg : s.control[s.controlDelivered]? with
  | none => exact h
  | some msg =>
    obtain ⟨hlt, -⟩ := List.getElem?_eq_some_iff.mp hmsg
    have hrefines := h.refines.receiveControl msg s.controlDelivered
    refine ⟨h.pub, ?_, ?_, hlt, ?_, ?_⟩
    · rw [h.sub]
      rfl
    · simp only [Outcome.world_map]
      exact h.maxTest
    · change b.messages ++ [msg] = s.control.take (s.controlDelivered + 1)
      rw [h.messages, List.take_add_one, hmsg]
      rfl
    · simp only [Outcome.world_map]
      exact hrefines

theorem Tracks.deliverData (h : s.Tracks c b) : Tracks c s.deliverData b := by
  rw [Sys.deliverData]
  cases s.data[s.dataDelivered]? with
  | none => exact h
  | some x =>
    refine ⟨h.pub, ?_, ?_, h.delivered_le, h.messages, ?_⟩
    · rw [h.sub]
      rfl
    · simp only [Outcome.world_map]
      exact h.maxTest
    · simp only [Outcome.world_map]
      exact h.refines.receiveData _

/-- A cycle of the subscriber that is executed. -/
theorem Tracks.subPass (h : s.Tracks c b) (hrun : s.sub.world.exec.currentState = .EXECUTION)
    (elapsed : ℚ) : ∃ t, (s.step (.subCycle elapsed)).sub = .ret t ∧ s.sub.world.Cycles t ∧
      t.Refines (b.look TestControl.announced) := by
  obtain ⟨t, ht, hcycles, hrefines⟩ := h.refines.pass hrun h.nonneg elapsed
  refine ⟨t, ?_, hcycles, hrefines⟩
  rw [← ht, ← h.sub]
  rfl

theorem step_subCycle_of_ended (hsub : s.sub = .ret s.sub.world)
    (h : s.sub.world.exec.currentState ≠ .EXECUTION) (elapsed : ℚ) :
    s.step (.subCycle elapsed) = s := by
  have hpass : SubTest.pass s.sub elapsed = s.sub := by
    rw [hsub]
    exact mainPass_of_ended _ h
  rw [step, hpass]

theorem Tracks.subCycle (h : s.Tracks c b) (elapsed : ℚ) :
    Tracks c (s.step (.subCycle elapsed))
      (run (Box.step TestControl.announced) b (s.boxOps (.subCycle elapsed))) := by
  rw [boxOps, Executive.inExecution]
  by_cases hrun : s.sub.world.exec.currentState = .EXECUTION
  · obtain ⟨t, ht, hcycles, hrefines⟩ := h.subPass hrun elapsed
    have hmax : t.maxTest = s.sub.world.maxTest := by
      cases hcycles with
      | measure t n hnil hactive hn hmeasures => exact hmeasures.maxTest
      | _ => rfl
    rw [decide_eq_true hrun]
    refine ⟨h.pub, ?_, ?_, h.delivered_le, ?_, ?_⟩
    · rw [ht, Outcome.world_ret]
    · rw [ht, Outcome.world_ret, hmax]
      exact h.maxTest
    · rw [if_pos rfl, run_cons, run_nil, Box.step_look, Box.messages_look]
      exact h.messages
    · rw [ht]
      exact hrefines
  · rw [step_subCycle_of_ended h.sub hrun, decide_eq_false hrun]
    exact h

/-- **The simulation.** -/
theorem tracks_simulates (c : Setup) :
    Simulates step (Box.step TestControl.announced) boxOps (Tracks c) := by
  intro s b l h
  cases l with
  | pubCycle io => exact h.pubCycle io
  | subCycle elapsed => exact h.subCycle elapsed
  | deliverControl => exact h.deliverControl
  | deliverData => exact h.deliverData

theorem tracks_start (c : Setup) : (start c).Tracks c {} where
  pub := ⟨[], rfl⟩
  sub := rfl
  maxTest := rfl
  delivered_le := Nat.zero_le _
  messages := rfl
  refines :=
    ⟨Box.ordered_empty, rfl, fun _ hx ↦ absurd hx List.not_mem_nil, rfl, rfl,
      fun hactive ↦ absurd hactive Bool.false_ne_true, rfl,
      fun _ hm ↦ absurd hm List.not_mem_nil, rfl,
      (le_max_left 0 _).trans (max_le_max_right _ zero_le_one), rfl⟩

theorem tracks_run (c : Setup) (ls : List Label) : (runOf c ls).Tracks c
    (run (Box.step TestControl.announced) {} (answers step boxOps (start c) ls)) :=
  (tracks_simulates c).run (tracks_start c) ls

/-- The rounds that have been delivered are numbered upwards. -/
theorem Tracks.increasing (h : s.Tracks c b) : (b.keys TestControl.announced).Pairwise (· < ·) := by
  have hsub : b.keys TestControl.announced <+ s.pub.world.ledger.announced := by
    rw [Box.keys, h.messages]
    exact (List.take_sublist _ _).filterMap _
  exact h.announces.increasing.sublist hsub

/-! ## What is measured -/

/-- The step measures a round. -/
def measures (s : Sys) (l : Label) : Prop :=
  (s.step l).sub.world.measured ≠ s.sub.world.measured

instance (s : Sys) (l : Label) : Decidable (s.measures l) :=
  inferInstanceAs (Decidable (_ ≠ _))

/-- A step in which the subscriber measures a round of `n` samples and is then `t`. -/
structure Measuring (s : Sys) (l : Label) (t : FastSubTest) (n : ℕ) : Prop where
  cycle : ∃ elapsed, l = .subCycle elapsed
  after : (s.step l).sub = .ret t.tick
  polled : s.sub.world.subControl.reader.samples = []
  active : s.sub.world.testActive = true
  newest : s.newestRound = some s.sub.world.currentTestId
  expected : s.sub.world.sub.expectedMessagesCycle = n
  measured : s.sub.world.Measures t n

/-- The results of two subscribers are the same. -/
structure SameTally (s t : FastSubTest) : Prop where
  measured : t.measured = s.measured
  totalLostSamples : t.totalLostSamples = s.totalLostSamples
  testValidation : t.testValidation = s.testValidation

theorem Tracks.newestRound_eq (h : s.Tracks c b) :
    s.newestRound = b.newest TestControl.announced := by
  rw [newestRound, Box.newest, h.messages]

/-- An active subscriber with nothing to poll measures. -/
theorem Tracks.measuring (h : s.Tracks c b) (hrun : s.sub.world.exec.currentState = .EXECUTION)
    (hnil : s.sub.world.subControl.reader.samples = []) (hactive : s.sub.world.testActive = true)
    (elapsed : ℚ) : ∃ t n, s.Measuring (.subCycle elapsed) t n := by
  obtain ⟨t, ht, hcycles, -⟩ := h.subPass hrun elapsed
  cases hcycles with
  | adopt x hlast =>
    rw [hnil] at hlast
    exact absurd hlast (by simp)
  | idle _ hidle =>
    rw [hactive] at hidle
    exact absurd hidle (by simp)
  | measure t n _ _ hn hmeasures =>
    refine ⟨t, n, ⟨elapsed, rfl⟩, ht, hnil, hactive, ?_, hn, hmeasures⟩
    rw [h.newestRound_eq]
    exact h.refines.newest_of_active hnil hactive

/-- A cycle of the subscriber measures a round, or touches neither the results nor the data. -/
theorem Tracks.cycle_effect (h : s.Tracks c b) (elapsed : ℚ) :
    SameTally s.sub.world (s.step (.subCycle elapsed)).sub.world ∧
        (s.step (.subCycle elapsed)).sub.world.sub.reader = s.sub.world.sub.reader ∨
      ∃ t n, s.Measuring (.subCycle elapsed) t n := by
  by_cases hrun : s.sub.world.exec.currentState = .EXECUTION
  · obtain ⟨t, ht, hcycles, -⟩ := h.subPass hrun elapsed
    cases hcycles with
    | adopt x hlast =>
      rw [ht]
      exact .inl ⟨⟨rfl, rfl, rfl⟩, rfl⟩
    | idle hnil hactive =>
      rw [ht]
      exact .inl ⟨⟨rfl, rfl, rfl⟩, rfl⟩
    | measure t n hnil hactive => exact .inr (h.measuring hrun hnil hactive elapsed)
  · rw [step_subCycle_of_ended h.sub hrun]
    exact .inl ⟨⟨rfl, rfl, rfl⟩, rfl⟩

/-- A step measures a round, or changes none of the results. -/
theorem Tracks.effect (h : s.Tracks c b) (l : Label) :
    SameTally s.sub.world (s.step l).sub.world ∨ ∃ t n, s.Measuring l t n := by
  cases l with
  | pubCycle io => exact .inl ⟨rfl, rfl, rfl⟩
  | deliverControl =>
    refine .inl ?_
    change SameTally _ s.deliverControl.sub.world
    rw [Sys.deliverControl]
    split
    · exact ⟨rfl, rfl, rfl⟩
    · rw [Outcome.world_map]
      exact ⟨rfl, rfl, rfl⟩
  | deliverData =>
    refine .inl ?_
    change SameTally _ s.deliverData.sub.world
    rw [Sys.deliverData]
    split
    · exact ⟨rfl, rfl, rfl⟩
    · rw [Outcome.world_map]
      exact ⟨rfl, rfl, rfl⟩
  | subCycle elapsed => exact (h.cycle_effect elapsed).imp_left And.left

theorem Measuring.measures {l : Label} {t : FastSubTest} {n : ℕ} (h : s.Measuring l t n) :
    s.measures l := by
  rw [Sys.measures, h.after, Outcome.world_ret]
  change t.measured ≠ _
  rw [h.measured.measured]
  simp

theorem SameTally.not_measures {l : Label} (h : SameTally s.sub.world (s.step l).sub.world) :
    ¬s.measures l := not_not.mpr h.measured

/-- The measurements so far are of different rounds in the order of their announcements, each made
with the parameters of its announcement. -/
structure Faithful (s : Sys) : Prop where
  increasing : (s.sub.world.measured.map Measurement.testId).Pairwise (· < ·)
  announced : ∀ m ∈ s.sub.world.measured, ∃ msg ∈ s.control,
    msg.start = true ∧ msg.testId = m.testId
  parameters : ∀ m ∈ s.sub.world.measured, ∀ msg ∈ s.control, msg.start = true →
    msg.testId = m.testId →
      m.expected = msg.expectedEntities ∧ m.processType = ProcessType.ofLoan msg.loan

/-- A step that measures finds nothing to poll, and the newest message the subscriber has polled
announces the round measured. -/
def MeasuresNewest (s : Sys) (l : Label) : Prop :=
  s.measures l → s.sub.world.subControl.reader.samples = [] ∧
    ∃ m, (s.step l).sub.world.measured = s.sub.world.measured ++ [m] ∧
      s.newestRound = some m.testId

theorem Tracks.measuresNewest (h : s.Tracks c b) (l : Label) : s.MeasuresNewest l := by
  intro hmeasures
  obtain hsame | ⟨t, n, hmeasuring⟩ := h.effect l
  · exact absurd hmeasures hsame.not_measures
  · rw [hmeasuring.after]
    exact ⟨hmeasuring.polled, _, hmeasuring.measured.measured, hmeasuring.newest⟩

theorem Tracks.faithful (h : s.Tracks c b) : s.Faithful := by
  have hsent : ∀ msg ∈ b.messages, msg ∈ s.control := by
    intro msg hmsg
    rw [h.messages] at hmsg
    exact List.mem_of_mem_take hmsg
  refine ⟨?_, fun m hm ↦ ?_, fun m hm msg hmsg hstart hid ↦ ?_⟩
  · rw [h.refines.handled]
    exact h.increasing.sublist h.refines.ordered.handled_sublist
  · obtain ⟨msg, hmsg, hsets⟩ := h.refines.parameters m hm
    exact ⟨msg, hsent msg hmsg, hsets.start, hsets.testId⟩
  · -- every start carries the settings of the test
    obtain ⟨msg', hmsg', hsets⟩ := h.refines.parameters m hm
    have hsettings := h.announces.settings msg hmsg hstart
    have hsettings' := h.announces.settings msg' (hsent msg' hmsg') hsets.start
    rw [hsets.expected, hsets.mode, hsettings.1, hsettings.2, hsettings'.1, hsettings'.2]
    exact ⟨rfl, rfl⟩

/-- **At most once and with the right parameters**, for every configuration and every schedule. -/
theorem faithful_run (c : Setup) (ls : List Label) :
    (runOf c ls).Faithful ∧ Along step MeasuresNewest (start c) ls := by
  refine ⟨(tracks_run c ls).faithful, ?_⟩
  rw [along_iff]
  rintro pre l post -
  exact (tracks_run c pre).measuresNewest l

/-! ## When it is measured -/

/-- A cycle that the subscriber executes while the start of round `k` is the newest message
delivered to it. -/
def facing (k : ℤ) (s : Sys) : Label → Bool
  | .subCycle _ => s.sub.world.exec.inExecution && s.newestRound = some k
  | _ => false

theorem Tracks.visits_boxOps (h : s.Tracks c b) (k : ℤ) (l : Label) :
    visits (Box.step TestControl.announced) (Box.looksFor TestControl.announced k) b (s.boxOps l)
      = if facing k s l then 1 else 0 := by
  cases l with
  | pubCycle io => rfl
  | deliverData => rfl
  | deliverControl =>
    rw [boxOps]
    cases s.control[s.controlDelivered]? <;> rfl
  | subCycle elapsed =>
    rw [boxOps, facing, h.newestRound_eq]
    cases s.sub.world.exec.inExecution with
    | false => rfl
    | true => rfl

/-- The two-look law for the subscriber. -/
theorem mem_measured_iff (c : Setup) (ls : List Label) (k : ℤ) :
    k ∈ (runOf c ls).sub.world.measured.map Measurement.testId ↔
      2 ≤ visits step (facing k) (start c) ls := by
  have htracks := tracks_run c ls
  have hnodup := htracks.increasing.imp (fun {_ _} ↦ ne_of_lt)
  rw [htracks.refines.handled, Box.mem_handled_iff _ hnodup,
    (tracks_simulates c).visits (fun s b l h ↦ h.visits_boxOps k l) (tracks_start c)]

/-- The rounds of a test, in order. -/
def rounds (N : ℕ) : List ℤ := (List.range N).map fun i : ℕ ↦ (i + 1 : ℤ)

@[simp] theorem length_rounds (N : ℕ) : (rounds N).length = N := by
  rw [rounds, List.length_map, List.length_range]

theorem rounds_succ (N : ℕ) : rounds (N + 1) = rounds N ++ [(N + 1 : ℤ)] := by
  rw [rounds, List.range_succ, List.map_append, rounds, List.map_singleton]

theorem mem_rounds {N : ℕ} {k : ℤ} : k ∈ rounds N ↔ 1 ≤ k ∧ k ≤ N := by
  rw [rounds, List.mem_map]
  constructor
  · rintro ⟨i, hi, rfl⟩
    rw [List.mem_range] at hi
    omega
  · rintro ⟨h1, hN⟩
    exact ⟨(k - 1).toNat, by rw [List.mem_range]; omega, by omega⟩

theorem pairwise_rounds (N : ℕ) : (rounds N).Pairwise (· < ·) := by
  refine List.pairwise_map.mpr (List.pairwise_lt_range.imp fun {i j} hij ↦ ?_)
  omega

/-- The subscriber's test of `N` rounds is complete. -/
structure Complete (N : ℕ) (s : Sys) : Prop where
  measured : s.sub.world.measured.map Measurement.testId = rounds N
  currentTest : s.sub.world.currentTest = N
  ended : s.sub.world.exec.currentState = .END

/-- The last round ends the test. -/
theorem Tracks.complete_of_measured {N : ℕ} (h : s.Tracks c b) (hpos : 1 ≤ N)
    (hN : c.subConfig.testCount = N)
    (hmeasured : s.sub.world.measured.map Measurement.testId = rounds N) : s.Complete N := by
  have hcount : s.sub.world.measured.length = N := by
    rw [← length_rounds N, ← hmeasured, List.length_map]
  refine ⟨hmeasured, ?_, ?_⟩
  · rw [h.refines.currentTest, hcount]
  · rw [h.refines.running, h.maxTest, hN, hcount]
    refine if_pos ⟨fun hnil ↦ ?_, le_refl _⟩
    rw [hnil, List.length_nil] at hcount
    omega

/-- A subscriber that has measured every round has measured nothing else. -/
theorem Tracks.complete_iff {N : ℕ} (h : s.Tracks c b) (hpos : 1 ≤ N)
    (hN : c.subConfig.testCount = N) : s.Complete N ↔
      ∀ k : ℤ, 1 ≤ k → k ≤ N → k ∈ s.sub.world.measured.map Measurement.testId := by
  have hmax : s.sub.world.maxTest = N := h.maxTest.trans hN
  constructor
  · intro hcomplete k h1 hk
    rw [hcomplete.measured]
    exact mem_rounds.mpr ⟨h1, hk⟩
  · intro hall
    have hsubset : rounds N ⊆ s.sub.world.measured.map Measurement.testId := by
      intro k hk
      obtain ⟨h1, hN'⟩ := mem_rounds.mp hk
      exact hall k h1 hN'
    -- the test ends with round `N`, so there is no room for another
    have hlen : s.sub.world.measured.length ≤ N := by
      have hbounded := h.refines.bounded
      rw [hmax] at hbounded
      omega
    have hnodup : (rounds N).Nodup := (pairwise_rounds N).imp ne_of_lt
    have hperm := (hnodup.subperm hsubset).perm_of_length_le (by simpa using hlen)
    have heq := hperm.eq_of_pairwise' (pairwise_rounds N) h.faithful.increasing
    exact h.complete_of_measured hpos hN heq.symm

/-- **When a round is measured.** Two cycles while its start is the newest message delivered, and
the test is complete when every round has had them. -/
theorem measured_iff_faced (c : Setup) (N : ℕ) (hpos : 1 ≤ N) (hN : c.subConfig.testCount = N)
    (ls : List Label) :
    (∀ k : ℤ, k ∈ (runOf c ls).sub.world.measured.map Measurement.testId ↔
      2 ≤ visits step (facing k) (start c) ls) ∧
    ((runOf c ls).Complete N ↔
      ∀ k : ℤ, 1 ≤ k → k ≤ N → 2 ≤ visits step (facing k) (start c) ls) := by
  refine ⟨mem_measured_iff c ls, ?_⟩
  rw [(tracks_run c ls).complete_iff hpos hN]
  simp only [mem_measured_iff]

/-- A test of one round of one sample on both sides. -/
def oneRound : Setup where
  pubConfig := { messageCount := 1, testCount := 1 }
  subConfig := { messageCount := 1, testCount := 1 }

/-- Two cycles between the start and the stop complete the test. -/
theorem oneRound_complete : (runOf oneRound (List.replicate 51 (.pubCycle {}) ++
    [.deliverControl, .subCycle 0, .subCycle 0])).Complete 1 := by
  refine (measured_iff_faced oneRound 1 (le_refl 1) rfl _).2.mpr fun k h1 hk ↦ ?_
  obtain rfl : k = 1 := Int.le_antisymm hk h1
  decide +kernel

/-- A cycle that the subscriber executes. -/
def executes (s : Sys) : Label → Bool
  | .subCycle _ => s.sub.world.exec.inExecution
  | _ => false

/-- A start and a stop that arrive together: the poll hands back the stop. -/
theorem round_skipped : ¬∀ (c : Setup) (N : ℕ) (ls ls' : List Label), 1 ≤ N →
    c.pubConfig.testCount = N → c.subConfig.testCount = N →
    (runOf c ls).pub.world.exec.currentState = .END →
    (runOf c ls).controlDelivered = (runOf c ls).control.length →
    2 ≤ visits step executes (runOf c ls) ls' → (runOf c (ls ++ ls')).Complete N := by
  intro h
  have hcomplete := h oneRound 1
    (List.replicate 58 (.pubCycle {}) ++ [.deliverControl, .deliverControl])
    [.subCycle 0, .subCycle 0] (le_refl 1) rfl rfl (by decide +kernel) (by decide +kernel)
    (by decide +kernel)
  exact absurd hcomplete.currentTest (by decide +kernel)

end Sys

end IndraDds
