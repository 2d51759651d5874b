import IndraDds.System.Lockstep

/-!
# How a run ends

`main` leaves its loop when the test asks it to, and nothing else ends it: there is no timeout. So
a subscriber that has missed rounds may wait forever. What decides is known early. Once the
publisher's loop has ended, on its own or by an exception, and what it sent on the control topic has
arrived, two further cycles of the subscriber settle the matter: the round it still owes is measured
and no other, and from then on its results do not change, whatever else arrives.

The rounds measured together with the round owed are what a step leaves alone; how many cycles it
takes is a count that every cycle lowers.
-/

namespace IndraDds

open Transition

/-! ## What the subscriber still owes -/

namespace SubTest

/-- The round it will measure if no further message arrives. -/
def due (s : FastSubTest) : Option ℤ :=
  if s.exec.currentState = .EXECUTION then
    match s.subControl.reader.samples.getLast? with
    | some x => x.data.announced
    | none => if s.testActive then some s.currentTestId else none
  else none

/-- In how many cycles it will have done so. -/
def patience (s : FastSubTest) : ℕ :=
  if s.exec.currentState = .EXECUTION then
    match s.subControl.reader.samples.getLast? with
    | some _ => 2
    | none => if s.testActive then 1 else 0
  else 0

/-- The rounds measured, and the one that is due. -/
def owed (s : FastSubTest) : List ℤ := s.measured.map Measurement.testId ++ s.due.toList

variable {s t : FastSubTest}

theorem due_of_ended (h : s.exec.currentState ≠ .EXECUTION) : s.due = none := if_neg h

theorem patience_of_ended (h : s.exec.currentState ≠ .EXECUTION) : s.patience = 0 := if_neg h

theorem due_of_nil (hrun : s.exec.currentState = .EXECUTION)
    (hnil : s.subControl.reader.samples = []) :
    s.due = if s.testActive then some s.currentTestId else none := by
  rw [due, if_pos hrun, hnil]
  rfl

theorem patience_of_nil (hrun : s.exec.currentState = .EXECUTION)
    (hnil : s.subControl.reader.samples = []) : s.patience = if s.testActive then 1 else 0 := by
  rw [patience, if_pos hrun, hnil]
  rfl

theorem patience_le (s : FastSubTest) : s.patience ≤ 2 := by
  rw [patience]
  split
  · split
    · exact le_refl 2
    · split
      · exact Nat.le_succ 1
      · exact Nat.zero_le 2
  · exact Nat.zero_le 2

/-- Nothing is due when no cycle is left to do it. -/
theorem due_of_patience (h : s.patience = 0) : s.due = none := by
  by_cases hrun : s.exec.currentState = .EXECUTION
  · rcases hlast : s.subControl.reader.samples.getLast? with _ | x
    · have hnil := List.getLast?_eq_none_iff.mp hlast
      rw [patience_of_nil hrun hnil] at h
      rw [due_of_nil hrun hnil]
      exact if_neg fun hactive ↦ absurd ((if_pos hactive).symm.trans h) Nat.one_ne_zero
    · rw [patience, if_pos hrun, hlast] at h
      exact absurd h (Nat.succ_ne_zero 1)
  · exact due_of_ended hrun

/-- A cycle keeps what is owed, and brings it nearer. -/
theorem Cycles.owed (h : s.Cycles t) (hrun : s.exec.currentState = .EXECUTION) :
    t.owed = s.owed ∧ t.patience ≤ s.patience - 1 := by
  cases h with
  | adopt x hlast =>
    have hrun' : (s.adopted x.data).tick.exec.currentState = .EXECUTION := hrun
    have hactive : (s.adopted x.data).tick.testActive = x.data.start := rfl
    have hdue : s.due = x.data.announced := by
      rw [due, if_pos hrun, hlast]
    have htwo : s.patience = 2 := by
      rw [patience, if_pos hrun, hlast]
    rw [SubTest.owed, SubTest.owed, due_of_nil hrun' rfl, patience_of_nil hrun' rfl, hdue, htwo]
    refine ⟨rfl, ?_⟩
    split_ifs
    · exact le_refl 1
    · exact Nat.zero_le 1
  | idle hnil hidle =>
    have hzero : s.patience = 0 := by
      rw [patience_of_nil hrun hnil]
      exact if_neg fun hactive ↦ absurd (hactive.symm.trans hidle) Bool.noConfusion
    have hsame : s.tick.patience = s.patience := rfl
    exact ⟨rfl, hsame.trans hzero ▸ Nat.zero_le _⟩
  | measure t n hnil hactive hn ht =>
    have hdue : s.due = some s.currentTestId := by
      rw [due_of_nil hrun hnil, if_pos hactive]
    have hzero : t.tick.patience = 0 := by
      by_cases hrun' : t.tick.exec.currentState = .EXECUTION
      · have hnil' : t.tick.subControl.reader.samples = [] :=
          (congrArg (fun r ↦ r.reader.samples) ht.subControl).trans hnil
        rw [patience_of_nil hrun' hnil']
        exact if_neg fun hactive' ↦ absurd (hactive'.symm.trans ht.testActive) Bool.noConfusion
      · exact patience_of_ended hrun'
    refine ⟨?_, hzero.le.trans (Nat.zero_le _)⟩
    rw [SubTest.owed, SubTest.owed, due_of_patience hzero, hdue]
    change t.measured.map _ ++ [] = _
    rw [ht.measured, List.map_append, List.append_nil]
    rfl

end SubTest

namespace Sys

/-! ## A publisher that is done -/

/-- The publisher's loop has ended, and all it sent on the control topic has arrived. -/
structure Quiet (s : Sys) : Prop where
  ended : PubTest.looping s.pub = false
  delivered : s.controlDelivered = s.control.length

variable {c : Setup} {s : Sys} {b : Mailbox.Box TestControl ℤ}

/-- The rounds the subscriber has measured. -/
def ids (s : Sys) : List ℤ := s.sub.world.measured.map Measurement.testId

theorem pass_of_not_looping {o : Outcome PubTest} (h : PubTest.looping o = false)
    (io : PubAnswers) : PubTest.pass o io = o := by
  rcases o with p | ⟨what, p⟩
  · exact mainPass_of_not_inExecution (w := p) _ h
  · rfl

theorem Quiet.pubCycle (h : s.Quiet) (io : PubAnswers) : s.step (.pubCycle io) = s := by
  rw [step, pass_of_not_looping h.ended]

theorem Quiet.deliverControl (h : s.Quiet) : s.step .deliverControl = s := by
  change s.deliverControl = s
  rw [Sys.deliverControl, List.getElem?_eq_none h.delivered.ge]

theorem deliverData_of_none (h : s.data[s.dataDelivered]? = none) : s.deliverData = s := by
  rw [Sys.deliverData, h]

theorem deliverData_of_some {x : ℤ × AirEntity} (h : s.data[s.dataDelivered]? = some x) :
    s.deliverData = { s with
      sub := s.sub.map fun t ↦
        t.receiveData { data := x.2, info := { sequenceNumber := s.dataDelivered } }
      dataDelivered := s.dataDelivered + 1 } := by
  rw [Sys.deliverData, h]

/-- The control side does not notice a sample. -/
theorem unnoticed_deliverData (s : Sys) :
    s.deliverData.controlDelivered = s.controlDelivered ∧
      s.deliverData.sub.world.owed = s.sub.world.owed ∧
      s.deliverData.sub.world.patience = s.sub.world.patience ∧
      SameTally s.sub.world s.deliverData.sub.world := by
  rcases hx : s.data[s.dataDelivered]? with _ | x
  · rw [deliverData_of_none hx]
    exact ⟨rfl, rfl, rfl, ⟨rfl, rfl, rfl⟩⟩
  · rw [deliverData_of_some hx]
    dsimp only
    rw [Outcome.world_map]
    exact ⟨rfl, rfl, rfl, ⟨rfl, rfl, rfl⟩⟩

theorem Quiet.step (h : s.Quiet) (l : Label) : (s.step l).Quiet := by
  rcases l with io | elapsed | _ | _
  · rw [h.pubCycle io]
    exact h
  · exact ⟨h.ended, h.delivered⟩
  · rw [h.deliverControl]
    exact h
  · change s.deliverData.Quiet
    obtain ⟨hdelivered, -⟩ := s.unnoticed_deliverData
    refine ⟨?_, ?_⟩
    · rw [pub_deliverData]
      exact h.ended
    · rw [hdelivered, control, pub_deliverData]
      exact h.delivered

/-! ## Two cycles -/

/-- A step keeps what is owed, and a cycle of the subscriber brings it nearer. -/
theorem Quiet.owed_step (h : s.Quiet) (htracks : s.Tracks c b) (l : Label) :
    (s.step l).sub.world.owed = s.sub.world.owed ∧
      (s.step l).sub.world.patience ≤ s.sub.world.patience - if l.isSubCycle then 1 else 0 := by
  rcases l with io | elapsed | _ | _
  · rw [h.pubCycle io]
    exact ⟨rfl, le_refl _⟩
  · by_cases hrun : s.sub.world.exec.currentState = .EXECUTION
    · obtain ⟨t, ht, hcycles, -⟩ := htracks.subPass hrun elapsed
      rw [ht]
      exact hcycles.owed hrun
    · rw [step_subCycle_of_ended htracks.sub hrun, SubTest.patience_of_ended hrun]
      exact ⟨rfl, Nat.zero_le _⟩
  · rw [h.deliverControl]
    exact ⟨rfl, le_refl _⟩
  · obtain ⟨-, howed, hpatience, -⟩ := s.unnoticed_deliverData
    exact ⟨howed, hpatience.le⟩

theorem Quiet.owed_run {ls : List Label} (h : (runOf c ls).Quiet) (ls' : List Label) :
    (runOf c (ls ++ ls')).Quiet ∧
      (runOf c (ls ++ ls')).sub.world.owed = (runOf c ls).sub.world.owed ∧
      (runOf c (ls ++ ls')).sub.world.patience ≤ 2 - ls'.countP Label.isSubCycle := by
  induction ls' using List.reverseRecOn with
  | nil =>
    rw [List.append_nil]
    exact ⟨h, rfl, SubTest.patience_le _⟩
  | append_singleton ls' l ih =>
    obtain ⟨hquiet, howed, hpatience⟩ := ih
    obtain ⟨howed', hpatience'⟩ := hquiet.owed_step (tracks_run c _) l
    rw [← List.append_assoc, runOf_concat, List.countP_append, List.countP_singleton]
    refine ⟨hquiet.step l, howed'.trans howed, ?_⟩
    omega

/-- With nothing owed, nothing is measured any more. -/
theorem Quiet.still_step (h : s.Quiet) (htracks : s.Tracks c b)
    (hzero : s.sub.world.patience = 0) (l : Label) :
    SameTally s.sub.world (s.step l).sub.world := by
  rcases l with io | elapsed | _ | _
  · rw [h.pubCycle io]
    exact ⟨rfl, rfl, rfl⟩
  · obtain ⟨hsame, -⟩ | ⟨t, n, hmeasuring⟩ := htracks.cycle_effect elapsed
    · exact hsame
    · -- a subscriber that measures is not patient for nothing
      have hrun : s.sub.world.exec.currentState = .EXECUTION := by
        by_contra hended
        refine hmeasuring.measures ?_
        rw [step_subCycle_of_ended htracks.sub hended]
      rw [SubTest.patience_of_nil hrun hmeasuring.polled, if_pos hmeasuring.active] at hzero
      exact absurd hzero Nat.one_ne_zero
  · rw [h.deliverControl]
    exact ⟨rfl, rfl, rfl⟩
  · obtain ⟨-, -, -, hsame⟩ := s.unnoticed_deliverData
    exact hsame

theorem SameTally.trans {s t u : FastSubTest} (h : SameTally s t) (h' : SameTally t u) :
    SameTally s u :=
  ⟨h'.measured.trans h.measured, h'.totalLostSamples.trans h.totalLostSamples,
    h'.testValidation.trans h.testValidation⟩

/-- The process of the subscriber has ended when it has measured its last round. -/
theorem Tracks.ended_iff (h : s.Tracks c b) : s.sub.world.exec.currentState = .END ↔
    max 1 c.subConfig.testCount ≤ s.ids.length := by
  rw [h.refines.running, h.maxTest, ids, List.length_map, max_le_iff]
  split_ifs with hlast
  · have hpos := List.length_pos_iff.mpr hlast.1
    exact iff_of_true rfl ⟨by omega, hlast.2⟩
  · refine iff_of_false not_false fun hmax ↦ hlast ⟨fun hnil ↦ ?_, hmax.2⟩
    have hone := hmax.1
    rw [hnil] at hone
    exact absurd hone (by decide)

/-- After two cycles of the subscriber nothing is due. -/
theorem Quiet.settled {ls ls' : List Label} (h : (runOf c ls).Quiet)
    (hcycles : 2 ≤ ls'.countP Label.isSubCycle) :
    (runOf c (ls ++ ls')).sub.world.patience = 0 ∧
      (runOf c (ls ++ ls')).ids = (runOf c ls).sub.world.owed := by
  obtain ⟨-, howed, hpatience⟩ := h.owed_run ls'
  rw [Nat.sub_eq_zero_of_le hcycles] at hpatience
  have hzero := Nat.le_zero.mp hpatience
  refine ⟨hzero, ?_⟩
  rw [← howed, SubTest.owed, SubTest.due_of_patience hzero]
  exact (List.append_nil _).symm

theorem Quiet.ended_iff {ls ls' : List Label} (h : (runOf c ls).Quiet)
    (hcycles : 2 ≤ ls'.countP Label.isSubCycle) :
    (runOf c (ls ++ ls')).sub.world.exec.currentState = .END ↔
      max 1 c.subConfig.testCount ≤ (runOf c ls).sub.world.owed.length := by
  rw [(tracks_run c _).ended_iff, (h.settled hcycles).2]

/-- **Two cycles settle it.** After the publisher's loop has ended and its control messages have
arrived, two cycles of the subscriber, in any schedule, measure the round that is due and no other.
From then on nothing changes its results, and its process ends only if that was its last round. -/
theorem settles (c : Setup) (ls ls' : List Label)
    (hover : PubTest.looping (runOf c ls).pub = false)
    (hdelivered : (runOf c ls).controlDelivered = (runOf c ls).control.length)
    (hcycles : 2 ≤ ls'.countP Label.isSubCycle) :
    (runOf c (ls ++ ls')).ids = (runOf c ls).ids ++ (runOf c ls).sub.world.due.toList ∧
      ∀ ls'', SameTally (runOf c (ls ++ ls')).sub.world (runOf c (ls ++ ls' ++ ls'')).sub.world ∧
        ((runOf c (ls ++ ls' ++ ls'')).sub.world.exec.currentState = .END ↔
          max 1 c.subConfig.testCount
            ≤ ((runOf c ls).ids ++ (runOf c ls).sub.world.due.toList).length) := by
  have hquiet : (runOf c ls).Quiet := ⟨hover, hdelivered⟩
  refine ⟨(hquiet.settled hcycles).2, fun ls'' ↦ ?_⟩
  have hcycles' : ∀ ls'', 2 ≤ (ls' ++ ls'').countP Label.isSubCycle := fun ls'' ↦
    hcycles.trans (List.countP_append ▸ Nat.le_add_right _ _)
  constructor
  · induction ls'' using List.reverseRecOn with
    | nil =>
      rw [List.append_nil]
      exact ⟨rfl, rfl, rfl⟩
    | append_singleton ls'' l ih =>
      obtain ⟨hlater, -⟩ := hquiet.owed_run (ls' ++ ls'')
      obtain ⟨hzero, -⟩ := hquiet.settled (hcycles' ls'')
      rw [← List.append_assoc] at hlater hzero
      rw [← List.append_assoc, runOf_concat]
      exact ih.trans (hlater.still_step (tracks_run c _) hzero l)
  · rw [List.append_assoc]
    exact hquiet.ended_iff (hcycles' ls'')

/-- The stop is lost, so the start is the last message, and its round is measured after all. -/
theorem settles_unstopped : (runOf oneRound (List.replicate 58 (.pubCycle { stopRet := 1 }) ++
    [.deliverControl] ++ [.subCycle 0, .subCycle 0])).ids = [1] := by
  have hsettles := settles oneRound
    (List.replicate 58 (.pubCycle { stopRet := 1 }) ++ [.deliverControl])
    [.subCycle 0, .subCycle 0] (by decide +kernel) (by decide +kernel) (by decide)
  rw [hsettles.1]
  decide +kernel

end Sys

/-! ## Rounds that are never announced -/

theorem PubEvent.act_of_start {msg : TestControl} (h : msg.start = true) (ret : ReturnCode) :
    (PubEvent.control msg ret).act = .start msg.testId := by
  rw [PubEvent.act, if_pos h]

namespace PubTest

variable {config : MainTestConfig} {reset : Bool} {N n : ℕ}

/-- The control messages of a test of `N` rounds are of these rounds, also when it throws. -/
theorem act_of_mem_control (hpos : 1 ≤ N) (hN : config.testCount = N)
    (hn : config.messageCount = n) (ios : List PubAnswers) :
    ∀ (t : ℕ) (msg : TestControl) (ret : ReturnCode),
      (t, .control msg ret) ∈ (run pass (start config reset) ios).world.log →
        (PubEvent.control msg ret).act ∈ Proto.acts N := by
  induction ios using List.reverseRecOn with
  | nil =>
    intro t msg ret hmem
    rw [run_nil, start_of_nonneg (by omega)] at hmem
    exact absurd hmem List.not_mem_nil
  | append_singleton ios io ih =>
    intro t msg ret hmem
    rcases ho : run pass (start config reset) (ios ++ [io]) with q | ⟨what, q⟩
    · -- a test that goes on has written what the protocol says
      have hfollows := run_follows hpos hN hn ho
      rw [ho] at hmem
      have hact : (t, (PubEvent.control msg ret).act) ∈ q.log.map PubEvent.timedAct :=
        List.mem_map_of_mem hmem
      rw [hfollows.log] at hact
      exact (Proto.log_prefix hpos _).subset (List.mem_map_of_mem hact)
    · -- a cycle that throws writes no control message
      rw [run_concat] at ho hmem
      rcases hbefore : run pass (start config reset) ios with p | ⟨what', p⟩
      · rw [hbefore] at ho hmem ih
        have hfollows := run_follows hpos hN hn hbefore
        have hpasses := (hfollows.pass (Proto.valid_run hpos _) io).passes
        rw [ho] at hpasses hmem
        cases hpasses with
        | throw what q hphase hstream =>
          obtain ⟨calls, hlog, -, -⟩ := stream_world p io
          rw [hstream] at hlog
          rw [Outcome.world_thrown] at hlog hmem
          rw [hlog, List.mem_append, List.mem_singleton] at hmem
          exact ih t msg ret (hmem.resolve_right (by simp))
      · rw [hbefore, pass_thrown] at hmem
        rw [hbefore] at ih
        exact ih t msg ret hmem

/-- The starts among them. -/
theorem started_le (hpos : 1 ≤ N) (hN : config.testCount = N) (hn : config.messageCount = n)
    (ios : List PubAnswers) (t : ℕ) (msg : TestControl) (ret : ReturnCode)
    (hmem : (t, .control msg ret) ∈ (run pass (start config reset) ios).world.log)
    (hstart : msg.start = true) : 1 ≤ msg.testId ∧ msg.testId ≤ N := by
  have hact := act_of_mem_control hpos hN hn ios t msg ret hmem
  rw [PubEvent.act_of_start hstart] at hact
  exact Proto.mem_acts.mp hact

end PubTest

namespace Sys

variable {c : Setup}

theorem exists_event_of_mem_control {s : Sys} {msg : TestControl} (h : msg ∈ s.control) :
    ∃ t, (t, .control msg RETCODE_OK) ∈ s.pub.world.log := by
  obtain ⟨⟨t, e⟩, he, hmsg⟩ := List.mem_filterMap.mp h
  rcases e with ⟨msg', ret⟩ | ⟨round, calls⟩
  · rw [PubEvent.acceptedControl] at hmsg
    split_ifs at hmsg with hret
    rw [← Option.some.inj hmsg, ← hret]
    exact ⟨t, he⟩
  · exact absurd hmsg (by simp)

/-- **A subscriber that waits for more rounds than there are waits for ever**, whatever the
schedule and whether or not the publisher fails. -/
theorem never_ends (c : Setup) (N n : ℕ) (hpos : 1 ≤ N) (hN : c.pubConfig.testCount = N)
    (hn : c.pubConfig.messageCount = n) (hmore : (N : ℤ) < c.subConfig.testCount)
    (ls : List Label) :
    (∀ k ∈ (runOf c ls).ids, 1 ≤ k ∧ k ≤ N) ∧ (runOf c ls).ids.length ≤ N ∧
      ∃ t, (runOf c ls).sub = .ret t ∧ t.exec.currentState = .EXECUTION := by
  have htracks := tracks_run c ls
  have hfaithful := htracks.faithful
  have hbounds : ∀ k ∈ (runOf c ls).ids, 1 ≤ k ∧ k ≤ N := by
    intro k hk
    obtain ⟨m, hm, rfl⟩ := List.mem_map.mp hk
    obtain ⟨msg, hmsg, hstart, hid⟩ := hfaithful.announced m hm
    obtain ⟨t, hmem⟩ := exists_event_of_mem_control hmsg
    rw [pub_run] at hmem
    rw [← hid]
    exact PubTest.started_le hpos hN hn (pubAnswers ls) t msg RETCODE_OK hmem hstart
  have hlen : (runOf c ls).ids.length ≤ N := by
    have hnodup : (runOf c ls).ids.Nodup := hfaithful.increasing.imp ne_of_lt
    have hsubset : (runOf c ls).ids ⊆ rounds N := fun k hk ↦ mem_rounds.mpr (hbounds k hk)
    rw [← length_rounds N]
    exact (hnodup.subperm hsubset).length_le
  refine ⟨hbounds, hlen, _, htracks.sub, ?_⟩
  have hlen' : ((runOf c ls).sub.world.measured.length : ℤ) ≤ N := by
    rw [ids, List.length_map] at hlen
    exact Int.ofNat_le.mpr hlen
  rw [htracks.refines.running, htracks.maxTest, if_neg]
  rintro ⟨-, hall⟩
  omega

/-- One round announced, two expected. -/
theorem never_ends_of_two : ∃ t, (runOf { oneRound with
      subConfig := { messageCount := 1, testCount := 2 } }
      (List.replicate 51 (.pubCycle {}) ++ [.deliverControl, .subCycle 0, .subCycle 0])).sub
    = .ret t ∧ t.exec.currentState = .EXECUTION :=
  (never_ends { oneRound with subConfig := { messageCount := 1, testCount := 2 } } 1 1 (le_refl 1)
    rfl rfl (by decide) _).2.2

end Sys

end IndraDds
