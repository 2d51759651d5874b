import IndraDds.Publisher.Interface
import IndraDds.Subscriber.Bookkeeping
import IndraDds.System.NullCalls
import IndraDds.Vendor.Matching
import IndraDds.Vendor.OpenSub

/-!
# The tests of the other vendors

The tests are the same for every vendor; what comes of them is not. With `OpenSub` behind the
interface the count that the test stores never reaches the drain, so a drain takes nothing and
succeeds. For OpenDDS that makes the report a function of the control topic alone: the test is deaf
to the data topic. This is a statement about two runs, proved by running them side by side: the two
subscribers differ in their data readers and in nothing that the test can see.

With the classes of CycloneDDS the publisher never finds a subscriber, the subscriber never polls a
configuration, and neither process ends.
-/

namespace IndraDds

open Transition

variable {κ : Type}

/-! ## OpenDDS -/

namespace OpenSub

/-- Samples arrive on the data topic. -/
def arrive (xs : List (Sample AirEntity)) (o : OpenSub) : OpenSub :=
  { o with
    dr := o.dr.map fun reader ↦ xs.foldl (fun r x ↦ r.receive AirEntity.id x) reader }

/-- Two subscribers that only differ in what the test cannot see. -/
structure Alike (o o' : OpenSub) : Prop where
  left : o.Unreached
  right : o'.Unreached
  base : o'.toISubBase = o.toISubBase

variable {o o' : OpenSub}

theorem Unreached.arrive (h : o.Unreached) (xs : List (Sample AirEntity)) :
    (o.arrive xs).Unreached := by
  obtain ⟨hexpected, hids, hdr⟩ := h
  refine ⟨hexpected, hids, ?_⟩
  rw [OpenSub.arrive, Option.isSome_map]
  exact hdr

/-- A drain succeeds and leaves no trace on the interface. -/
theorem Unreached.runWithoutLoan (h : o.Unreached) : ∃ x : OpenSub,
    ISub.runWithoutLoan o 0 = { result := true, lostSamples := 0, sub := x } ∧
      x.Unreached ∧ x.toISubBase = o.toISubBase := by
  obtain ⟨-, hresult, hlost, -⟩ := runWithoutLoan_unreached h 0
  obtain ⟨reader, hreader⟩ := Option.isSome_iff_exists.mp h.2.2
  refine ⟨(o.runWithoutLoan 0).sub, ?_, unreached_apply h .runWithoutLoan, ?_⟩
  · have hr : ∀ r : DrainResult OpenSub, r.result = true → r.lostSamples = 0 →
        r = { result := true, lostSamples := 0, sub := r.sub } := by
      rintro ⟨result, lost, sub⟩ rfl rfl
      rfl
    exact hr _ hresult hlost
  · rw [OpenSub.runWithoutLoan, hreader]
    rfl

theorem Alike.arrive (h : o.Alike o') (xs : List (Sample AirEntity)) : (o.arrive xs).Alike o' :=
  ⟨h.left.arrive xs, h.right, h.base⟩

theorem Alike.setExpected (h : o.Alike o') (n : ℤ) :
    (ISub.setExpected o n).Alike (ISub.setExpected o' n) := by
  refine ⟨unreached_apply h.left (.setExpected n), unreached_apply h.right (.setExpected n), ?_⟩
  change { o'.toISubBase with expectedMessagesCycle := n } = { o.toISubBase with
    expectedMessagesCycle := n }
  rw [h.base]

theorem Alike.resetSamples (h : o.Alike o') :
    (ISub.resetSamples o).Alike (ISub.resetSamples o') :=
  ⟨unreached_apply h.left .resetSamples, unreached_apply h.right .resetSamples, h.base⟩

end OpenSub

namespace SubTest

/-- The same test with another data subscriber. -/
def withSub (o : OpenSub) (s : SubTest OpenSub κ) : SubTest OpenSub κ := { s with sub := o }

@[simp] theorem account_withSub (o : OpenSub) (s : SubTest OpenSub κ) :
    (s.withSub o).account = s.account := rfl

variable {s : SubTest OpenSub κ} {o : OpenSub}

/-- What follows a drain that succeeds does not depend on the subscriber either. -/
theorem conclude_withSub (elapsed : ℚ) {x x' : OpenSub} (hsub : o.toISubBase = s.sub.toISubBase)
    (hx : x'.toISubBase = x.toISubBase) :
    (s.withSub o).conclude elapsed { result := true, lostSamples := 0, sub := x' }
      = (s.conclude elapsed { result := true, lostSamples := 0, sub := x }).withSub
        (ISub.resetSamples x') := by
  have hexpected : (ISub.base o).expectedMessagesCycle
      = (ISub.base s.sub).expectedMessagesCycle := congrArg ISubBase.expectedMessagesCycle hsub
  have hreport : (ISub.base x').expectedMessagesCycle = (ISub.base x).expectedMessagesCycle :=
    congrArg ISubBase.expectedMessagesCycle hx
  rw [conclude_eq, conclude_eq, withSub]
  simp only [booked, measurement, report, hexpected, hreport]
  rfl

/-- A measurement succeeds, or the mode is one that `OpenSub` does not implement. -/
theorem measure_open (elapsed : ℚ) (h : s.sub.Unreached) :
    (s.processType = .Normal ∧ ∃ x : OpenSub, x.Unreached ∧ x.toISubBase = s.sub.toISubBase ∧
      s.measure elapsed = .ret (conclude elapsed { s with sub := ISub.resetSamples s.sub }
        { result := true, lostSamples := 0, sub := x })) ∨
      (s.processType = .Loan ∧ s.measure elapsed
        = .thrown "run with loan not implemented (OpenSub)"
          { s with sub := ISub.resetSamples s.sub }) := by
  obtain hmode | hmode := s.processType.normal_or_loan
  · obtain ⟨x, hdrain, hx, hbase⟩ :=
      (OpenSub.unreached_apply h .resetSamples).runWithoutLoan
    refine .inl ⟨hmode, x, hx, hbase, ?_⟩
    have hnormal : drain { s with sub := ISub.resetSamples s.sub }
        = .ok (ISub.runWithoutLoan (ISub.resetSamples s.sub) 0) := by
      rw [drain, hmode]
    rw [measure]
    simp only [hnormal]
    rw [← hdrain]
    rfl
  · refine .inr ⟨hmode, ?_⟩
    have hloan : drain { s with sub := ISub.resetSamples s.sub }
        = .error "run with loan not implemented (OpenSub)" := by
      rw [drain, hmode]
      rfl
    rw [measure]
    simp only [hloan]

theorem measure_withSub (elapsed : ℚ) (h : s.sub.Alike o) :
    ∃ o', (s.withSub o).measure elapsed = (s.measure elapsed).map (withSub o') ∧
      (s.measure elapsed).world.sub.Alike o' := by
  have hright : (s.withSub o).sub.Unreached := h.right
  obtain ⟨hmode, x, hx, hbase, hmeasure⟩ | ⟨hmode, hmeasure⟩ := measure_open elapsed h.left
  · obtain ⟨-, x', hx', hbase', hmeasure'⟩ | ⟨hmode', -⟩ := measure_open elapsed hright
    · have hsame : x'.toISubBase = x.toISubBase := by
        rw [hbase, hbase']
        exact h.base
      refine ⟨ISub.resetSamples x', ?_, ?_⟩
      · rw [hmeasure, hmeasure']
        exact congrArg Outcome.ret (conclude_withSub
          (s := { s with sub := ISub.resetSamples s.sub }) (o := ISub.resetSamples o) elapsed
          h.base hsame)
      · rw [hmeasure, Outcome.world_ret, conclude_eq]
        exact OpenSub.Alike.resetSamples ⟨hx, hx', hsame⟩
    · exact absurd (hmode.symm.trans hmode') (by simp)
  · obtain ⟨hmode', -⟩ | ⟨-, hmeasure'⟩ := measure_open elapsed hright
    · exact absurd (hmode.symm.trans hmode') (by simp)
    · refine ⟨ISub.resetSamples o, ?_, ?_⟩
      · rw [hmeasure, hmeasure']
        rfl
      · rw [hmeasure]
        exact h.resetSamples

/-- The books of a test with an `OpenSub`: every round is a success without a loss, and if the
process has thrown it was asked for a loan. -/
structure OpenBooks (o : Outcome (SubTest OpenSub κ)) : Prop where
  unreached : o.world.sub.Unreached
  measured : ∀ m ∈ o.world.measured,
    m.result = true ∧ m.lostSamples = 0 ∧ m.processType = .Normal
  thrown : ∀ what s, o = .thrown what s →
    what = "run with loan not implemented (OpenSub)" ∧ s.processType = .Loan

theorem OpenBooks.of_ret {t : SubTest OpenSub κ} (hsub : t.sub.Unreached)
    (hmeasured : ∀ m ∈ t.measured, m.result = true ∧ m.lostSamples = 0 ∧ m.processType = .Normal) :
    OpenBooks (.ret t) :=
  ⟨hsub, hmeasured, fun _ _ h ↦ absurd h (by simp)⟩

theorem OpenBooks.measure (h : OpenBooks (.ret s)) (elapsed : ℚ) :
    OpenBooks (s.measure elapsed) := by
  have hsub : s.sub.Unreached := h.unreached
  obtain ⟨hmode, x, hx, hbase, hmeasure⟩ | ⟨hmode, hmeasure⟩ := measure_open elapsed hsub
  · rw [hmeasure, conclude_eq]
    refine .of_ret (OpenSub.unreached_apply hx .resetSamples) fun m hm ↦ ?_
    obtain hm | hm := List.mem_append.mp hm
    · exact h.measured m hm
    · rw [List.mem_singleton.mp hm]
      exact ⟨rfl, rfl, hmode⟩
  · rw [hmeasure]
    refine ⟨OpenSub.unreached_apply hsub .resetSamples, h.measured, fun what t ht ↦ ?_⟩
    obtain ⟨rfl, rfl⟩ := Outcome.thrown.inj ht
    exact ⟨rfl, hmode⟩

theorem OpenBooks.map {w : Outcome (SubTest OpenSub κ)} (h : OpenBooks w)
    {f : SubTest OpenSub κ → SubTest OpenSub κ}
    (hsub : ∀ s, s.sub.Unreached → (f s).sub.Unreached)
    (hmeasured : ∀ s, (f s).measured = s.measured)
    (hmode : ∀ s, (f s).processType = s.processType) : OpenBooks (w.map f) := by
  refine ⟨?_, ?_, fun what t ht ↦ ?_⟩
  · rw [Outcome.world_map]
    exact hsub _ h.unreached
  · rw [Outcome.world_map, hmeasured]
    exact h.measured
  · rcases w with s | ⟨what', s⟩
    · exact absurd ht (by simp [Outcome.map])
    · obtain ⟨rfl, rfl⟩ := Outcome.thrown.inj ht
      rw [hmode]
      exact h.thrown what' s rfl

variable [ISubControl κ]

theorem read_withSub (elapsed : ℚ) (h : s.sub.Alike o) :
    ∃ o', (s.withSub o).read elapsed = (s.read elapsed).map (withSub o') ∧
      (s.read elapsed).world.sub.Alike o' := by
  rcases happlied : (ISubControl.pollControl s.subControl {}).applied with _ | _
  · rcases hactive : s.testActive with _ | _
    · refine ⟨o, ?_, ?_⟩
      · rw [read_inactive happlied hactive]
        exact read_inactive (s := s.withSub o) happlied hactive
      · rw [read_inactive happlied hactive]
        exact h
    · have hread : (s.withSub o).read elapsed = _ :=
        read_active (s := s.withSub o) happlied hactive
      rw [read_active happlied hactive, hread]
      exact measure_withSub (s := { s with
        subControl := (ISubControl.pollControl s.subControl {}).control }) elapsed h
  · refine ⟨ISub.setExpected o (ISubControl.pollControl s.subControl {}).out.expectedEntities,
      ?_, ?_⟩
    · rw [read_applied happlied]
      exact read_applied (s := s.withSub o) happlied
    · rw [read_applied happlied]
      exact h.setExpected _

theorem OpenBooks.read (h : OpenBooks (.ret s)) (elapsed : ℚ) : OpenBooks (s.read elapsed) := by
  rcases happlied : (ISubControl.pollControl s.subControl {}).applied with _ | _
  · rcases hactive : s.testActive with _ | _
    · rw [read_inactive happlied hactive]
      exact .of_ret h.unreached h.measured
    · rw [read_active happlied hactive]
      have h' : OpenBooks (.ret { s with
          subControl := (ISubControl.pollControl s.subControl {}).control }) :=
        .of_ret h.unreached h.measured
      exact h'.measure elapsed
  · rw [read_applied happlied]
    exact .of_ret (OpenSub.unreached_apply h.unreached (.setExpected _)) h.measured

end SubTest

/-- Before the cycle samples arrive at the data reader, and nothing else happens to it. -/
def SubMove.Arrives (m : SubMove OpenSub κ) : Prop := ∃ xs, m.onSub = OpenSub.arrive xs

/-- The same move without the samples. -/
def SubMove.deaf (m : SubMove OpenSub κ) : SubMove OpenSub κ := { m with onSub := id }

namespace SubTest

variable [ISubControl κ] {w w' : Outcome (SubTest OpenSub κ)} {m : SubMove OpenSub κ}

theorem OpenBooks.pass (h : OpenBooks w) (elapsed : ℚ) : OpenBooks (pass w elapsed) := by
  rcases w with s | ⟨what, s⟩
  · by_cases hrun : s.exec.currentState = .EXECUTION
    · have hread := h.read elapsed
      rw [pass_ret _ hrun]
      rcases hr : s.read elapsed with t | ⟨what, t⟩
      · rw [hr] at hread
        exact .of_ret hread.unreached hread.measured
      · rw [hr] at hread
        exact hread
    · rw [pass, mainPass_of_ended (w := s) _ hrun]
      exact h
  · exact h

theorem OpenBooks.step (h : OpenBooks w) (hm : m.Arrives) : OpenBooks (step w m) := by
  obtain ⟨xs, hxs⟩ := hm
  refine (h.map (f := meet m) (fun s hs ↦ ?_) (fun _ ↦ rfl) fun _ ↦ rfl).pass m.elapsed
  change (m.onSub s.sub).Unreached
  rw [hxs]
  exact hs.arrive xs

/-- Two processes that differ in the data subscriber only. -/
def AlikeOutcomes (w w' : Outcome (SubTest OpenSub κ)) : Prop :=
  ∃ o, w' = w.map (withSub o) ∧ w.world.sub.Alike o

/-- One step of both, of which one hears the data topic. -/
theorem AlikeOutcomes.step (h : AlikeOutcomes w w') (hm : m.Arrives) :
    AlikeOutcomes (step w m) (step w' m.deaf) := by
  obtain ⟨xs, hxs⟩ := hm
  obtain ⟨o, rfl, halike⟩ := h
  have hmeet : ∀ s : SubTest OpenSub κ, s.sub.Alike o → (s.meet m).sub.Alike o := by
    intro s hs
    change (m.onSub s.sub).Alike o
    rw [hxs]
    exact hs.arrive xs
  rcases w with s | ⟨what, s⟩
  · change AlikeOutcomes (pass (.ret (s.meet m)) m.elapsed)
      (pass (.ret ((s.meet m).withSub o)) m.elapsed)
    by_cases hrun : (s.meet m).exec.currentState = .EXECUTION
    · obtain ⟨o', hread, halike'⟩ := read_withSub m.elapsed (hmeet s halike)
      have hrun' : ((s.meet m).withSub o).exec.currentState = .EXECUTION := hrun
      rw [pass_ret _ hrun, pass_ret _ hrun', hread]
      refine ⟨o', ?_, ?_⟩
      · rcases (s.meet m).read m.elapsed with t | ⟨what, t⟩ <;> rfl
      · rcases hr : (s.meet m).read m.elapsed with t | ⟨what, t⟩
        · rw [hr] at halike'
          exact halike'
        · rw [hr] at halike'
          exact halike'
    · have hrun' : ((s.meet m).withSub o).exec.currentState ≠ .EXECUTION := hrun
      rw [pass, pass, mainPass_of_ended (w := s.meet m) _ hrun,
        mainPass_of_ended (w := (s.meet m).withSub o) _ hrun']
      exact ⟨o, rfl, hmeet s halike⟩
  · exact ⟨o, rfl, hmeet s halike⟩

end SubTest

/-! ## CycloneDDS -/

/-- `CycloneSub`, which has no members beside those of `ISub`. -/
structure CycloneSub extends ISubBase

namespace CycloneSub

instance : ISub CycloneSub where
  base := CycloneSub.toISubBase
  withBase _ b := { toISubBase := b }
  runWithoutLoan s lost := { result := true, lostSamples := lost, sub := s }
  runWithLoan s lost := .ok { result := true, lostSamples := lost, sub := s }
  resetSamples s := { s with receivedIds := ∅ }

end CycloneSub

/-- `CycloneSubControl`, which has no members. -/
structure CycloneSubControl where

instance : ISubControl CycloneSubControl where
  pollControl c out := { applied := false, out := out, control := c }

namespace SubTest

/-- A subscriber that no start has reached. -/
structure Unstarted (s : SubTest CycloneSub CycloneSubControl) : Prop where
  state : s.exec.currentState = .EXECUTION
  inactive : s.testActive = false
  measured : s.measured = []

theorem unstarted_run (config : MainTestConfig) (sub : CycloneSub) (control : CycloneSubControl)
    (ms : List (SubMove CycloneSub CycloneSubControl)) :
    ∃ s, run step (start config sub control) ms = .ret s ∧ s.Unstarted := by
  refine run_invariant (I := fun w : Outcome (SubTest CycloneSub CycloneSubControl) ↦
    ∃ s, w = .ret s ∧ s.Unstarted) ⟨_, rfl, rfl, rfl, rfl⟩ ?_ ms
  rintro w m ⟨s, rfl, hstate, hinactive, hmeasured⟩
  have hrun : (s.meet m).exec.currentState = .EXECUTION := hstate
  have hread : (s.meet m).read m.elapsed = .ret (s.meet m) := read_inactive rfl hinactive
  change ∃ t, pass (.ret (s.meet m)) m.elapsed = .ret t ∧ t.Unstarted
  rw [pass_ret _ hrun, hread]
  exact ⟨_, rfl, hstate, hinactive, hmeasured⟩

end SubTest

namespace IPubTest

/-- A publisher that waits for its subscribers. -/
structure Idle (p : IPubTest) : Prop where
  silent : p.toPubTest.Silent
  phases : p.phases = []
  state : p.exec.currentState = .EXECUTION

/-- A cycle in which the gate of the data writer is shut. -/
theorem Idle.pass {p : IPubTest} {io : IPubAnswers} (h : p.Idle) (hio : io.pubMatched = false) :
    ∃ q, IPubTest.pass (.ret p) io = .ret q ∧ q.Idle := by
  obtain ⟨hsilent, hphases, hrun⟩ := h
  obtain ⟨cyles, reset, send, hread⟩ :=
    PubTest.read_of_not_streaming io.toPubAnswers hsilent.state
  have hidle : ∀ effect, Idle (tick { p.read io with
      toPubTest := (p.toPubTest.read io.toPubAnswers).afterCall effect }) := by
    intro effect
    rw [hread]
    exact ⟨⟨hsilent.log, hsilent.state⟩, hphases, hrun⟩
  have hwrite : (p.read io).write io = if !(p.read io).send then .ret (p.read io) else
      .ret { p.read io with
        toPubTest := (p.toPubTest.read io.toPubAnswers).afterCall io.afterIsMatched } := by
    rw [write, hio]
    rfl
  rw [pass_ret io hrun, hwrite]
  split_ifs
  · exact ⟨_, rfl, hidle id⟩
  · exact ⟨_, rfl, hidle io.afterIsMatched⟩

theorem idle_start (setExpectedSubs : ℤ → ℤ → ℤ) (pubInit : ℤ → ℤ) (config : MainTestConfig)
    (hn : 0 ≤ config.messageCount) (reset : Bool) :
    ∃ p, start setExpectedSubs pubInit config reset = .ret p ∧ p.Idle := by
  have hinit := init_new setExpectedSubs pubInit config hn reset
  rw [start, Executive.init]
  simp only [callAll, clModule, init, hinit, Outcome.bind_ret]
  exact ⟨_, rfl, ⟨rfl, PubState.noConfusion⟩, rfl, rfl⟩

end IPubTest

end IndraDds
