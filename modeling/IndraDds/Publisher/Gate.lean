import IndraDds.Publisher.Samples
import IndraDds.Vendor.Matching

/-!
# Streaming only to present subscribers

`write` sends nothing while one of its two publishers reports that it is unmatched, so the publisher
never streams to fewer subscribers than it expects if the gate of `FastPub` reports the subscribers
present. It reports those that have ever come.

The four entities of a test are taken together with their listeners. A pass of the publisher asks
the two gates of its side; the answers the middleware gives to the other calls are arbitrary.
-/

namespace IndraDds

open Transition

/-! ## What a pass leaves alone -/

namespace PubTest

/-- Nothing is streamed, and the gate is set as before. -/
structure SendsNothing (p q : PubTest) : Prop where
  dataCount : dataCount q.log = dataCount p.log
  minSubs : q.pub.minSubs = p.pub.minSubs

theorem resetTest_sendsNothing (io : PubAnswers) (p : PubTest) :
    p.SendsNothing (p.resetTest io) := by
  rw [resetTest]
  split_ifs
  · obtain ⟨exec, exportResult, reports, hfinish⟩ := finishTest_frame { p.emit
        (.control (FastPubControl.stopMessage (p.currentTest + 1)) io.stopRet) with
      currentEntityId := 0, state := .Announce, reset := true }
    rw [hfinish]
    exact ⟨dataCount_concat _ _, rfl⟩
  · obtain ⟨exec, exportResult, reports, hfinish⟩ := finishTest_frame p
    rw [hfinish]
    exact ⟨rfl, rfl⟩

/-- The waiting sends no samples. -/
theorem read_sendsNothing (io : PubAnswers) (p : PubTest) : p.SendsNothing (p.read io) := by
  obtain ⟨cyles, reset, send, hread | hread⟩ := read_cases io p
  · rw [hread]
    exact ⟨rfl, rfl⟩
  · rw [hread]
    obtain ⟨hdata, hsubs⟩ := resetTest_sendsNothing io
      { p with currentCylesReset := cyles, reset := reset, send := send }
    exact ⟨hdata, hsubs⟩

theorem minSubs_write (io : PubAnswers) (p : PubTest) :
    (p.write io).world.pub.minSubs = p.pub.minSubs := by
  have hstream : (p.stream io).world.pub.minSubs = p.pub.minSubs := by
    obtain ⟨entities, id, pubId, calls, hs | ⟨what, hs⟩⟩ := stream_frame p io
    · rw [hs]
      rfl
    · rw [hs]
      rfl
  rw [write]
  split_ifs
  · rfl
  · rfl
  · cases p.state with
    | WaitingMatch => rfl
    | Announce =>
      simp only
      split_ifs <;> rfl
    | Streaming => exact hstream

theorem minSubs_pass (o : Outcome PubTest) (io : PubAnswers) :
    (pass o io).world.pub.minSubs = o.world.pub.minSubs := by
  cases o with
  | thrown what p => rfl
  | ret p =>
    by_cases hrun : p.exec.currentState = .EXECUTION
    · rw [pass_ret io hrun,
        Outcome.world_bind_ret (f := tick) (g := fun p ↦ p.pub.minSubs) fun _ ↦ rfl]
      exact (minSubs_write io _).trans (read_sendsNothing io p).minSubs
    · rw [pass, mainPass_of_ended (w := p) _ hrun]

theorem dataCount_pass_of_unmatched {io : PubAnswers} (h : io.matched = false)
    (o : Outcome PubTest) : dataCount (pass o io).world.log = dataCount o.world.log := by
  cases o with
  | thrown what p => rfl
  | ret p =>
    by_cases hrun : p.exec.currentState = .EXECUTION
    · rw [pass_ret io hrun, write_unmatched h]
      exact (read_sendsNothing io p).dataCount
    · rw [pass, mainPass_of_ended (w := p) _ hrun]

theorem minSubs_start (config : MainTestConfig) (reset : Bool) :
    (start config reset).world.pub.minSubs = config.listenerNumber := by
  rcases lt_or_ge config.messageCount 0 with h | h
  · rw [start_of_neg h]
    rfl
  · rw [start_of_nonneg h]
    rfl

end PubTest

/-! ## The gates of a test -/

/-- The publisher of a test and the four entities of its two topics. -/
structure Gates where
  pub : Outcome PubTest
  data : Endpoint FastPub.PubListener := { listener := {} }
  control : Endpoint FastPubControl.Listener := { listener := {} }
  sub : Endpoint FastSub.SubListener := { listener := {} }
  subControl : Endpoint FastSubControl.Listener := { listener := {} }

namespace Gates

/-- A change at one of the entities, or a pass of the publisher. -/
inductive Label where
  | data (ev : MatchEvent)
  | control (ev : MatchEvent)
  | sub (ev : MatchEvent)
  | subControl (ev : MatchEvent)
  | pubCycle (io : PubAnswers)

/-- The answers of a pass, with those that the gates give. -/
def answers (s : Gates) (io : PubAnswers) : PubAnswers :=
  { io with
    pubMatched := s.pub.world.pub.isMatched s.data.listener
    controlMatched := FastPubControl.isMatched s.control.listener }

def step (s : Gates) : Label → Gates
  | .data ev =>
    { s with data := s.data.notify (some FastPub.PubListener.onPublicationMatched) ev }
  | .control ev =>
    { s with control := s.control.notify (some FastPubControl.Listener.onPublicationMatched) ev }
  | .sub ev =>
    { s with sub := s.sub.notify (some FastSub.SubListener.onSubscriptionMatched) ev }
  | .subControl ev =>
    { s with
      subControl := s.subControl.notify (some FastSubControl.Listener.onSubscriptionMatched) ev }
  | .pubCycle io => { s with pub := PubTest.pass s.pub (s.answers io) }

/-- A test that has just been initialised, before anything is matched. -/
def start (config : MainTestConfig) (reset : Bool) : Gates where
  pub := PubTest.start config reset

/-- The four gates report the endpoints matched now. -/
structure Reports (s : Gates) : Prop where
  data : s.pub.world.pub.isMatched s.data.listener = true ↔
    max 1 s.pub.world.pub.minSubs ≤ s.data.status.currentCount
  control : FastPubControl.isMatched s.control.listener = true ↔
    1 ≤ s.control.status.currentCount
  sub : FastSub.isMatch s.sub.listener = true ↔ 1 ≤ s.sub.status.currentCount
  subControl : FastSubControl.hasMatch s.subControl.listener = true ↔
    1 ≤ s.subControl.status.currentCount

/-- If the step streams, the expected number of subscribers is there. -/
def StreamsToAll (config : MainTestConfig) (s : Gates) (l : Label) : Prop :=
  dataCount s.pub.world.log < dataCount (s.step l).pub.world.log →
    max 1 config.listenerNumber ≤ s.data.status.currentCount

/-- Once as many subscribers have come as are expected, as many stay; once a publisher has come to
the data reader, one stays. -/
structure Stays (config : MainTestConfig) (s : Gates) : Prop where
  data : max 1 config.listenerNumber ≤ s.data.status.totalCount →
    max 1 config.listenerNumber ≤ s.data.status.currentCount
  sub : 0 < s.sub.status.totalCount → 1 ≤ s.sub.status.currentCount

/-- What the listeners know, along every run. -/
structure Known (config : MainTestConfig) (s : Gates) : Prop where
  minSubs : s.pub.world.pub.minSubs = config.listenerNumber
  data : s.data.Knows fun total _ ↦ ⟨total⟩
  control : s.control.Knows fun _ current ↦ ⟨current⟩
  sub : s.sub.Knows fun total _ ↦ ⟨decide (0 < total)⟩
  subControl : s.subControl.Knows fun _ current ↦ ⟨current⟩
  dataCurrent : s.data.status.currentCount ≤ s.data.status.totalCount
  subCurrent : s.sub.status.currentCount ≤ s.sub.status.totalCount

variable {config : MainTestConfig} {s : Gates}

theorem Known.step (h : s.Known config) (l : Label) : (s.step l).Known config := by
  obtain ⟨hmin, hdata, hcontrol, hsub, hsubControl, hle, hle'⟩ := h
  cases l with
  | data ev =>
    exact ⟨hmin, hdata.notify fastPub_keeps ev, hcontrol, hsub, hsubControl,
      MatchedStatus.current_le_total hle ev, hle'⟩
  | control ev =>
    exact ⟨hmin, hdata, hcontrol.notify fastPubControl_keeps ev, hsub, hsubControl, hle, hle'⟩
  | sub ev =>
    exact ⟨hmin, hdata, hcontrol, hsub.notify fastSub_keeps ev, hsubControl, hle,
      MatchedStatus.current_le_total hle' ev⟩
  | subControl ev =>
    exact ⟨hmin, hdata, hcontrol, hsub, hsubControl.notify fastSubControl_keeps ev, hle, hle'⟩
  | pubCycle io =>
    exact ⟨(PubTest.minSubs_pass s.pub _).trans hmin, hdata, hcontrol, hsub, hsubControl, hle, hle'⟩

theorem known_run (config : MainTestConfig) (reset : Bool) (ls : List Label) :
    (run step (start config reset) ls).Known config := by
  refine run_invariant (I := Known config) ?_ (fun s l h ↦ h.step l) ls
  exact ⟨PubTest.minSubs_start config reset, rfl, rfl, rfl, rfl, le_refl _, le_refl _⟩

/-- The gates are right in a state exactly when the two that only look back have lost nobody. -/
theorem Known.reports_iff (h : s.Known config) : s.Reports ↔ s.Stays config := by
  have hdata : s.pub.world.pub.isMatched s.data.listener = true ↔
      max 1 config.listenerNumber ≤ s.data.status.totalCount := by
    rw [h.data, FastPub.isMatched_iff, h.minSubs]
  have hsub : FastSub.isMatch s.sub.listener = true ↔ 0 < s.sub.status.totalCount := by
    rw [h.sub]
    exact decide_eq_true_iff
  have hle := h.dataCurrent
  have hle' := h.subCurrent
  constructor
  · intro hreports
    refine ⟨fun htotal ↦ ?_, fun htotal ↦ hreports.sub.mp (hsub.mpr htotal)⟩
    rw [← h.minSubs]
    exact hreports.data.mp (hdata.mpr htotal)
  · intro hstays
    refine ⟨?_, ?_, ?_, ?_⟩
    · rw [hdata, h.minSubs]
      exact ⟨hstays.data, fun hcurrent ↦ hcurrent.trans hle⟩
    · rw [h.control]
      exact decide_eq_true_iff
    · rw [hsub]
      exact ⟨hstays.sub, fun hcurrent ↦ by omega⟩
    · rw [h.subControl]
      exact decide_eq_true_iff

/-- With the gates right, a step that streams finds everybody there. -/
theorem Known.streamsToAll (h : s.Known config) (hreports : s.Reports) (l : Label) :
    s.StreamsToAll config l := by
  intro hstreams
  cases l with
  | pubCycle io =>
    by_contra hfew
    -- with too few there the gate is shut, and a pass that finds it so sends nothing
    refine absurd hstreams (Nat.not_lt.mpr (le_of_eq ?_))
    refine PubTest.dataCount_pass_of_unmatched ?_ s.pub
    have hclosed : s.pub.world.pub.isMatched s.data.listener = false := by
      rw [Bool.eq_false_iff, Ne, hreports.data, h.minSubs]
      exact hfew
    rw [PubAnswers.matched, answers, hclosed, Bool.false_and]
  | _ => exact absurd hstreams (lt_irrefl _)

/-- **The gates are right** throughout a run, and the publisher streams only to enough subscribers,
exactly when nobody that a gate has counted is missed. -/
theorem reports_iff_stays (config : MainTestConfig) (reset : Bool) (ls : List Label) :
    ((∀ pre, pre <+: ls → (run step (start config reset) pre).Reports) ∧
      Along step (StreamsToAll config) (start config reset) ls) ↔
        ∀ pre, pre <+: ls → (run step (start config reset) pre).Stays config := by
  constructor
  · rintro ⟨hreports, -⟩ pre hpre
    exact (known_run config reset pre).reports_iff.mp (hreports pre hpre)
  · intro hstays
    have hreports : ∀ pre, pre <+: ls → (run step (start config reset) pre).Reports :=
      fun pre hpre ↦ (known_run config reset pre).reports_iff.mpr (hstays pre hpre)
    refine ⟨hreports, along_iff.mpr ?_⟩
    rintro pre l post rfl
    exact (known_run config reset pre).streamsToAll (hreports pre (List.prefix_append _ _)) l

/-- A subscriber that has come and gone: both gates of the data topic still report it. -/
theorem gone_subscriber_reported : ¬∀ (config : MainTestConfig) (reset : Bool) (ls : List Label),
    ∀ pre, pre <+: ls → (run step (start config reset) pre).Reports := by
  intro h
  have hreports := h {} false [.data .matched, .data .unmatched] _ (List.prefix_refl _)
  exact absurd (hreports.data.mp (by decide)) (by decide)

end Gates

end IndraDds
