import IndraDds.Publisher.Interface

/-!
# Any publisher in place of `FastPub`

A publisher behind `IPub` answers each call with a `bool` and may change `messages_per_cycle`. Where
it leaves that member alone there is nothing else by which the test could tell it from `FastPub`, so
the two runs go through the same states: the same announcements and stops with the same codes, the
same counters, times and reports, the same exception at the same cycle. What differs is behind the
interface, the calls on the data writer.

`PubTest.mirror` takes those out of a test with `FastPub`. It commutes with every method, so the run
with any publisher is the mirror of the run with `FastPub`, and the write phases handed to that
publisher are the ones the calls on the writer stood for.
-/

namespace IndraDds

open Transition

/-! ## The mirror -/

namespace PubEvent

def isControl : PubEvent → Bool
  | control _ _ => true
  | data _ _ => false

/-- The write phase behind the calls on a data writer. The loop of the normal mode makes one call
for each slot; `publish_loan` is one call of the test, whatever becomes of it. -/
def phase (mode : ProcessType) (n : ℕ) : PubEvent → Option WritePhase
  | control _ _ => none
  | data _ calls =>
    match mode with
    | .Normal => some (.normal (List.range calls.length)
        (if calls.all fun c ↦ c.acceptedSample.isSome then .complete else .failed))
    | .Loan => some (.loan n)

end PubEvent

/-- The write phases of a log. -/
def writePhases (mode : ProcessType) (n : ℕ) (log : List (ℕ × PubEvent)) : List WritePhase :=
  log.filterMap fun e ↦ e.2.phase mode n

/-- The control topic is made of control events. -/
theorem controlSent_filter (log : List (ℕ × PubEvent)) :
    controlSent (log.filter fun e ↦ e.2.isControl) = controlSent log := by
  rw [controlSent, List.filterMap_filter, controlSent]
  congr 1
  funext e
  rcases e with ⟨t, msg | calls⟩ <;> rfl

namespace PubTest

/-- The test with another publisher in place of `FastPub`, whose calls it does not see. -/
def mirror (q : PubTest) (pub : FastPub) : PubTest :=
  { q with log := q.log.filter fun e ↦ e.2.isControl, pub := pub }

section Mirror

variable (q : PubTest) (pub : FastPub) (io : PubAnswers)

theorem mirror_emit_control (msg : TestControl) (ret : ReturnCode) :
    (q.mirror pub).emit (.control msg ret) = (q.emit (.control msg ret)).mirror pub := by
  rw [emit, emit, mirror, mirror, List.filter_append]
  rfl

theorem mirror_emit_data (round : ℤ) (calls : List WriterCall) :
    (q.emit (.data round calls)).mirror pub = q.mirror pub := by
  rw [emit, mirror, mirror, List.filter_append]
  simp [PubEvent.isControl]

theorem mirror_finishTest : finishTest true (q.mirror pub) = (finishTest true q).mirror pub := by
  rw [finishTest, finishTest]
  change (if q.currentTest + 1 ≥ q.maxTest
      then makeFinalReport ({ q with currentTest := q.currentTest + 1 }.mirror pub) else _)
    = PubTest.mirror (if q.currentTest + 1 ≥ q.maxTest
      then makeFinalReport { q with currentTest := q.currentTest + 1 } else _) pub
  split_ifs
  · rw [makeFinalReport, makeFinalReport]
    by_cases hexport : q.exportResult = true
    · simp [mirror, hexport]
    · simp [mirror, hexport]
  · rfl

theorem mirror_resetTest : (q.mirror pub).resetTest io = (q.resetTest io).mirror pub := by
  rw [resetTest, resetTest, ← mirror_finishTest]
  change finishTest true (if q.currentTest ≤ q.maxTest then
      { (q.mirror pub).emit (.control (FastPubControl.stopMessage (q.currentTest + 1)) io.stopRet)
        with currentEntityId := 0, state := .Announce, reset := true } else q.mirror pub) = _
  rw [mirror_emit_control]
  split_ifs <;> rfl

theorem mirror_rearmed : (q.mirror pub).rearmed = q.rearmed.mirror pub := by
  rw [rearmed, rearmed]
  change (if q.state = .Announce then _ else _) = _
  split_ifs <;> rfl

theorem mirror_read : (q.mirror pub).read io = (q.read io).mirror pub := by
  rw [read_eq, read_eq, mirror_rearmed, mirror_resetTest]
  change (if q.reset then
      if q.currentCylesReset + 1 > q.offsetCylesReset then
        if q.rearmed.state = .Streaming then _ else _
      else _
    else _) = _
  split_ifs <;> rfl

theorem mirror_announce (h : pub.messagesPerCycle = q.pub.messagesPerCycle) :
    (q.mirror pub).announce io = (q.announce io).mirror pub := by
  rw [announce, announce, mirror_emit_control]
  change { (q.emit (.control (FastPubControl.startMessage (q.currentTest + 1)
    pub.messagesPerCycle (q.processType = .Loan)) io.startRet)).mirror pub with
      state := .Streaming } = _
  rw [h]
  rfl

theorem mirror_normalLoop (a : WriterAnswers) (k i : ℕ) :
    normalLoop a k i (q.mirror pub)
      = ((normalLoop a k i q).1, (normalLoop a k i q).2.1.mirror pub,
        (normalLoop a k i q).2.2) :=
  normalLoop_map (f := fun q ↦ q.mirror pub) (fun _ ↦ rfl) (fun _ ↦ rfl) (fun _ _ _ ↦ rfl) a k i q

theorem mirror_tick : (q.mirror pub).tick = q.tick.mirror pub := rfl

end Mirror

/-! ## The write phases of a log -/

section Phases

variable {mode : ProcessType} {n : ℕ} (q : PubTest) (io : PubAnswers)

theorem writePhases_concat (log : List (ℕ × PubEvent)) (e : ℕ × PubEvent) :
    writePhases mode n (log ++ [e]) = writePhases mode n log ++ (e.2.phase mode n).toList := by
  rw [writePhases, List.filterMap_append, writePhases]
  rcases h : e.2.phase mode n with _ | phase <;> simp [h]

theorem writePhases_finishTest :
    writePhases mode n (finishTest true q).log = writePhases mode n q.log := by
  obtain ⟨exec, exportResult, reports, hfinish⟩ := finishTest_frame q
  rw [hfinish]

theorem writePhases_resetTest :
    writePhases mode n (q.resetTest io).log = writePhases mode n q.log := by
  rw [resetTest, writePhases_finishTest]
  split_ifs
  · exact (writePhases_concat _ _).trans (List.append_nil _)
  · rfl

theorem writePhases_read : writePhases mode n (q.read io).log = writePhases mode n q.log := by
  obtain ⟨cyles, reset, send, hread | hread⟩ := read_cases io q
  · rw [hread]
  · rw [hread, writePhases_resetTest]

theorem settings_resetTest : (q.resetTest io).settings = q.settings := by
  rw [resetTest]
  split_ifs
  · obtain ⟨exec, exportResult, reports, hfinish⟩ := finishTest_frame
      { q.emit (.control (FastPubControl.stopMessage (q.currentTest + 1)) io.stopRet) with
        currentEntityId := 0
        state := .Announce
        reset := true }
    rw [hfinish]
    rfl
  · obtain ⟨exec, exportResult, reports, hfinish⟩ := finishTest_frame q
    rw [hfinish]
    rfl

theorem settings_read : (q.read io).settings = q.settings := by
  obtain ⟨cyles, reset, send, hread | hread⟩ := read_cases io q
  · rw [hread]
    rfl
  · rw [hread, settings_resetTest]
    rfl

/-- The calls of the normal mode: one for each slot the loop came to, all accepted if it came to
its end. -/
theorem normalLoop_calls (a : WriterAnswers) (k i : ℕ) :
    ((normalLoop a k i q).2.2.all fun c ↦ c.acceptedSample.isSome) = (normalLoop a k i q).1 := by
  induction k generalizing i q with
  | zero => rfl
  | succ k ih =>
    rw [normalLoop]
    by_cases hret : FastPub.publish (a.write i) = true
    · have hok : a.write i = RETCODE_OK := of_decide_eq_true hret
      have haccepted (entity : AirEntity) :
          (WriterCall.write none entity (a.write i)).acceptedSample.isSome = true := by
        rw [WriterCall.acceptedSample, if_pos hok, Option.isSome_some]
      simp only [hret, if_true, List.all_cons, ih, haccepted, Bool.true_and]
    · have hfail : ¬a.write i = RETCODE_OK := fun h ↦ hret (decide_eq_true h)
      simp [hret, WriterCall.acceptedSample, hfail]

end Phases

end PubTest

namespace IPubTest

variable {n : ℕ} {p : IPubTest} {io : IPubAnswers}

/-! ## A publisher that keeps the count -/

theorem afterCall_of_keeps {q : PubTest} (h : q.Counts n) {effect : ℤ → ℤ} (heffect : effect n = n) :
    q.afterCall effect = q := by
  rw [PubTest.afterCall, h.messagesPerCycle, heffect, ← h.messagesPerCycle]

theorem normalLoop_of_keeps (hio : Keeps n io) (ahead : List AirEntity) (i : ℕ) {q : PubTest}
    (h : q.Counts n) :
    normalLoop io ahead i q = normalLoop { io.toPubAnswers with } ahead i q := by
  induction ahead generalizing i q with
  | nil => rfl
  | cons entity ahead ih =>
    have hcounts : PubTest.Counts n { q with
        preAllocatedEntities := q.preAllocatedEntities.set i { entity with id := q.currentEntityId }
        currentEntityId := q.currentEntityId + 1 } := h.frame (by simp)
    rw [normalLoop, normalLoop]
    simp only
    rw [afterCall_of_keeps hcounts (hio.publish i), ih (i + 1) hcounts]
    rfl

/-- The loops of the two tests come to the same slots. -/
theorem normalLoop_touched (io : PubAnswers) {k i : ℕ} {q : PubTest}
    (hslots : q.preAllocatedEntities.length = i + k)
    (hcount : toSizeT q.pub.messagesPerCycle = i + k) :
    (normalLoop { io with } (q.preAllocatedEntities.drop i) i q).2.2
      = List.range' i (PubTest.normalLoop io.writer k i q).2.2.length := by
  induction k generalizing i q with
  | zero =>
    rw [List.drop_eq_nil_of_le (by omega), normalLoop]
    rfl
  | succ k ih =>
    have hi : i < q.preAllocatedEntities.length := by omega
    have hget : q.preAllocatedEntities.getD i default = q.preAllocatedEntities[i] := by
      rw [List.getD_eq_getElem?_getD, List.getElem?_eq_getElem hi, Option.getD_some]
    set written : PubTest := { q with
      preAllocatedEntities := q.preAllocatedEntities.set i
        { q.preAllocatedEntities[i] with id := q.currentEntityId }
      currentEntityId := q.currentEntityId + 1 } with hwritten
    have hahead : q.preAllocatedEntities.drop (i + 1)
        = written.preAllocatedEntities.drop (i + 1) := by
      rw [hwritten, List.drop_set_of_lt (Nat.lt_succ_self i)]
    have hrest := ih (i := i + 1) (q := written)
      (by rw [hwritten, List.length_set, hslots]; omega) (by rw [hwritten, hcount]; omega)
    rw [List.drop_eq_getElem_cons hi, normalLoop, if_pos (by omega), PubTest.normalLoop, hget,
      hahead]
    by_cases hret : FastPub.publish (io.writer.write i) = true
    · simp only [hret, if_true, List.length_cons, List.range'_succ]
      exact congrArg (i :: ·) hrest
    · simp only [hret]
      rfl

/-! ## The two tests side by side -/

/-- The test with any publisher is the mirror of the test with `FastPub`, and its write phases are
those of that test's log. -/
structure Mirrors (n : ℕ) (mode : ProcessType) (p : IPubTest) (q : PubTest) : Prop where
  test : ∃ pub, p.toPubTest = q.mirror pub
  phases : p.phases = writePhases mode n q.log
  agrees : p.CountsAgree n
  messagesPerCycle : q.settings.messagesPerCycle = n
  processType : q.settings.processType = mode

/-- The two tests after the same calls: both have returned, or the same exception has left both. -/
def Mirrored (n : ℕ) (mode : ProcessType) : Outcome IPubTest → Outcome PubTest → Prop
  | .ret p, .ret q => Mirrors n mode p q
  | .thrown what p, .thrown what' q => what = what' ∧ Mirrors n mode p q
  | .ret _, .thrown _ _ => False
  | .thrown _ _, .ret _ => False

variable {mode : ProcessType} {q : PubTest}

theorem Mirrors.read (h : Mirrors n mode p q) :
    Mirrors n mode (p.read io) (q.read io.toPubAnswers) := by
  obtain ⟨pub, htest⟩ := h.test
  have hread : (p.read io).toPubTest = (q.read io.toPubAnswers).mirror pub := by
    rw [IPubTest.read, htest, PubTest.mirror_read]
  exact {
    test := ⟨pub, hread⟩
    phases := h.phases.trans (PubTest.writePhases_read q _).symm
    agrees := ⟨h.agrees.counts.read, h.agrees.sends⟩
    messagesPerCycle := by rw [PubTest.settings_read, h.messagesPerCycle]
    processType := by rw [PubTest.settings_read, h.processType] }

theorem Mirrors.announce (h : Mirrors n mode p q) :
    Mirrors n mode { p with toPubTest := p.toPubTest.announce io.toPubAnswers }
      (q.announce io.toPubAnswers) := by
  obtain ⟨pub, htest⟩ := h.test
  have hcount : pub.messagesPerCycle = q.pub.messagesPerCycle := by
    have hp := h.agrees.counts.messagesPerCycle
    rw [htest] at hp
    exact hp.trans h.messagesPerCycle.symm
  exact {
    test := ⟨pub, by simp only [htest, PubTest.mirror_announce _ _ _ hcount]⟩
    phases := by
      refine h.phases.trans ?_
      exact ((PubTest.writePhases_concat _ _).trans (List.append_nil _)).symm
    agrees := ⟨h.agrees.counts.announce, h.agrees.sends⟩
    messagesPerCycle := h.messagesPerCycle
    processType := h.processType }

/-- A write phase, from what it makes of the two tests. -/
theorem Mirrors.wrote (h : Mirrors n mode p q) {p' : IPubTest} {q' : PubTest} {phase : WritePhase}
    {t : ℕ} {round : ℤ} {calls : List WriterCall} (htest : ∃ pub, p'.toPubTest = q'.mirror pub)
    (hphases : p'.phases = p.phases ++ [phase]) (hlog : q'.log = q.log ++ [(t, .data round calls)])
    (hphase : (PubEvent.data round calls).phase mode n = some phase) (hagrees : p'.CountsAgree n)
    (hsettings : q'.settings = q.settings) : Mirrors n mode p' q' where
  test := htest
  phases := by rw [hphases, hlog, PubTest.writePhases_concat, hphase, h.phases]; rfl
  agrees := hagrees
  messagesPerCycle := by rw [hsettings, h.messagesPerCycle]
  processType := by rw [hsettings, h.processType]

theorem Mirrors.streamNormal (h : Mirrors n .Normal p q) (hio : Keeps n io) :
    Mirrored n .Normal (p.streamNormal io) (q.streamNormal io.toPubAnswers) := by
  obtain ⟨pub, htest⟩ := h.test
  have hagrees := h.agrees.streamNormal hio
  have hslots : p.preAllocatedEntities.length = 0 + n := by rw [h.agrees.counts.slots, Nat.zero_add]
  have hcount : toSizeT p.pub.messagesPerCycle = 0 + n := by
    rw [h.agrees.counts.messagesPerCycle, toSizeT_natCast, Nat.zero_add]
  have hcount' : toSizeT q.pub.messagesPerCycle = n := by
    rw [show q.pub.messagesPerCycle = n from h.messagesPerCycle, toSizeT_natCast]
  obtain ⟨hloop, hend⟩ := normalLoop_eq io.toPubAnswers hslots hcount
  have htouched := normalLoop_touched io.toPubAnswers hslots hcount
  have hcalls := PubTest.normalLoop_calls q io.writer n 0
  obtain ⟨entities, id, hframe⟩ := PubTest.normalLoop_frame io.writer n 0 q
  have hmirror : PubTest.normalLoop io.writer n 0 p.toPubTest
      = ((PubTest.normalLoop io.writer n 0 q).1, (PubTest.normalLoop io.writer n 0 q).2.1.mirror pub,
        (PubTest.normalLoop io.writer n 0 q).2.2) := by
    rw [htest, PubTest.mirror_normalLoop]
  rw [List.drop_zero, hmirror] at hloop hend htouched
  rw [IPubTest.streamNormal, normalLoop_of_keeps hio _ _ h.agrees.counts] at hagrees ⊢
  rw [PubTest.streamNormal, hcount']
  generalize normalLoop { io.toPubAnswers with } p.preAllocatedEntities 0 p.toPubTest = r
    at hloop hend htouched hagrees ⊢
  generalize PubTest.normalLoop io.writer n 0 q = r' at hloop hend htouched hcalls hframe ⊢
  obtain ⟨ending, p', touched⟩ := r
  obtain ⟨ok, q', calls⟩ := r'
  simp only at hloop hend htouched hcalls hframe hagrees ⊢
  subst hloop hframe
  have hphase : (PubEvent.data (q.currentTest + 1) calls).phase .Normal n
      = some (.normal touched ending) := by
    rw [PubEvent.phase, hcalls, htouched, hend, List.range_eq_range']
  rcases ok with _ | _
  · rw [if_neg Bool.false_ne_true] at hend ⊢
    subst hend
    exact ⟨rfl, h.wrote ⟨pub, (PubTest.mirror_emit_data _ _ _ _).symm⟩ rfl rfl hphase hagrees rfl⟩
  · rw [if_pos rfl] at hend ⊢
    subst hend
    refine h.wrote ⟨pub, ?_⟩ rfl rfl hphase hagrees rfl
    exact congrArg (PubTest.streamed io.toPubAnswers) (PubTest.mirror_emit_data _ _ _ _).symm

theorem Mirrors.streamLoan (h : Mirrors n .Loan p q) (hio : Keeps n io) :
    Mirrored n .Loan (p.streamLoan io) (q.streamLoan io.toPubAnswers) := by
  obtain ⟨pub, htest⟩ := h.test
  have hcount : toSizeT p.pub.messagesPerCycle = n := by
    rw [h.agrees.counts.messagesPerCycle, toSizeT_natCast]
  have hagrees := h.agrees.streamLoan hio
  obtain ⟨pubId, hpub⟩ :=
    FastPub.publishLoan_frame io.writer (toSizeT q.pub.messagesPerCycle) q.pub
  rw [IPubTest.streamLoan, hcount, afterCall_of_keeps h.agrees.counts hio.publishLoan] at hagrees ⊢
  rw [PubTest.streamLoan]
  refine h.wrote ⟨pub, ?_⟩ rfl rfl rfl hagrees ?_
  · change p.toPubTest.streamed io.toPubAnswers
      = PubTest.streamed io.toPubAnswers ((PubTest.emit { q with pub := _ } _).mirror pub)
    rw [PubTest.mirror_emit_data, htest]
    rfl
  · rw [hpub]
    rfl

theorem Mirrors.warmed (h : Mirrors n mode p q) :
    Mirrors n mode { p with currentCycle := p.currentCycle + 1 }
      { q with currentCycle := q.currentCycle + 1 } := by
  obtain ⟨pub, htest⟩ := h.test
  refine ⟨⟨pub, ?_⟩, h.phases, ⟨h.agrees.counts.frame rfl, h.agrees.sends⟩, h.messagesPerCycle,
    h.processType⟩
  simp only [htest]
  rfl

theorem Mirrors.writeMatched (h : Mirrors n mode p q) (hio : Keeps n io)
    (hmatched : io.matched = true) (hsend : q.send = true) :
    Mirrored n mode (p.writeMatched io) (q.write io.toPubAnswers) := by
  obtain ⟨pub, htest⟩ := h.test
  have hstate : p.state = q.state := by rw [htest]; rfl
  have hmode : p.processType = mode := by rw [htest]; exact h.processType
  have hstarted : p.currentCycle < p.offsetCycleStart ↔ q.currentCycle < q.offsetCycleStart := by
    rw [htest]
    rfl
  rw [IPubTest.writeMatched]
  split
  · rename_i hs
    rw [hstate] at hs
    simp only
    split_ifs with hc
    · rw [PubTest.write_warming hsend hmatched hs (hstarted.mp hc)]
      exact h.warmed
    · rw [PubTest.write_announce hsend hmatched hs (not_lt.mp fun hc' ↦ hc (hstarted.mpr hc'))]
      exact h.warmed.announce
  · rename_i hs
    rw [hstate] at hs
    rw [PubTest.write_stream hsend hmatched hs]
    split
    · rename_i hnormal
      obtain rfl := hmode.symm.trans hnormal
      rw [PubTest.stream_normal h.processType]
      exact h.streamNormal hio
    · rename_i hloan
      obtain rfl := hmode.symm.trans hloan
      rw [PubTest.stream_loan h.processType]
      exact h.streamLoan hio
  · rename_i hs
    rw [hstate] at hs
    rw [PubTest.write_matched hsend hmatched, hs]
    exact h

theorem Mirrors.write (h : Mirrors n mode p q) (hio : Keeps n io) :
    Mirrored n mode (p.write io) (q.write io.toPubAnswers) := by
  obtain ⟨pub, htest⟩ := h.test
  have hsend : p.send = q.send := by rw [htest]; rfl
  rw [IPubTest.write, afterCall_of_keeps h.agrees.counts hio.isMatched]
  split_ifs with hunsent hunmatched
  · rw [PubTest.write_unsent (by simpa [hsend] using hunsent)]
    exact h
  · rw [← Bool.not_and, ← PubAnswers.matched, Bool.not_eq_true'] at hunmatched
    rw [PubTest.write_unmatched hunmatched]
    exact h
  · rw [← Bool.not_and, ← PubAnswers.matched, Bool.not_eq_true', Bool.not_eq_false] at hunmatched
    exact h.writeMatched hio hunmatched (by simpa [hsend] using hunsent)

theorem Mirrors.tick (h : Mirrors n mode p q) : Mirrors n mode p.tick q.tick := by
  obtain ⟨pub, htest⟩ := h.test
  refine ⟨⟨pub, ?_⟩, h.phases, ⟨h.agrees.counts.frame rfl, h.agrees.sends⟩, h.messagesPerCycle,
    h.processType⟩
  rw [IPubTest.tick, htest, PubTest.mirror_tick]

theorem Mirrors.pass (h : Mirrors n mode p q) (hio : Keeps n io) :
    Mirrored n mode (pass (.ret p) io) (PubTest.pass (.ret q) io.toPubAnswers) := by
  obtain ⟨pub, htest⟩ := h.test
  have hexec : p.exec = q.exec := by rw [htest]; rfl
  by_cases hrun : q.exec.currentState = .EXECUTION
  · rw [pass_ret io (hexec ▸ hrun), PubTest.pass_ret io.toPubAnswers hrun]
    have hread : Mirrors n mode (p.read io) (q.read io.toPubAnswers) := h.read
    have hwrite := hread.write hio
    generalize (p.read io).write io = o at hwrite ⊢
    generalize (q.read io.toPubAnswers).write io.toPubAnswers = o' at hwrite ⊢
    rcases o with p' | ⟨what, p'⟩ <;> rcases o' with q' | ⟨what', q'⟩
    · exact hwrite.tick
    · exact hwrite.elim
    · exact hwrite.elim
    · exact hwrite
  · have hrun' : p.exec.currentState ≠ .EXECUTION := hexec ▸ hrun
    rw [IPubTest.pass, PubTest.pass, mainPass_of_ended (w := p) _ hrun',
      mainPass_of_ended (w := q) _ hrun]
    exact h

theorem Mirrored.pass {o : Outcome IPubTest} {o' : Outcome PubTest} (h : Mirrored n mode o o')
    (hio : Keeps n io) : Mirrored n mode (pass o io) (PubTest.pass o' io.toPubAnswers) := by
  rcases o with p | ⟨what, p⟩ <;> rcases o' with q | ⟨what', q⟩
  · exact Mirrors.pass h hio
  · exact h.elim
  · exact h.elim
  · exact h

/-- The mirror shows the control topic as it is. -/
theorem Mirrored.controlSent_eq {o : Outcome IPubTest} {o' : Outcome PubTest}
    (h : Mirrored n mode o o') : controlSent o.world.log = controlSent o'.world.log := by
  have hmirrors : Mirrors n mode o.world o'.world := by
    rcases o with p | ⟨what, p⟩ <;> rcases o' with q | ⟨what', q⟩
    · exact h
    · exact h.elim
    · exact h.elim
    · exact h.2
  obtain ⟨pub, htest⟩ := hmirrors.test
  rw [htest]
  exact controlSent_filter _

/-! ## Runs -/

theorem mirrored_start {setExpectedSubs : ℤ → ℤ → ℤ} {pubInit : ℤ → ℤ} (config : MainTestConfig)
    (hn : config.messageCount = n)
    (hkeep : pubInit (setExpectedSubs config.listenerNumber n) = n) (reset : Bool) :
    Mirrored n (ProcessType.ofLoan config.loanMode) (start setExpectedSubs pubInit config reset)
      (PubTest.start config reset) := by
  set pub : FastPub := ((new setExpectedSubs config reset).toPubTest.afterCall pubInit).pub
    with hpub
  have hinit : ((new setExpectedSubs config reset).toPubTest.afterCall pubInit).init
      = .ret ({ PubTest.ready config reset with exec := {} }.mirror pub) := by
    apply if_neg
    change ¬config.messageCount < 0
    omega
  have hstart : start setExpectedSubs pubInit config reset
      = .ret { toPubTest := (PubTest.ready config reset).mirror pub } := by
    rw [start, Executive.init]
    simp only [callAll, clModule, init, hinit, Outcome.bind_ret]
    rfl
  have hcount : pub.messagesPerCycle = n := by
    rw [← hkeep, ← hn]
    rfl
  have hslots : (PubTest.ready config reset).preAllocatedEntities.length = n := by
    rw [PubTest.ready, List.length_replicate, hn, toSizeT_natCast]
  rw [hstart, PubTest.start_of_nonneg (by omega)]
  exact {
    test := ⟨pub, rfl⟩
    phases := rfl
    agrees := ⟨⟨hcount, hn, hslots, fun _ _ _ hmem ↦ absurd hmem List.not_mem_nil⟩,
      fun _ hmem ↦ absurd hmem List.not_mem_nil⟩
    messagesPerCycle := hn
    processType := rfl }

/-- **Any publisher.** The test with a publisher that leaves `messages_per_cycle` alone goes through
the states it goes through with `FastPub`, for the same answers, in every run: it writes the same
control messages with the same codes, counts, times and reports alike, ends in the same cycle and
by the same exception. Its publisher is given the write phases that `FastPub` goes through. -/
theorem any_publisher (setExpectedSubs : ℤ → ℤ → ℤ) (pubInit : ℤ → ℤ) (config : MainTestConfig)
    (n : ℕ) (hn : config.messageCount = n)
    (hkeep : pubInit (setExpectedSubs config.listenerNumber n) = n) (reset : Bool)
    (ios : List IPubAnswers) (hios : ∀ io ∈ ios, Keeps n io) :
    Mirrored n (ProcessType.ofLoan config.loanMode)
      (run pass (start setExpectedSubs pubInit config reset) ios)
      (run PubTest.pass (PubTest.start config reset) (ios.map IPubAnswers.toPubAnswers)) := by
  induction ios using List.reverseRecOn with
  | nil => exact mirrored_start config hn hkeep reset
  | append_singleton ios io ih =>
    rw [run_concat, List.map_append, List.map_singleton, run_concat]
    exact (ih fun io' hio' ↦ hios io' (List.mem_append_left _ hio')).pass
      (hios io (List.mem_append_right _ (List.mem_singleton_self io)))

/-- A publisher whose `publish_loan` does nothing, such as `OpenPub`, over the first announcement
and the write phase after it. -/
theorem any_publisher_loan : Mirrored 2 .Loan
    (run pass (start (fun _ messagesPerCycle ↦ messagesPerCycle) id
      { messageCount := 2, loanMode := true } false) (List.replicate 52 {}))
    (run PubTest.pass (PubTest.start { messageCount := 2, loanMode := true } false)
      ((List.replicate 52 {}).map IPubAnswers.toPubAnswers)) :=
  any_publisher (fun _ messagesPerCycle ↦ messagesPerCycle) id
    { messageCount := 2, loanMode := true } 2 rfl rfl false _ fun io hio ↦ by
      rw [List.eq_of_mem_replicate hio]
      exact ⟨rfl, fun _ ↦ rfl, rfl⟩

end IPubTest

end IndraDds
