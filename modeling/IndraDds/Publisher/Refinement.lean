import IndraDds.Publisher.Test
import IndraDds.Publisher.Protocol

/-!
# The publisher test follows the protocol

Each combination of flags the test can be in stands for a phase of the protocol, and a pass of the
loop of `main` moves it as the protocol moves (`Follows.pass`). The write results are arbitrary
here: they change what is written into the log, never when, and the only way to leave the protocol
is the exception of a failed `publish`.

`Passes` says what the same pass does to the record of the run, the members that say what has been
written and counted. Facts about the content of a run are proved against it.
-/

namespace IndraDds

open Transition

namespace PubEvent

/-- The act of the protocol that an event is. -/
def act : PubEvent → Act
  | control msg _ => if msg.start then .start msg.testId else .stop msg.testId
  | data round _ => .data round

def timedAct (e : ℕ × PubEvent) : ℕ × Act := (e.1, e.2.act)

end PubEvent

namespace PubTest

/-! ## The methods, case by case -/

section Methods

variable {p : PubTest} {io : PubAnswers}

theorem read_idle (h : p.reset = false) : p.read io = p := by
  rw [read, h]
  rfl

theorem read_waiting (h : p.reset = true) (hc : p.currentCylesReset < p.offsetCylesReset) :
    p.read io = { p with currentCylesReset := p.currentCylesReset + 1 } := by
  rw [read, if_pos h]
  exact if_neg (Int.not_lt.mpr hc)

theorem read_rearm (h : p.reset = true) (hc : p.currentCylesReset = p.offsetCylesReset)
    (hs : p.state = .Announce) :
    p.read io = { p with currentCylesReset := 0, reset := false, send := true } := by
  rw [read, if_pos h]
  simp [hc, hs]

theorem read_stop (h : p.reset = true) (hc : p.currentCylesReset = p.offsetCylesReset)
    (hs : p.state = .Streaming) :
    p.read io = { p with currentCylesReset := 0, reset := false }.resetTest io := by
  rw [read, if_pos h]
  simp [hc, hs]

/-- The round is stopped and counted, and the next one is announced after another wait. -/
def stopped (io : PubAnswers) (p : PubTest) : PubTest :=
  { p.emit (.control (FastPubControl.stopMessage (p.currentTest + 1)) io.stopRet) with
    currentEntityId := 0
    state := .Announce
    reset := true
    currentTest := p.currentTest + 1 }

theorem resetTest_of_le (io : PubAnswers) (h : p.currentTest ≤ p.maxTest) :
    p.resetTest io = if p.maxTest ≤ p.currentTest + 1 then (p.stopped io).makeFinalReport
      else p.stopped io := by
  rw [resetTest, if_pos h]
  rfl

theorem makeFinalReport_of_unreported (h : p.exportResult = true) :
    p.makeFinalReport = { p with
      exportResult := false
      reports := p.reports ++ [p.cpuTimes.values]
      exec := p.exec.requestSimulationEnd } := by
  rw [makeFinalReport, h]
  rfl

/-- The members that counting a round changes. -/
theorem finishTest_frame (p : PubTest) : ∃ exec exportResult reports,
    finishTest true p = { p with
      currentTest := p.currentTest + 1
      exec := exec
      exportResult := exportResult
      reports := reports } := by
  rw [finishTest]
  split_ifs
  · change ∃ exec exportResult reports,
      makeFinalReport { p with currentTest := p.currentTest + 1 } = _
    rw [makeFinalReport]
    split_ifs
    · exact ⟨_, _, _, rfl⟩
    · exact ⟨_, _, _, rfl⟩
  · exact ⟨_, _, _, rfl⟩

/-- The end of a wait, before a round is stopped. -/
def rearmed (p : PubTest) : PubTest :=
  if p.state = .Announce then { p with currentCylesReset := 0, reset := false, send := true }
  else { p with currentCylesReset := 0, reset := false }

theorem read_eq (io : PubAnswers) (p : PubTest) : p.read io = if p.reset then
    if p.currentCylesReset + 1 > p.offsetCylesReset then
      if p.rearmed.state = .Streaming then p.rearmed.resetTest io else p.rearmed
    else { p with currentCylesReset := p.currentCylesReset + 1 }
  else p := rfl

/-- `read` counts its cycles and sets its flags, and may stop the round after that. -/
theorem read_cases (io : PubAnswers) (p : PubTest) : ∃ cyles reset send,
    let q : PubTest := { p with currentCylesReset := cyles, reset := reset, send := send }
    p.read io = q ∨ p.read io = q.resetTest io := by
  rw [read]
  by_cases hreset : p.reset = true
  · rw [if_pos hreset]
    simp only
    split_ifs
    · exact ⟨_, _, _, .inr rfl⟩
    · exact ⟨_, _, _, .inl rfl⟩
    · exact ⟨_, _, _, .inr rfl⟩
    · exact ⟨_, _, _, .inl rfl⟩
    · exact ⟨_, _, _, .inl rfl⟩
  · rw [if_neg hreset]
    exact ⟨_, _, _, .inl rfl⟩

theorem write_unsent (h : p.send = false) : p.write io = .ret p := by
  rw [write, h]
  rfl

theorem write_unmatched (h : io.matched = false) : p.write io = .ret p := by
  have hunmatched : (!io.pubMatched || !io.controlMatched) = true := by
    rw [← Bool.not_and, ← PubAnswers.matched, h]
    rfl
  rw [write, hunmatched, if_pos rfl, ite_self]

theorem write_matched (hsend : p.send = true) (h : io.matched = true) :
    p.write io = match p.state with
      | .Announce =>
        if p.currentCycle < p.offsetCycleStart then .ret { p with currentCycle := p.currentCycle + 1 }
        else .ret ({ p with currentCycle := p.currentCycle + 1 }.announce io)
      | .Streaming => p.stream io
      | .WaitingMatch => .ret p := by
  have hmatched : (!io.pubMatched || !io.controlMatched) = false := by
    rw [← Bool.not_and, ← PubAnswers.matched, h]
    rfl
  rw [write, hsend, hmatched]
  rfl

theorem write_waitingMatch (hsend : p.send = true) (h : io.matched = true)
    (hs : p.state = .WaitingMatch) : p.write io = .ret p := by
  rw [write_matched hsend h, hs]

theorem write_warming (hsend : p.send = true) (h : io.matched = true) (hs : p.state = .Announce)
    (hc : p.currentCycle < p.offsetCycleStart) :
    p.write io = .ret { p with currentCycle := p.currentCycle + 1 } := by
  rw [write_matched hsend h, hs]
  exact if_pos hc

theorem write_announce (hsend : p.send = true) (h : io.matched = true) (hs : p.state = .Announce)
    (hc : p.offsetCycleStart ≤ p.currentCycle) :
    p.write io = .ret ({ p with currentCycle := p.currentCycle + 1 }.announce io) := by
  rw [write_matched hsend h, hs]
  exact if_neg (Int.not_lt.mpr hc)

theorem write_stream (hsend : p.send = true) (h : io.matched = true) (hs : p.state = .Streaming) :
    p.write io = p.stream io := by
  rw [write_matched hsend h, hs]

/-- The write phase of the normal mode commutes with a change of members that it does not touch. -/
theorem normalLoop_map {f : PubTest → PubTest}
    (hentities : ∀ p, (f p).preAllocatedEntities = p.preAllocatedEntities)
    (hid : ∀ p, (f p).currentEntityId = p.currentEntityId)
    (hf : ∀ p entities id, { f p with preAllocatedEntities := entities, currentEntityId := id }
      = f { p with preAllocatedEntities := entities, currentEntityId := id })
    (a : WriterAnswers) (k i : ℕ) (p : PubTest) :
    normalLoop a k i (f p)
      = ((normalLoop a k i p).1, f (normalLoop a k i p).2.1, (normalLoop a k i p).2.2) := by
  induction k generalizing i p with
  | zero => rfl
  | succ k ih =>
    rw [normalLoop, normalLoop]
    simp only [hentities, hid, hf, ih]
    split_ifs <;> rfl

/-- The members that the write phase of the normal mode changes. -/
theorem normalLoop_frame (a : WriterAnswers) (k i : ℕ) (p : PubTest) :
    ∃ entities id, (normalLoop a k i p).2.1
      = { p with preAllocatedEntities := entities, currentEntityId := id } := by
  induction k generalizing i p with
  | zero => exact ⟨_, _, rfl⟩
  | succ k ih =>
    rw [normalLoop]
    split_ifs
    · obtain ⟨entities, id, h⟩ := ih (i + 1) _
      exact ⟨entities, id, h⟩
    · exact ⟨_, _, rfl⟩

theorem normalLoop_succeeds {a : WriterAnswers} (h : ∀ i, a.write i = RETCODE_OK) (k i : ℕ)
    (p : PubTest) : (normalLoop a k i p).1 = true := by
  induction k generalizing i p with
  | zero => rfl
  | succ k ih =>
    rw [normalLoop, FastPub.publish, h, decide_eq_true rfl, if_pos rfl]
    exact ih _ _

end Methods

end PubTest

theorem FastPub.publishLoan_frame (a : WriterAnswers) (count : ℕ) (p : FastPub) :
    ∃ id, (p.publishLoan a count).2.1 = { p with currentId := id } := by
  rw [publishLoan]
  generalize 0 = i
  induction count generalizing i p with
  | zero => exact ⟨_, rfl⟩
  | succ k ih =>
    rw [publishLoanLoop]
    split_ifs
    · exact ⟨_, rfl⟩
    · exact ⟨_, rfl⟩
    · obtain ⟨id, h⟩ := ih { p with currentId := p.currentId + 1 } (i + 1)
      exact ⟨id, h⟩

namespace PubTest

/-- The test when the calls of a write phase have been made. -/
def wrote (p : PubTest) (entities : List AirEntity) (id pubId : ℤ) (calls : List WriterCall) :
    PubTest :=
  { p with
    preAllocatedEntities := entities
    currentEntityId := id
    pub := { p.pub with currentId := pubId } }.emit (.data (p.currentTest + 1) calls)

/-- A write phase changes these members alone, whether it returns or throws. -/
theorem stream_frame (p : PubTest) (io : PubAnswers) : ∃ entities id pubId calls,
    p.stream io = .ret ((p.wrote entities id pubId calls).streamed io) ∨
      ∃ what, p.stream io = .thrown what (p.wrote entities id pubId calls) := by
  obtain hmode | hmode := p.processType.normal_or_loan
  · obtain ⟨entities, id, hloop⟩ := normalLoop_frame io.writer (toSizeT p.pub.messagesPerCycle) 0 p
    rw [stream_normal hmode, streamNormal]
    refine ⟨entities, id, p.pub.currentId,
      (normalLoop io.writer (toSizeT p.pub.messagesPerCycle) 0 p).2.2, ?_⟩
    simp only [hloop]
    split_ifs
    · exact .inl rfl
    · exact .inr ⟨_, rfl⟩
  · obtain ⟨pubId, hpub⟩ :=
      FastPub.publishLoan_frame io.writer (toSizeT p.pub.messagesPerCycle) p.pub
    rw [stream_loan hmode, streamLoan]
    simp only [hpub]
    exact ⟨p.preAllocatedEntities, p.currentEntityId, pubId, _, .inl rfl⟩

/-- A write phase adds its event to the log, also if it throws, and counts nothing. -/
theorem stream_world (p : PubTest) (io : PubAnswers) : ∃ calls,
    (p.stream io).world.log = p.log ++ [(p.exec.currentCycle, .data (p.currentTest + 1) calls)] ∧
      (p.stream io).world.currentTest = p.currentTest ∧
      (p.stream io).world.reports = p.reports := by
  obtain ⟨entities, id, pubId, calls, hs | ⟨what, hs⟩⟩ := stream_frame p io
  · rw [hs]
    exact ⟨calls, rfl, rfl, rfl⟩
  · rw [hs]
    exact ⟨calls, rfl, rfl, rfl⟩

theorem stream_thrown {p q : PubTest} {io : PubAnswers} {what : String}
    (h : p.stream io = .thrown what q) :
    p.processType = .Normal ∧ ¬∀ i, io.writer.write i = RETCODE_OK := by
  obtain hmode | hmode := p.processType.normal_or_loan
  · refine ⟨hmode, fun hok ↦ ?_⟩
    rw [stream_normal hmode, streamNormal] at h
    simp only [normalLoop_succeeds hok, if_true] at h
    exact absurd h (by simp)
  · rw [stream_loan hmode, streamLoan] at h
    exact absurd h (by simp)

/-! ## Flags and phases -/

/-- The members that no method changes. -/
structure Settings where
  maxTest : ℤ
  processType : ProcessType
  messagesPerCycle : ℤ
  offsetCylesReset : ℤ
  offsetCycleStart : ℤ

def settings (p : PubTest) : Settings where
  maxTest := p.maxTest
  processType := p.processType
  messagesPerCycle := p.pub.messagesPerCycle
  offsetCylesReset := p.offsetCylesReset
  offsetCycleStart := p.offsetCycleStart

/-- The flags of a phase. While the protocol announces, `reset` may still be set from a constructor
that left it so; it is cleared after six cycles, long before the warm-up is over. -/
def Flags (warm : ℕ) (p : PubTest) : Phase → Prop
  | .announcing => p.state = .Announce ∧ p.send = true ∧ p.currentEntityId = 0 ∧
      (p.reset = false ∧ p.currentCylesReset = 0 ∨
        p.reset = true ∧ warm ≤ p.currentCylesReset ∧ p.currentCylesReset ≤ 5)
  | .streaming => p.state = .Streaming ∧ p.send = true ∧ p.currentEntityId = 0 ∧
      p.reset = false ∧ p.currentCylesReset = 0
  | .draining j => p.state = .Streaming ∧ p.send = false ∧ p.reset = true ∧
      p.currentCylesReset = j
  | .cooling j => p.state = .Announce ∧ p.send = false ∧ p.currentEntityId = 0 ∧
      p.reset = true ∧ p.currentCylesReset = j
  | .finished => p.send = false

/-- The test is where the protocol is. -/
structure Follows (N n : ℕ) (mode : ProcessType) (p : PubTest) (a : Proto) : Prop where
  settings : p.settings = ⟨N, mode, n, 5, 50⟩
  currentTest : p.currentTest = a.round
  currentCycle : p.currentCycle = a.warm
  time : p.exec.currentCycle = a.time
  flags : p.Flags a.warm a.phase
  running : p.exec.currentState = if a.phase = .finished then .END else .EXECUTION
  unreported : a.phase ≠ .finished → p.exportResult = true
  log : p.log.map PubEvent.timedAct = a.log

namespace Follows

variable {N n : ℕ} {mode : ProcessType} {p : PubTest} {a : Proto}

theorem maxTest (h : Follows N n mode p a) : p.maxTest = N := congrArg Settings.maxTest h.settings

theorem processType (h : Follows N n mode p a) : p.processType = mode :=
  congrArg Settings.processType h.settings

theorem messagesPerCycle (h : Follows N n mode p a) : p.pub.messagesPerCycle = n :=
  congrArg Settings.messagesPerCycle h.settings

theorem offsetCylesReset (h : Follows N n mode p a) : p.offsetCylesReset = 5 :=
  congrArg Settings.offsetCylesReset h.settings

theorem offsetCycleStart (h : Follows N n mode p a) : p.offsetCycleStart = 50 :=
  congrArg Settings.offsetCycleStart h.settings

theorem inExecution (h : Follows N n mode p a) (ha : a.phase ≠ .finished) :
    p.exec.currentState = .EXECUTION := by
  rw [h.running, if_neg ha]

end Follows

/-- The record of the run: what has been written, measured and counted. -/
structure Record where
  log : List (ℕ × PubEvent)
  cpuTimes : Distribution
  pub : FastPub
  currentEntityId : ℤ
  currentTest : ℤ
  reports : List (List ℚ)

def record (p : PubTest) : Record where
  log := p.log
  cpuTimes := p.cpuTimes
  pub := p.pub
  currentEntityId := p.currentEntityId
  currentTest := p.currentTest
  reports := p.reports

/-- The record after a round is announced. -/
def Record.started (r : Record) (time : ℕ) (msg : TestControl) (ret : ReturnCode) : Record :=
  { r with log := r.log ++ [(time, .control msg ret)] }

/-- The record after the round is stopped and counted. -/
def Record.stopped (r : Record) (time : ℕ) (ret : ReturnCode) (last : Bool) : Record :=
  { r with
    log := r.log ++ [(time, .control (FastPubControl.stopMessage (r.currentTest + 1)) ret)]
    currentEntityId := 0
    currentTest := r.currentTest + 1
    reports := if last then r.reports ++ [r.cpuTimes.values] else r.reports }

/-- What a pass does to the record, by the phase it starts in. -/
inductive Passes (N n : ℕ) (mode : ProcessType) (io : PubAnswers) (p : PubTest) (a : Proto) :
    Outcome PubTest → Prop where
  | wait (q : PubTest) (h : q.record = p.record) : Passes N n mode io p a (.ret q)
  | start (q : PubTest) (hp : a.Armed) (hw : 50 ≤ a.warm) (hm : io.matched = true)
      (h : q.record = p.record.started a.time
        (FastPubControl.startMessage (a.round + 1) n (mode = .Loan)) io.startRet) :
      Passes N n mode io p a (.ret q)
  | stream (q s : PubTest) (hp : a.phase = .streaming) (hm : io.matched = true)
      (hs : p.stream io = .ret s) (h : q.record = s.record) : Passes N n mode io p a (.ret q)
  | throw (what : String) (q : PubTest) (hp : a.phase = .streaming)
      (hs : p.stream io = .thrown what q) : Passes N n mode io p a (.thrown what q)
  | stop (q : PubTest) (hp : a.phase = .draining 5)
      (h : q.record = p.record.stopped a.time io.stopRet (N ≤ a.round + 1)) :
      Passes N n mode io p a (.ret q)

/-! ## One pass -/

section Pass

variable {N n : ℕ} {mode : ProcessType} {p : PubTest} {a : Proto} {io : PubAnswers}

/-- An entry of the log is an entry of the protocol's log. -/
theorem Follows.log_emit (h : Follows N n mode p a) (e : PubEvent) {x : Act} (hx : e.act = x) :
    (p.emit e).log.map PubEvent.timedAct = (a.act x).log := by
  rw [emit, List.map_append, h.log, ← hx, Proto.log_act, ← h.time]
  rfl

theorem Follows.tick (h : Follows N n mode p a) :
    Follows N n mode p.tick { a with time := a.time + 1 } :=
  ⟨h.settings, h.currentTest, h.currentCycle, congrArg (· + 1) h.time, h.flags, h.running,
    h.unreported, h.log⟩

/-- A read that only moves the reset counter and the flags it guards. -/
theorem Follows.with_flags {r s : Bool} {c : ℤ} {ph : Phase} (h : Follows N n mode p a)
    (ha : a.phase ≠ .finished) (hph : ph ≠ .finished)
    (hflags : Flags a.warm { p with reset := r, currentCylesReset := c, send := s } ph) :
    Follows N n mode { p with reset := r, currentCylesReset := c, send := s }
      { a with phase := ph } where
  settings := h.settings
  currentTest := h.currentTest
  currentCycle := h.currentCycle
  time := h.time
  flags := hflags
  running := (h.inExecution ha).trans (if_neg hph).symm
  unreported := fun _ ↦ h.unreported ha
  log := h.log

/-- The read of a cycle in which an announcement is due. A reset that is still counting has counted
every announcing cycle. -/
theorem Follows.read_armed (h : Follows N n mode p a) (io : PubAnswers) (ha : a.Armed) :
    Follows N n mode (p.read io) { a with phase := .announcing } ∧
      (p.read io).record = p.record ∧
      ((p.read io).reset = true → (a.warm : ℤ) + 1 ≤ (p.read io).currentCylesReset) := by
  have hflags := h.flags
  have hne := ha.ne_finished
  rcases ha with ha | ha
  · rw [ha] at hflags
    obtain ⟨hstate, hsend, hid, ⟨hr, hc⟩ | ⟨hr, hw, hc⟩⟩ := hflags
    · rw [read_idle hr]
      refine ⟨h.with_flags hne (by simp) ⟨hstate, hsend, hid, .inl ⟨hr, hc⟩⟩, rfl,
        fun hreset ↦ ?_⟩
      rw [hr] at hreset
      exact absurd hreset (by simp)
    · by_cases hlast : p.currentCylesReset = p.offsetCylesReset
      · rw [read_rearm hr hlast hstate]
        exact ⟨h.with_flags hne (by simp)
          ⟨hstate, rfl, hid, .inl ⟨rfl, rfl⟩⟩, rfl, by simp⟩
      · rw [h.offsetCylesReset] at hlast
        rw [read_waiting hr (by rw [h.offsetCylesReset]; omega)]
        refine ⟨h.with_flags hne (by simp)
          ⟨hstate, hsend, hid, .inr ⟨hr, ?_, ?_⟩⟩, rfl, fun _ ↦ ?_⟩
        all_goals simp only
        all_goals omega
  · rw [ha] at hflags
    obtain ⟨hstate, -, hid, hr, hc⟩ := hflags
    rw [read_rearm hr (hc.trans h.offsetCylesReset.symm) hstate]
    exact ⟨h.with_flags hne (by simp) ⟨hstate, rfl, hid, .inl ⟨rfl, rfl⟩⟩, rfl,
      (by simp)⟩

/-- What a pass has to do: move as the protocol does, and do to the record what the phase says. -/
structure Advances (N n : ℕ) (mode : ProcessType) (io : PubAnswers) (p : PubTest) (a b : Proto)
    (o : Outcome PubTest) : Prop where
  follows : ∀ q, o = .ret q → Follows N n mode q b
  passes : Passes N n mode io p a o

theorem Advances.of_ret {b : Proto} {q : PubTest} (hq : Follows N n mode q b)
    (h : Passes N n mode io p a (.ret q)) : Advances N n mode io p a b (.ret q) :=
  ⟨fun _ he ↦ Outcome.ret.inj he ▸ hq, h⟩

theorem Advances.of_thrown {b : Proto} {what : String} {q : PubTest}
    (h : Passes N n mode io p a (.thrown what q)) : Advances N n mode io p a b (.thrown what q) :=
  ⟨fun _ he ↦ absurd he (by simp), h⟩

theorem Follows.pass_unannounced (h : Follows N n mode p a) (ha : a.Armed)
    (hm : io.matched = false) : Advances N n mode io p a
      { a with phase := .announcing, time := a.time + 1 } (pass (.ret p) io) := by
  obtain ⟨hread, hrec, -⟩ := h.read_armed io ha
  rw [pass_ret io (h.inExecution ha.ne_finished), write_unmatched hm, Outcome.bind_ret]
  exact .of_ret hread.tick (.wait _ hrec)

theorem Follows.pass_warming (h : Follows N n mode p a) (ha : a.phase = .announcing)
    (hw : a.warm < 50) (hm : io.matched = true) : Advances N n mode io p a
      { a with phase := .announcing, warm := a.warm + 1, time := a.time + 1 }
      (pass (.ret p) io) := by
  obtain ⟨hread, hrec, hwarm⟩ := h.read_armed io (.inl ha)
  obtain ⟨hstate, hsend, hid, hreset⟩ := hread.flags
  have hlt : (p.read io).currentCycle < (p.read io).offsetCycleStart := by
    rw [hread.currentCycle, hread.offsetCycleStart]
    exact Int.ofNat_lt.mpr hw
  have hne : a.phase ≠ .finished := by rw [ha]; simp
  rw [pass_ret io (h.inExecution hne), write_warming hsend hm hstate hlt, Outcome.bind_ret]
  have hwrite : Follows N n mode
      { p.read io with currentCycle := (p.read io).currentCycle + 1 }
      { a with phase := .announcing, warm := a.warm + 1 } :=
    ⟨hread.settings, hread.currentTest, congrArg (· + 1) hread.currentCycle, hread.time,
      ⟨hstate, hsend, hid, hreset.imp_right fun h ↦ ⟨h.1, hwarm h.1, h.2.2⟩⟩, hread.running,
      hread.unreported, hread.log⟩
  exact .of_ret hwrite.tick (.wait _ hrec)

/-- The announcement that is due, with the cycle counted. -/
theorem Follows.announced (h : Follows N n mode p { a with phase := .announcing })
    (hreset : p.reset = false) (hcyles : p.currentCylesReset = 0) :
    Follows N n mode ({ p with currentCycle := p.currentCycle + 1 }.announce io)
      { a.act (.start (a.round + 1)) with phase := .streaming, warm := a.warm + 1 } := by
  obtain ⟨-, hsend, hid, -⟩ := h.flags
  exact ⟨h.settings, h.currentTest, congrArg (· + 1) h.currentCycle, h.time,
    ⟨rfl, hsend, hid, hreset, hcyles⟩, h.running, fun _ ↦ h.unreported (by simp),
    h.log_emit _ (congrArg (fun k : ℤ ↦ Act.start (k + 1)) h.currentTest)⟩

/-- What it does to the record. -/
theorem Follows.record_announce (h : Follows N n mode p { a with phase := .announcing }) :
    ({ p with currentCycle := p.currentCycle + 1 }.announce io).record
      = p.record.started a.time (FastPubControl.startMessage (a.round + 1) n (mode = .Loan))
        io.startRet := by
  have hrecord : ({ p with currentCycle := p.currentCycle + 1 }.announce io).record
      = p.record.started p.exec.currentCycle (FastPubControl.startMessage (p.currentTest + 1)
        p.pub.messagesPerCycle (p.processType = .Loan)) io.startRet := rfl
  rw [hrecord, h.time, h.currentTest, h.messagesPerCycle, h.processType]

theorem Follows.pass_start (h : Follows N n mode p a) (ha : a.Armed) (hw : 50 ≤ a.warm)
    (hm : io.matched = true) : Advances N n mode io p a
      { a.act (.start (a.round + 1)) with
        phase := .streaming, warm := a.warm + 1, time := a.time + 1 }
      (pass (.ret p) io) := by
  obtain ⟨hread, hrec, hwarm⟩ := h.read_armed io ha
  obtain ⟨hstate, hsend, hid, ⟨hr, hc⟩ | ⟨hr, -, hc⟩⟩ := hread.flags
  · have hle : (p.read io).offsetCycleStart ≤ (p.read io).currentCycle := by
      rw [hread.currentCycle, hread.offsetCycleStart]
      exact Int.ofNat_le.mpr hw
    rw [pass_ret io (h.inExecution ha.ne_finished), write_announce hsend hm hstate hle,
      Outcome.bind_ret]
    refine .of_ret (hread.announced hr hc).tick (.start _ ha hw hm ?_)
    rw [← hrec]
    exact hread.record_announce
  · have hcount := hwarm hr
    omega

theorem Follows.pass_unsent (h : Follows N n mode p a) (ha : a.phase = .streaming)
    (hm : io.matched = false) : Advances N n mode io p a { a with time := a.time + 1 }
      (pass (.ret p) io) := by
  have hflags := h.flags
  rw [ha] at hflags
  have hne : a.phase ≠ .finished := by rw [ha]; simp
  rw [pass_ret io (h.inExecution hne), read_idle hflags.2.2.2.1, write_unmatched hm,
    Outcome.bind_ret]
  exact .of_ret h.tick (.wait _ rfl)

theorem Follows.pass_stream (h : Follows N n mode p a) (ha : a.phase = .streaming)
    (hm : io.matched = true) : Advances N n mode io p a
      { a.act (.data (a.round + 1)) with phase := .draining 0, time := a.time + 1 }
      (pass (.ret p) io) := by
  have hflags := h.flags
  rw [ha] at hflags
  obtain ⟨hstate, hsend, hid, hr, hc⟩ := hflags
  have hne : a.phase ≠ .finished := by rw [ha]; simp
  rw [pass_ret io (h.inExecution hne), read_idle hr, write_stream hsend hm hstate]
  obtain ⟨entities, id, pubId, calls, hs | ⟨what, hs⟩⟩ := stream_frame p io
  · have hfollows : Follows N n mode ((p.wrote entities id pubId calls).streamed io)
        { a.act (.data (a.round + 1)) with phase := .draining 0 } :=
      ⟨h.settings, h.currentTest, h.currentCycle, h.time, ⟨hstate, rfl, rfl, hc⟩,
        h.inExecution hne, fun _ ↦ h.unreported hne,
        h.log_emit _ (congrArg (fun k : ℤ ↦ Act.data (k + 1)) h.currentTest)⟩
    rw [hs, Outcome.bind_ret]
    exact .of_ret hfollows.tick (.stream _ _ ha hm hs rfl)
  · rw [hs, Outcome.bind_thrown]
    exact .of_thrown (.throw what _ ha hs)

/-- The two phases that wait for six cycles count them alike. -/
theorem Flags.wait {warm j : ℕ} {phase : ℕ → Phase}
    (hphase : phase = .draining ∨ phase = .cooling) (h : p.Flags warm (phase j)) :
    p.send = false ∧ p.reset = true ∧ p.currentCylesReset = j ∧
      Flags warm { p with currentCylesReset := p.currentCylesReset + 1 } (phase (j + 1)) := by
  rcases hphase with rfl | rfl
  · obtain ⟨hstate, hsend, hr, hc⟩ := h
    exact ⟨hsend, hr, hc, hstate, hsend, hr, congrArg (· + 1) hc⟩
  · obtain ⟨hstate, hsend, hid, hr, hc⟩ := h
    exact ⟨hsend, hr, hc, hstate, hsend, hid, hr, congrArg (· + 1) hc⟩

theorem Follows.pass_wait {j : ℕ} {phase : ℕ → Phase} (h : Follows N n mode p a)
    (hphase : phase = .draining ∨ phase = .cooling) (ha : a.phase = phase j) (hj : j < 5) :
    Advances N n mode io p a { a with phase := phase (j + 1), time := a.time + 1 }
      (pass (.ret p) io) := by
  have hphase_ne : ∀ k, phase k ≠ .finished := by
    rcases hphase with rfl | rfl <;> simp
  have hne : a.phase ≠ .finished := ha ▸ hphase_ne j
  have hflags := h.flags
  rw [ha] at hflags
  obtain ⟨hsend, hr, hc, hnext⟩ := Flags.wait hphase hflags
  have hlt : p.currentCylesReset < p.offsetCylesReset := by
    rw [hc, h.offsetCylesReset]
    exact Int.ofNat_lt.mpr hj
  have hread : Follows N n mode { p with currentCylesReset := p.currentCylesReset + 1 }
      { a with phase := phase (j + 1) } := h.with_flags hne (hphase_ne (j + 1)) hnext
  have hwrite : write io { p with currentCylesReset := p.currentCylesReset + 1 }
      = .ret { p with currentCylesReset := p.currentCylesReset + 1 } := write_unsent hsend
  rw [pass_ret io (h.inExecution hne), read_waiting hr hlt, hwrite, Outcome.bind_ret]
  exact .of_ret hread.tick (.wait _ rfl)

/-- The read that stops a round, and ends the run if it was the last. -/
theorem Follows.read_stop (h : Follows N n mode p a) (io : PubAnswers) (ha : a.phase = .draining 5)
    (hround : a.round < N) : Follows N n mode (p.read io)
        { a.act (.stop (a.round + 1)) with
          round := a.round + 1, phase := if N ≤ a.round + 1 then .finished else .cooling 0 } ∧
      (p.read io).record = p.record.stopped a.time io.stopRet (N ≤ a.round + 1) ∧
      (p.read io).send = false := by
  have hne : a.phase ≠ .finished := by rw [ha]; simp
  have hflags := h.flags
  rw [ha] at hflags
  obtain ⟨hstate, hsend, hr, hc⟩ := hflags
  have hcount : p.currentTest + 1 = ((a.round + 1 : ℕ) : ℤ) := by
    rw [h.currentTest]
    rfl
  have hle : p.currentTest ≤ p.maxTest := by
    rw [h.currentTest, h.maxTest]
    exact Int.ofNat_le.mpr (Nat.le_of_lt hround)
  have hlast : p.maxTest ≤ p.currentTest + 1 ↔ N ≤ a.round + 1 := by
    rw [hcount, h.maxTest]
    exact Int.ofNat_le
  have hlog : (p.emit (.control (FastPubControl.stopMessage (p.currentTest + 1))
      io.stopRet)).log.map PubEvent.timedAct = (a.act (.stop (a.round + 1))).log :=
    h.log_emit _ (congrArg (fun k : ℤ ↦ Act.stop (k + 1)) h.currentTest)
  have hreset := (PubTest.read_stop hr (hc.trans h.offsetCylesReset.symm) hstate).trans
    (resetTest_of_le io hle)
  by_cases hN : N ≤ a.round + 1
  · have hread : p.read io = { p.stopped io with
        currentCylesReset := 0
        exportResult := false
        reports := p.reports ++ [p.cpuTimes.values]
        exec := p.exec.requestSimulationEnd } := by
      rw [hreset]
      refine (if_pos (hlast.mpr hN)).trans ?_
      exact makeFinalReport_of_unreported (h.unreported hne)
    rw [hread, ← h.time, decide_eq_true hN, if_pos hN]
    exact ⟨⟨h.settings, hcount, h.currentCycle, h.time, hsend, rfl, fun hph ↦ absurd rfl hph, hlog⟩,
      rfl, hsend⟩
  · have hread : p.read io = { p.stopped io with currentCylesReset := 0 } := by
      rw [hreset]
      exact if_neg (hlast.not.mpr hN)
    rw [hread, ← h.time, decide_eq_false hN, if_neg hN]
    exact ⟨⟨h.settings, hcount, h.currentCycle, h.time, ⟨rfl, hsend, rfl, rfl, rfl⟩,
      h.inExecution hne, fun _ ↦ h.unreported hne, hlog⟩, rfl, hsend⟩

theorem Follows.pass_stop (h : Follows N n mode p a) (ha : a.phase = .draining 5)
    (hround : a.round < N) : Advances N n mode io p a
      { a.act (.stop (a.round + 1)) with
        round := a.round + 1
        phase := if N ≤ a.round + 1 then .finished else .cooling 0
        time := a.time + 1 } (pass (.ret p) io) := by
  obtain ⟨hread, hrec, hsend⟩ := h.read_stop io ha hround
  have hne : a.phase ≠ .finished := by rw [ha]; simp
  rw [pass_ret io (h.inExecution hne), write_unsent hsend, Outcome.bind_ret]
  exact .of_ret hread.tick (.stop _ ha hrec)

theorem Follows.pass_ended (h : Follows N n mode p a) (ha : a.phase = .finished) :
    Advances N n mode io p a a (pass (.ret p) io) := by
  have hend : p.exec.currentState ≠ .EXECUTION := by
    rw [h.running, if_pos ha]
    simp
  rw [PubTest.pass, mainPass_of_ended (w := p) _ hend]
  exact .of_ret h (.wait _ rfl)

/-- **The simulation.** -/
theorem Follows.pass (h : Follows N n mode p a) (hv : a.Valid N) (io : PubAnswers) :
    Advances N n mode io p a (a.step N io.matched) (pass (.ret p) io) := by
  have hmove := Proto.step_move hv io.matched
  generalize hm : io.matched = m at hmove
  generalize a.step N m = b at hmove
  cases hmove with
  | idle ha => exact h.pass_ended ha
  | unannounced ha => exact h.pass_unannounced ha hm
  | warming ha hw => exact h.pass_warming ha hw hm
  | start ha hw => exact h.pass_start ha hw hm
  | unsent ha => exact h.pass_unsent ha hm
  | data ha => exact h.pass_stream ha hm
  | drain ha hj => exact h.pass_wait (.inl rfl) ha hj
  | stop ha =>
    rw [Proto.Valid, ha] at hv
    exact h.pass_stop ha hv.1
  | cool ha hj => exact h.pass_wait (.inr rfl) ha hj

/-- The cycles lost to a missing match are the same. -/
theorem Follows.blocked_eq (h : Follows N n mode p a) (hv : a.Valid N) (io : PubAnswers) :
    blocked (.ret p) io = a.blocked io.matched := by
  have hflags := h.flags
  have hrunning := h.running
  rw [blocked, Executive.inExecution, hrunning, Proto.blocked]
  cases ha : a.phase with
  | announcing =>
    obtain ⟨hread, -, -⟩ := h.read_armed io (.inl ha)
    rw [hread.flags.2.1]
    simp
  | streaming =>
    rw [ha] at hflags
    rw [read_idle hflags.2.2.2.1, hflags.2.1]
    simp
  | draining j =>
    rw [Proto.Valid, ha] at hv
    by_cases hj : j < 5
    · rw [ha] at hflags
      rw [read_waiting hflags.2.2.1 (by rw [hflags.2.2.2, h.offsetCylesReset]; omega)]
      simp [hflags.2.1]
    · obtain rfl : j = 5 := by omega
      obtain ⟨-, -, hsend⟩ := h.read_stop io ha hv.1
      simp [hsend]
  | cooling j =>
    rw [Proto.Valid, ha] at hv
    by_cases hj : j < 5
    · rw [ha] at hflags
      rw [read_waiting hflags.2.2.2.1 (by rw [hflags.2.2.2.2, h.offsetCylesReset]; omega)]
      simp [hflags.2.1]
      omega
    · obtain rfl : j = 5 := by omega
      obtain ⟨hread, -, -⟩ := h.read_armed io (.inr ha)
      rw [hread.flags.2.1]
      simp
  | finished => simp

end Pass

/-! ## Runs -/

section Run

variable {config : MainTestConfig} {reset : Bool}

/-- The test that enters the loop of `main`. -/
def ready (config : MainTestConfig) (reset : Bool) : PubTest :=
  { new config reset with
    preAllocatedEntities := List.replicate (toSizeT config.messageCount) default
    cpuTimes := { nameDistribution := "CPU TIME" }
    send := true
    state := .Announce
    exec := { currentState := .EXECUTION } }

theorem start_of_nonneg (h : 0 ≤ config.messageCount) :
    start config reset = .ret (ready config reset) := by
  have hinit : init (new config reset) = .ret { ready config reset with exec := {} } :=
    if_neg (Int.not_lt.mpr h)
  rw [start, Executive.init]
  simp only [callAll, clModule, hinit, Outcome.bind_ret]
  rfl

theorem start_of_neg (h : config.messageCount < 0) :
    start config reset = .thrown "vector::_M_default_append" (new config reset) := by
  have hinit : init (new config reset) = .thrown "vector::_M_default_append" (new config reset) :=
    if_pos h
  rw [start, Executive.init]
  simp only [callAll, clModule, hinit, Outcome.bind_thrown]

/-- A process that could not initialise its test is gone. -/
theorem run_of_neg (h : config.messageCount < 0) (ios : List PubAnswers) :
    run pass (start config reset) ios
      = .thrown "vector::_M_default_append" (new config reset) :=
  run_invariant (I := (· = Outcome.thrown "vector::_M_default_append" (new config reset)))
    (start_of_neg h) (fun _ io ho ↦ by rw [ho, pass_thrown]) ios

@[simp] theorem log_ready : (ready config reset).record.log = [] := rfl

@[simp] theorem reports_ready : (ready config reset).record.reports = [] := rfl

theorem follows_ready {N n : ℕ} (hN : config.testCount = N) (hn : config.messageCount = n) :
    Follows N n (ProcessType.ofLoan config.loanMode) (ready config reset) {} where
  settings := by
    rw [← hN, ← hn]
    rfl
  currentTest := rfl
  currentCycle := rfl
  time := rfl
  flags := by
    refine ⟨rfl, rfl, rfl, ?_⟩
    cases reset with
    | false => exact .inl ⟨rfl, rfl⟩
    | true => exact .inr ⟨rfl, Int.le_refl 0, Int.ofNat_le.mpr (Nat.zero_le 5)⟩
  running := rfl
  unreported := fun _ ↦ rfl
  log := rfl

variable {N n : ℕ} (hpos : 1 ≤ N) (hN : config.testCount = N) (hn : config.messageCount = n)

include hpos hN hn

theorem run_follows {ios : List PubAnswers} {p : PubTest}
    (h : run pass (start config reset) ios = .ret p) :
    Follows N n (ProcessType.ofLoan config.loanMode) p
      (run (Proto.step N) {} (ios.map PubAnswers.matched)) := by
  induction ios using List.reverseRecOn generalizing p with
  | nil =>
    rw [run_nil, start_of_nonneg (by omega)] at h
    exact Outcome.ret.inj h ▸ follows_ready hN hn
  | append_singleton ios io ih =>
    rw [run_concat] at h
    cases ho : run pass (start config reset) ios with
    | ret q =>
      rw [ho] at h
      rw [List.map_append, List.map_singleton, run_concat]
      exact ((ih ho).pass (Proto.valid_run hpos _) io).follows p h
    | thrown what q =>
      rw [ho, pass_thrown] at h
      exact absurd h (by simp)

/-- **The publisher's run rule.** A predicate of the schedule and the outcome so far is kept if
every pass keeps it from a state that follows the protocol. -/
theorem publisher_induction (reset : Bool) {P : List PubAnswers → Outcome PubTest → Prop}
    (h0 : P [] (.ret (ready config reset)))
    (hstep : ∀ ios io p o, P ios (.ret p) → run pass (start config reset) ios = .ret p →
      Follows N n (ProcessType.ofLoan config.loanMode) p
        (run (Proto.step N) {} (ios.map PubAnswers.matched)) →
      Passes N n (ProcessType.ofLoan config.loanMode) io p
        (run (Proto.step N) {} (ios.map PubAnswers.matched)) o →
      P (ios ++ [io]) o)
    (hthrown : ∀ ios io what p, P ios (.thrown what p) → P (ios ++ [io]) (.thrown what p))
    (ios : List PubAnswers) : P ios (run pass (start config reset) ios) := by
  induction ios using List.reverseRecOn with
  | nil =>
    rw [run_nil, start_of_nonneg (by omega)]
    exact h0
  | append_singleton ios io ih =>
    rw [run_concat]
    cases ho : run pass (start config reset) ios with
    | ret p =>
      rw [ho] at ih
      have hfollows := run_follows hpos hN hn ho
      exact hstep ios io p _ ih ho hfollows (hfollows.pass (Proto.valid_run hpos _) io).passes
    | thrown what p =>
      rw [ho] at ih
      exact hthrown ios io what p ih

/-- Only a failed write of the normal mode throws. -/
theorem run_returns {ios : List PubAnswers}
    (hok : ProcessType.ofLoan config.loanMode = .Loan ∨
      ∀ io ∈ ios, ∀ i, io.writer.write i = RETCODE_OK) :
    ∃ p, run pass (start config reset) ios = .ret p := by
  induction ios using List.reverseRecOn with
  | nil => exact ⟨_, start_of_nonneg (by omega)⟩
  | append_singleton ios io ih =>
    obtain ⟨p, hp⟩ := ih (hok.imp_right fun h io hio ↦ h io (List.mem_append_left _ hio))
    have hfollows := run_follows hpos hN hn hp
    have hpasses := (hfollows.pass (Proto.valid_run hpos _) io).passes
    rw [run_concat, hp]
    generalize pass (.ret p) io = o at hpasses
    cases hpasses with
    | throw what q _ hs =>
      obtain ⟨hmode, hfail⟩ := stream_thrown hs
      rw [hfollows.processType] at hmode
      rcases hok with hok | hok
      · rw [hok] at hmode
        exact absurd hmode (by simp)
      · exact absurd (hok io (List.mem_append_right _ (List.mem_singleton_self io))) hfail
    | _ => exact ⟨_, rfl⟩

theorem visits_blocked {ios : List PubAnswers} {p : PubTest}
    (h : run pass (start config reset) ios = .ret p) :
    visits pass blocked (start config reset) ios
      = visits (Proto.step N) Proto.blocked {} (ios.map PubAnswers.matched) := by
  induction ios using List.reverseRecOn generalizing p with
  | nil => rfl
  | append_singleton ios io ih =>
    rw [run_concat] at h
    cases ho : run pass (start config reset) ios with
    | ret q =>
      rw [visits_concat, List.map_append, List.map_singleton, visits_concat, ih ho, ho,
        (run_follows hpos hN hn ho).blocked_eq (Proto.valid_run hpos _)]
    | thrown what q =>
      rw [ho, pass_thrown] at h
      exact absurd h (by simp)

end Run

end PubTest

end IndraDds
