import IndraDds.Stress.Pattern
import IndraDds.Vendor.FastPub

/-!
# The publisher test

`pub_test_1_to_1` announces a round on the control topic, sends its samples in the next cycle in
which both writers are matched, waits six cycles, stops the round, waits six more and announces the
next. The waiting is done in `read`, the sending in `write`.

What the middleware answers in a cycle, the two match flags, the return codes and the time
measured, is one value `PubAnswers`; a run is a list of them. The writes of a run are recorded in
`log` with the executive's cycle counter, and the final report in `reports`. Neither is read by
the code.

The member `reset` is never initialised, so the constructor takes its first value as an argument.
-/

namespace IndraDds

/-! ## State -/

/-- What the middleware and the clock answer in one cycle. -/
structure PubAnswers where
  pubMatched : Bool := true
  controlMatched : Bool := true
  startRet : ReturnCode := RETCODE_OK
  stopRet : ReturnCode := RETCODE_OK
  writer : WriterAnswers := {}
  elapsed : ℚ := 0

namespace PubAnswers

/-- Both endpoints are matched. -/
def matched (io : PubAnswers) : Bool := io.pubMatched && io.controlMatched

/-- Every write and loan of the cycle succeeds. -/
structure Succeeds (io : PubAnswers) : Prop where
  start : io.startRet = RETCODE_OK
  stop : io.stopRet = RETCODE_OK
  loan : ∀ i, io.writer.loanSample i = RETCODE_OK
  write : ∀ i, io.writer.write i = RETCODE_OK

theorem succeeds_default (pubMatched controlMatched : Bool) (elapsed : ℚ) :
    Succeeds { pubMatched := pubMatched, controlMatched := controlMatched, elapsed := elapsed } :=
  ⟨rfl, rfl, fun _ ↦ rfl, fun _ ↦ rfl⟩

end PubAnswers

/-- `enum class State`. -/
inductive PubState where
  | WaitingMatch
  | Announce
  | Streaming
deriving DecidableEq, Repr

/-- What the test asked of its writers: one control message, or the calls of one write phase of the
round it is in. -/
inductive PubEvent where
  | control (msg : TestControl) (ret : ReturnCode)
  | data (round : ℤ) (calls : List WriterCall)
deriving DecidableEq, Repr

/-- `pub_test_1_to_1` and the executive it calls back into. -/
structure PubTest extends PatternBase where
  exec : Executive := {}
  pub : FastPub := {}
  cpuTimes : Distribution := {}
  config : MainTestConfig
  messageToSend : ℤ := 100
  preAllocatedEntities : List AirEntity := []
  processType : ProcessType := .Loan
  reset : Bool
  currentCylesReset : ℤ := 0
  offsetCylesReset : ℤ := 5
  send : Bool := false
  state : PubState := .WaitingMatch
  currentEntityId : ℤ := 0
  offsetCycleStart : ℤ := 50
  currentCycle : ℤ := 0
  exportResult : Bool := true
  log : List (ℕ × PubEvent) := []
  reports : List (List ℚ) := []

instance : HasExecutive PubTest where
  exec := PubTest.exec
  withExec p e := { p with exec := e }

namespace PubTest

/-! ## Construction and initialisation -/

def setNumMessages (p : PubTest) (numMessages : ℤ) : PubTest :=
  { p with
    messageToSend := numMessages
    pub := { p.pub with messagesPerCycle := numMessages } }

/-- The constructor, with the indeterminate value of `reset`. -/
def new (config : MainTestConfig) (reset : Bool) : PubTest :=
  let p : PubTest := { config := config, reset := reset, maxTest := config.testCount }
  let p := p.setNumMessages config.messageCount
  { p with
    pub := p.pub.setExpectedSubs config.listenerNumber
    processType := ProcessType.ofLoan config.loanMode }

def startSend (p : PubTest) : PubTest := { p with send := true, state := .Announce }

/-- `init`, less the initialisation of the two publishers, whose failure is only printed. A negative
count becomes a size that no vector can have. -/
def init (p : PubTest) : Outcome PubTest :=
  if p.messageToSend < 0 then .thrown "vector::_M_default_append" p
  else .ret (startSend { p with
    preAllocatedEntities := List.replicate (toSizeT p.messageToSend) default
    currentTest := 0
    cpuTimes := p.cpuTimes.setDistributionName "CPU TIME" })

/-! ## The writes -/

/-- A write happens in the executive's current cycle. -/
def emit (p : PubTest) (e : PubEvent) : PubTest :=
  { p with log := p.log ++ [(p.exec.currentCycle, e)] }

/-- The announcement of the next round. -/
def announce (io : PubAnswers) (p : PubTest) : PubTest :=
  let msg := FastPubControl.startMessage (p.currentTest + 1) p.pub.messagesPerCycle
    (p.processType = .Loan)
  { p.emit (.control msg io.startRet) with state := .Streaming }

/-- The loop of the normal mode: `k` iterations to go, `i` done. It stops at the first sample the
writer does not accept. -/
def normalLoop (a : WriterAnswers) : (k i : ℕ) → PubTest → Bool × PubTest × List WriterCall
  | 0, _, p => (true, p, [])
  | k + 1, i, p =>
    let entity : AirEntity := { p.preAllocatedEntities.getD i default with id := p.currentEntityId }
    let p := { p with
      preAllocatedEntities := p.preAllocatedEntities.set i entity
      currentEntityId := p.currentEntityId + 1 }
    if FastPub.publish (a.write i) then
      let r := normalLoop a k (i + 1) p
      (r.1, r.2.1, .write none entity (a.write i) :: r.2.2)
    else (false, p, [.write none entity (a.write i)])

/-- The end of a write phase. -/
def streamed (io : PubAnswers) (p : PubTest) : PubTest :=
  { p with cpuTimes := p.cpuTimes.addValue io.elapsed, reset := true, send := false }

/-- The write phase of the normal mode; a failed `publish` throws. -/
def streamNormal (io : PubAnswers) (p : PubTest) : Outcome PubTest :=
  let r := normalLoop io.writer (toSizeT p.pub.messagesPerCycle) 0 p
  let p := r.2.1.emit (.data (p.currentTest + 1) r.2.2)
  if r.1 then .ret (p.streamed io) else .thrown "[PUB TEST] Failed to publish entity" p

/-- The write phase of the loan mode, which drops the result of `publish_loan`. -/
def streamLoan (io : PubAnswers) (p : PubTest) : Outcome PubTest :=
  let r := p.pub.publishLoan io.writer (toSizeT p.pub.messagesPerCycle)
  let p := { p with pub := r.2.1 }.emit (.data (p.currentTest + 1) r.2.2)
  .ret (p.streamed io)

/-- The write phase of a round. -/
def stream (io : PubAnswers) (p : PubTest) : Outcome PubTest :=
  match p.processType with
  | .Normal => p.streamNormal io
  | .Loan => p.streamLoan io

theorem stream_normal {io : PubAnswers} {p : PubTest} (h : p.processType = .Normal) :
    p.stream io = p.streamNormal io := by
  rw [stream, h]

theorem stream_loan {io : PubAnswers} {p : PubTest} (h : p.processType = .Loan) :
    p.stream io = p.streamLoan io := by
  rw [stream, h]

/-- `write`. -/
def write (io : PubAnswers) (p : PubTest) : Outcome PubTest :=
  if !p.send then .ret p
  else if !io.pubMatched || !io.controlMatched then .ret p
  else
    match p.state with
    | .Announce =>
      let started := p.currentCycle < p.offsetCycleStart
      let p := { p with currentCycle := p.currentCycle + 1 }
      if started then .ret p else .ret (p.announce io)
    | .Streaming => p.stream io
    | .WaitingMatch => .ret p

/-! ## The waiting -/

def makeFinalReport (p : PubTest) : PubTest :=
  let p :=
    if p.exportResult then
      { p with exportResult := !p.exportResult, reports := p.reports ++ [p.cpuTimes.values] }
    else p
  { p with exec := p.exec.requestSimulationEnd }

instance : Pattern PubTest where
  base := PubTest.toPatternBase
  withBase p b := { p with toPatternBase := b }
  onTestFinished _ p := p
  makeFinalReport := makeFinalReport

/-- `reset_test`: stop the round and count it. -/
def resetTest (io : PubAnswers) (p : PubTest) : PubTest :=
  let p :=
    if p.currentTest ≤ p.maxTest then
      { p.emit (.control (FastPubControl.stopMessage (p.currentTest + 1)) io.stopRet) with
        currentEntityId := 0
        state := .Announce
        reset := true }
    else p
  finishTest true p

/-- `read`. -/
def read (io : PubAnswers) (p : PubTest) : PubTest :=
  if p.reset then
    let p := { p with currentCylesReset := p.currentCylesReset + 1 }
    if p.currentCylesReset > p.offsetCylesReset then
      let p := { p with currentCylesReset := 0, reset := false }
      let p := if p.state = .Announce then { p with send := true } else p
      if p.state = .Streaming then p.resetTest io else p
    else p
  else p

/-! ## The run -/

/-- The only module of the executive, `cl_dds`, which passes every call on to the test. -/
def clModule (io : PubAnswers) : ClModule PubTest where
  moduleId := 0
  init := PubTest.init
  read p := .ret (p.read io)
  write := PubTest.write io
  update := .ret

/-- The test after `_exec->init()`. -/
def start (config : MainTestConfig) (reset : Bool) : Outcome PubTest :=
  Executive.init [clModule {}] (new config reset)

/-- One pass of the loop of `main`. -/
def pass (o : Outcome PubTest) (io : PubAnswers) : Outcome PubTest := mainPass [clModule io] o

/-- Whether `write` is reached with `send` set and an endpoint unmatched in the pass answered by
`io`. -/
def blocked (o : Outcome PubTest) (io : PubAnswers) : Bool :=
  match o with
  | .ret p => p.exec.inExecution && (p.read io).send && !io.matched
  | .thrown _ _ => false

/-- The cycle has been counted. -/
def tick (p : PubTest) : PubTest :=
  { p with exec := { p.exec with currentCycle := p.exec.currentCycle + 1 } }

/-- The cycle, spelled out. -/
theorem pass_ret (io : PubAnswers) {p : PubTest} (h : p.exec.currentState = .EXECUTION) :
    pass (.ret p) io = ((p.read io).write io).bind fun p ↦ .ret p.tick :=
  mainPass_singleton (clModule io) h

@[simp] theorem pass_thrown (what : String) (p : PubTest) (io : PubAnswers) :
    pass (.thrown what p) io = .thrown what p := rfl

end PubTest

end IndraDds
