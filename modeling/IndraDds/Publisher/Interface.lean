import IndraDds.Publisher.Announcements

/-!
# The publisher test and its publisher

`pub_test_1_to_1` knows its publisher through `IPub` only. The number of messages is kept three
times: in `message_to_send`, in the size of `pre_allocated_entities`, and in the public member
`messages_per_cycle` of `IPub`, which every virtual call may change and which the default
`set_expected_subs` does change. The test reads the third copy, for the announcement and for the
bound of its loop, after it has filled the first two.

An implementation of `IPub` is here what its virtual calls answer and what they make of
`messages_per_cycle`, so a statement about all of these functions is one about all implementations.
The test itself is `PubTest`; its publisher is looked at no further than that member.
-/

namespace IndraDds

open Transition

/-! ## The interface -/

/-- `IPub::set_expected_subs`, where it is not overridden: what it makes of `messages_per_cycle`. -/
def IPub.setExpectedSubs (expected _messagesPerCycle : ℤ) : ℤ := expected

/-- What the virtual calls of one cycle answer, and what they make of `messages_per_cycle`. The
answer of the `i`-th `publish` is whether the `i`-th write succeeds. -/
structure IPubAnswers extends PubAnswers where
  afterIsMatched : ℤ → ℤ := id
  afterPublish : ℕ → ℤ → ℤ := fun _ ↦ id
  afterPublishLoan : ℤ → ℤ := id

/-- How the loop of the normal mode ends. Where it indexes past the buffer nothing is known about
what the program does, and the run is cut off. -/
inductive LoopEnd where
  | complete
  | failed
  | outOfBounds
deriving DecidableEq, Repr

/-- A write phase: the slots whose entities were handed to `publish`, or the count handed to
`publish_loan`. -/
inductive WritePhase where
  | normal (touched : List ℕ) (ending : LoopEnd)
  | loan (count : ℕ)
deriving DecidableEq, Repr

/-- `pub_test_1_to_1` with any publisher, and the write phases it has been through. -/
structure IPubTest extends PubTest where
  phases : List WritePhase := []

instance : HasExecutive IPubTest where
  exec p := p.exec
  withExec p e := { p with exec := e }

/-- A virtual call of the publisher. -/
def PubTest.afterCall (p : PubTest) (effect : ℤ → ℤ) : PubTest :=
  { p with pub := { p.pub with messagesPerCycle := effect p.pub.messagesPerCycle } }

/-- The three copies of the count are `n`, and `n` is what has been announced. -/
structure PubTest.Counts (n : ℕ) (p : PubTest) : Prop where
  messagesPerCycle : p.pub.messagesPerCycle = n
  messageToSend : p.messageToSend = n
  slots : p.preAllocatedEntities.length = n
  announced : ∀ t msg ret, (t, .control msg ret) ∈ p.log → msg.start = true →
    msg.expectedEntities = (n : ℤ)

namespace IPubTest

/-! ## The test -/

/-- The constructor, for a publisher whose `set_expected_subs` has the given effect. -/
def new (setExpectedSubs : ℤ → ℤ → ℤ) (config : MainTestConfig) (reset : Bool) : IPubTest :=
  let p : PubTest := { config := config, reset := reset, maxTest := config.testCount }
  let p := p.setNumMessages config.messageCount
  let p := p.afterCall (setExpectedSubs config.listenerNumber)
  { p with processType := ProcessType.ofLoan config.loanMode }

/-- `init`, for a publisher whose `init` has the given effect. -/
def init (pubInit : ℤ → ℤ) (p : IPubTest) : Outcome IPubTest :=
  match (p.toPubTest.afterCall pubInit).init with
  | .ret q => .ret { p with toPubTest := q }
  | .thrown what q => .thrown what { p with toPubTest := q }

def read (io : IPubAnswers) (p : IPubTest) : IPubTest :=
  { p with toPubTest := p.toPubTest.read io.toPubAnswers }

/-- The loop of the normal mode at iteration `i`, with the slots from `i` on still ahead. The bound
is read again in each iteration. -/
def normalLoop (io : IPubAnswers) :
    (ahead : List AirEntity) → (i : ℕ) → PubTest → LoopEnd × PubTest × List ℕ
  | [], i, p => (if i < toSizeT p.pub.messagesPerCycle then .outOfBounds else .complete, p, [])
  | entity :: ahead, i, p =>
    if i < toSizeT p.pub.messagesPerCycle then
      let p := { p with
        preAllocatedEntities := p.preAllocatedEntities.set i { entity with id := p.currentEntityId }
        currentEntityId := p.currentEntityId + 1 }
      let p := p.afterCall (io.afterPublish i)
      if FastPub.publish (io.writer.write i) then
        let r := normalLoop io ahead (i + 1) p
        (r.1, r.2.1, i :: r.2.2)
      else (.failed, p, [i])
    else (.complete, p, [])

/-- The test behind a write phase. -/
def withPhase (p : IPubTest) (q : PubTest) (phase : WritePhase) : IPubTest :=
  { toPubTest := q, phases := p.phases ++ [phase] }

def streamNormal (io : IPubAnswers) (p : IPubTest) : Outcome IPubTest :=
  let r := normalLoop io p.preAllocatedEntities 0 p.toPubTest
  match r.1 with
  | .complete => .ret (p.withPhase (r.2.1.streamed io.toPubAnswers) (.normal r.2.2 r.1))
  | .failed =>
    .thrown "[PUB TEST] Failed to publish entity" (p.withPhase r.2.1 (.normal r.2.2 r.1))
  | .outOfBounds => .thrown "pre_allocated_entities[i]" (p.withPhase r.2.1 (.normal r.2.2 r.1))

def streamLoan (io : IPubAnswers) (p : IPubTest) : Outcome IPubTest :=
  .ret (p.withPhase ((p.toPubTest.afterCall io.afterPublishLoan).streamed io.toPubAnswers)
    (.loan (toSizeT p.pub.messagesPerCycle)))

/-- `write` with both publishers matched. -/
def writeMatched (io : IPubAnswers) (p : IPubTest) : Outcome IPubTest :=
  match p.state with
  | .Announce =>
    let started := p.currentCycle < p.offsetCycleStart
    let p := { p with currentCycle := p.currentCycle + 1 }
    if started then .ret p
    else .ret { p with toPubTest := p.toPubTest.announce io.toPubAnswers }
  | .Streaming =>
    match p.processType with
    | .Normal => p.streamNormal io
    | .Loan => p.streamLoan io
  | .WaitingMatch => .ret p

/-- `write`. -/
def write (io : IPubAnswers) (p : IPubTest) : Outcome IPubTest :=
  if !p.send then .ret p
  else
    let p : IPubTest := { p with toPubTest := p.toPubTest.afterCall io.afterIsMatched }
    if !io.pubMatched || !io.controlMatched then .ret p else p.writeMatched io

def clModule (pubInit : ℤ → ℤ) (io : IPubAnswers) : ClModule IPubTest where
  moduleId := 0
  init := IPubTest.init pubInit
  read p := .ret (p.read io)
  write := IPubTest.write io
  update := .ret

/-- The test after `_exec->init()`. -/
def start (setExpectedSubs : ℤ → ℤ → ℤ) (pubInit : ℤ → ℤ) (config : MainTestConfig)
    (reset : Bool) : Outcome IPubTest :=
  Executive.init [clModule pubInit {}] (new setExpectedSubs config reset)

/-- One pass of the loop of `main`. -/
def pass (o : Outcome IPubTest) (io : IPubAnswers) : Outcome IPubTest := mainPass [clModule id io] o

def tick (p : IPubTest) : IPubTest := { p with toPubTest := p.toPubTest.tick }

theorem pass_ret (io : IPubAnswers) {p : IPubTest} (h : p.exec.currentState = .EXECUTION) :
    pass (.ret p) io = ((p.read io).write io).bind fun p ↦ .ret p.tick :=
  mainPass_singleton (clModule id io) h

/-! ## One count -/

/-- The phase sends `n` samples: the loop stays within `n` slots and, unless a `publish` fails,
goes through all of them in order. -/
def Sends (n : ℕ) : WritePhase → Prop
  | .normal touched ending =>
    ending ≠ .outOfBounds ∧ (∀ i ∈ touched, i < n) ∧ (ending = .complete → touched = List.range n)
  | .loan count => count = n

/-- The three copies of the count are `n`, and `n` is what has been announced and sent. -/
structure CountsAgree (n : ℕ) (p : IPubTest) : Prop where
  counts : p.toPubTest.Counts n
  sends : ∀ phase ∈ p.phases, Sends n phase

/-- The virtual calls of the cycle leave a count of `n` alone. -/
structure Keeps (n : ℕ) (io : IPubAnswers) : Prop where
  isMatched : io.afterIsMatched n = n
  publish : ∀ i, io.afterPublish i n = n
  publishLoan : io.afterPublishLoan n = n

end IPubTest

/-! ## What a cycle does to the counts -/

namespace PubTest.Counts

variable {n : ℕ} {p : PubTest} {io : PubAnswers}

/-- The members that the counts are read from. -/
theorem frame (h : p.Counts n) {q : PubTest}
    (hq : (q.pub.messagesPerCycle, q.messageToSend, q.preAllocatedEntities.length, q.log)
      = (p.pub.messagesPerCycle, p.messageToSend, p.preAllocatedEntities.length, p.log)) :
    q.Counts n := by
  simp only [Prod.mk.injEq] at hq
  obtain ⟨hmessages, hsend, hslots, hlog⟩ := hq
  exact ⟨hmessages.trans h.messagesPerCycle, hsend.trans h.messageToSend, hslots.trans h.slots,
    by rw [hlog]; exact h.announced⟩

theorem emit (h : p.Counts n) {e : PubEvent}
    (he : ∀ msg ret, e = .control msg ret → msg.start = true → msg.expectedEntities = (n : ℤ)) :
    (p.emit e).Counts n := by
  refine ⟨h.messagesPerCycle, h.messageToSend, h.slots, fun t msg ret hmem hstart ↦ ?_⟩
  rcases List.mem_append.mp hmem with hmem | hmem
  · exact h.announced t msg ret hmem hstart
  · obtain ⟨-, rfl⟩ := Prod.mk.inj (List.mem_singleton.mp hmem)
    exact he msg ret rfl hstart

theorem announce (h : p.Counts n) : (p.announce io).Counts n := by
  have hemit := h.emit (e := .control (FastPubControl.startMessage (p.currentTest + 1)
    p.pub.messagesPerCycle (p.processType = .Loan)) io.startRet) fun msg ret hmsg _ ↦ by
      obtain ⟨rfl, -⟩ := PubEvent.control.inj hmsg
      exact h.messagesPerCycle
  exact hemit.frame rfl

theorem finishTest (h : p.Counts n) : (finishTest true p).Counts n := by
  obtain ⟨exec, exportResult, reports, hfinish⟩ := finishTest_frame p
  rw [hfinish]
  exact h.frame rfl

theorem resetTest (h : p.Counts n) : (p.resetTest io).Counts n := by
  rw [PubTest.resetTest]
  split_ifs
  · apply finishTest
    have hemit := h.emit (e := .control (FastPubControl.stopMessage (p.currentTest + 1))
      io.stopRet) fun msg ret hmsg hstart ↦ by
        obtain ⟨rfl, -⟩ := PubEvent.control.inj hmsg
        exact absurd hstart Bool.false_ne_true
    exact hemit.frame rfl
  · exact h.finishTest

theorem read (h : p.Counts n) : (p.read io).Counts n := by
  obtain ⟨cyles, reset, send, hread | hread⟩ := read_cases io p
  · rw [hread]
    exact h.frame rfl
  · rw [hread]
    apply resetTest
    exact h.frame rfl

theorem afterCall (h : p.Counts n) {effect : ℤ → ℤ} (heffect : effect n = n) :
    (p.afterCall effect).Counts n := by
  refine ⟨?_, h.messageToSend, h.slots, h.announced⟩
  change effect p.pub.messagesPerCycle = n
  rw [h.messagesPerCycle, heffect]

end PubTest.Counts

namespace IPubTest

variable {n : ℕ} {p : IPubTest} {io : IPubAnswers}

/-- **The loop** of the normal mode, with as many slots ahead as there are iterations left. -/
theorem normalLoop_sends (hio : Keeps n io) (ahead : List AirEntity) {i : ℕ}
    (hi : i + ahead.length = n) {q : PubTest} (h : q.Counts n) :
    (normalLoop io ahead i q).1 ≠ .outOfBounds ∧ (normalLoop io ahead i q).2.1.Counts n
      ∧ (∀ j ∈ (normalLoop io ahead i q).2.2, j < n)
      ∧ ((normalLoop io ahead i q).1 = .complete →
        (normalLoop io ahead i q).2.2 = List.range' i ahead.length) := by
  have hbound : toSizeT q.pub.messagesPerCycle = n := by
    rw [h.messagesPerCycle, toSizeT_natCast]
  induction ahead generalizing i q with
  | nil =>
    rw [List.length_nil, Nat.add_zero] at hi
    rw [normalLoop, hbound, if_neg (by omega)]
    exact ⟨by simp, h, fun j hj ↦ absurd hj List.not_mem_nil, fun _ ↦ rfl⟩
  | cons entity ahead ih =>
    rw [List.length_cons] at hi
    rw [normalLoop, hbound, if_pos (by omega)]
    set written : PubTest := { q with
      preAllocatedEntities := q.preAllocatedEntities.set i { entity with id := q.currentEntityId }
      currentEntityId := q.currentEntityId + 1 } with hwritten
    have hcounts : written.Counts n := h.frame (by simp [hwritten])
    have hafter := hcounts.afterCall (hio.publish i)
    by_cases hret : FastPub.publish (io.writer.write i) = true
    · obtain ⟨hend, hrest, htouched, hall⟩ := ih (i := i + 1) (by omega) hafter
        (by rw [hafter.messagesPerCycle, toSizeT_natCast])
      simp only [hret, if_true]
      refine ⟨hend, hrest, fun j hj ↦ ?_, fun hcomplete ↦ ?_⟩
      · rcases List.mem_cons.mp hj with rfl | hj
        · omega
        · exact htouched j hj
      · rw [hall hcomplete, List.length_cons, List.range'_succ]
    · simp only [hret]
      refine ⟨by simp, hafter, fun j hj ↦ ?_, fun hcomplete ↦ absurd hcomplete (by simp)⟩
      rw [List.mem_singleton.mp hj]
      omega

theorem CountsAgree.withPhase (h : p.CountsAgree n) {q : PubTest} (hq : q.Counts n)
    {phase : WritePhase} (hphase : Sends n phase) : (p.withPhase q phase).CountsAgree n := by
  refine ⟨hq, fun phase' hmem ↦ ?_⟩
  rcases List.mem_append.mp hmem with hmem | hmem
  · exact h.sends phase' hmem
  · rw [List.mem_singleton.mp hmem]
    exact hphase

theorem CountsAgree.streamNormal (h : p.CountsAgree n) (hio : Keeps n io) :
    (p.streamNormal io).world.CountsAgree n := by
  obtain ⟨hend, hcounts, htouched, hall⟩ := normalLoop_sends hio p.preAllocatedEntities
    (i := 0) (by rw [Nat.zero_add, h.counts.slots]) h.counts
  have hsends : Sends n (.normal (normalLoop io p.preAllocatedEntities 0 p.toPubTest).2.2
      (normalLoop io p.preAllocatedEntities 0 p.toPubTest).1) := by
    refine ⟨hend, htouched, fun hcomplete ↦ ?_⟩
    rw [hall hcomplete, h.counts.slots, List.range_eq_range']
  rw [IPubTest.streamNormal]
  rcases hloop : normalLoop io p.preAllocatedEntities 0 p.toPubTest with ⟨ending, q, touched⟩
  rw [hloop] at hend hcounts hsends
  rcases ending with _ | _ | _
  · have hstreamed : (q.streamed io.toPubAnswers).Counts n := hcounts.frame rfl
    exact h.withPhase hstreamed hsends
  · exact h.withPhase hcounts hsends
  · exact absurd rfl hend

theorem CountsAgree.streamLoan (h : p.CountsAgree n) (hio : Keeps n io) :
    (p.streamLoan io).world.CountsAgree n := by
  have hcount : Sends n (.loan (toSizeT p.pub.messagesPerCycle)) := by
    rw [Sends, h.counts.messagesPerCycle, toSizeT_natCast]
  have hstreamed :
      ((p.toPubTest.afterCall io.afterPublishLoan).streamed io.toPubAnswers).Counts n :=
    (h.counts.afterCall hio.publishLoan).frame rfl
  exact h.withPhase hstreamed hcount

theorem CountsAgree.writeMatched (h : p.CountsAgree n) (hio : Keeps n io) :
    (p.writeMatched io).world.CountsAgree n := by
  have hcounted : PubTest.Counts n { p.toPubTest with currentCycle := p.currentCycle + 1 } :=
    h.counts.frame rfl
  rw [IPubTest.writeMatched]
  split
  · simp only
    split_ifs
    · exact ⟨hcounted, h.sends⟩
    · exact ⟨hcounted.announce, h.sends⟩
  · split
    · exact h.streamNormal hio
    · exact h.streamLoan hio
  · exact h

theorem CountsAgree.write (h : p.CountsAgree n) (hio : Keeps n io) :
    (p.write io).world.CountsAgree n := by
  have hmatched : CountsAgree n { p with toPubTest := p.toPubTest.afterCall io.afterIsMatched } :=
    ⟨h.counts.afterCall hio.isMatched, h.sends⟩
  rw [IPubTest.write]
  split_ifs
  · exact h
  · exact hmatched
  · exact hmatched.writeMatched hio

theorem CountsAgree.pass {o : Outcome IPubTest} (h : o.world.CountsAgree n) (hio : Keeps n io) :
    (pass o io).world.CountsAgree n := by
  rcases o with p | ⟨what, p⟩
  · by_cases hrun : p.exec.currentState = .EXECUTION
    · have hread : (p.read io).CountsAgree n := ⟨h.counts.read, h.sends⟩
      have hwrite := hread.write hio
      rw [pass_ret io hrun]
      rcases hq : (p.read io).write io with q | ⟨what, q⟩
      · rw [hq] at hwrite
        exact ⟨hwrite.counts.frame rfl, hwrite.sends⟩
      · rw [hq] at hwrite
        exact hwrite
    · rw [IPubTest.pass, mainPass_of_ended (w := p) _ hrun]
      exact h
  · exact h

/-! ## Runs -/

variable {setExpectedSubs : ℤ → ℤ → ℤ} {pubInit : ℤ → ℤ}

/-- A test is initialised unless its count is negative. -/
theorem init_new (setExpectedSubs : ℤ → ℤ → ℤ) (pubInit : ℤ → ℤ) (config : MainTestConfig)
    (hn : 0 ≤ config.messageCount) (reset : Bool) :
    ((new setExpectedSubs config reset).toPubTest.afterCall pubInit).init = .ret (PubTest.startSend
      { (new setExpectedSubs config reset).toPubTest.afterCall pubInit with
        preAllocatedEntities := List.replicate (toSizeT config.messageCount) default
        currentTest := 0
        cpuTimes := Distribution.setDistributionName {} "CPU TIME" }) :=
  if_neg (Int.not_lt.mpr hn)

/-- What construction and `init` make of the counts. -/
theorem start_eq (setExpectedSubs : ℤ → ℤ → ℤ) (pubInit : ℤ → ℤ) {n : ℕ} (config : MainTestConfig)
    (hn : config.messageCount = n) (reset : Bool) :
    ∃ s : IPubTest, start setExpectedSubs pubInit config reset = .ret s
      ∧ s.pub.messagesPerCycle = pubInit (setExpectedSubs config.listenerNumber n)
      ∧ s.messageToSend = n ∧ s.preAllocatedEntities.length = n ∧ s.log = [] ∧ s.phases = [] := by
  have hinit := init_new setExpectedSubs pubInit config (by omega) reset
  rw [start, Executive.init]
  simp only [callAll, clModule, init, hinit, Outcome.bind_ret]
  refine ⟨_, rfl, ?_, hn, ?_, rfl, rfl⟩
  · rw [← hn]
    rfl
  · rw [← toSizeT_natCast n, ← hn]
    exact List.length_replicate

/-- **When the counts agree.** For any publisher whose calls in the cycles of a run leave
`messages_per_cycle` alone, the counts agree in every state of it exactly when `set_expected_subs`
and `init` have left it alone as well. -/
theorem countsAgree_iff (setExpectedSubs : ℤ → ℤ → ℤ) (pubInit : ℤ → ℤ) (n m : ℕ)
    (config : MainTestConfig) (reset : Bool) :
    (∀ ios : List IPubAnswers, (∀ io ∈ ios, Keeps n io) →
      (run pass (start setExpectedSubs pubInit
        { config with messageCount := n, listenerNumber := m } reset) ios).world.CountsAgree n)
      ↔ pubInit (setExpectedSubs m n) = n := by
  obtain ⟨s, hstart, hmessages, hsend, hslots, hlog, hphases⟩ := start_eq setExpectedSubs pubInit
    { config with messageCount := n, listenerNumber := m } rfl reset
  rw [hstart]
  constructor
  · intro h
    have hbegin := (h [] fun io hio ↦ absurd hio List.not_mem_nil).counts.messagesPerCycle
    exact hmessages.symm.trans hbegin
  · intro hkeep ios hios
    induction ios using List.reverseRecOn with
    | nil =>
      refine ⟨⟨hmessages.trans hkeep, hsend, hslots, fun t msg ret hmem ↦ ?_⟩,
        fun phase hmem ↦ ?_⟩
      · change _ ∈ s.log at hmem
        rw [hlog] at hmem
        exact absurd hmem List.not_mem_nil
      · change phase ∈ s.phases at hmem
        rw [hphases] at hmem
        exact absurd hmem List.not_mem_nil
    | append_singleton ios io ih =>
      rw [run_concat]
      exact (ih fun io' hio' ↦ hios io' (List.mem_append_left _ hio')).pass
        (hios io (List.mem_append_right _ (List.mem_singleton_self io)))

/-- The default of `IPub` stores the number of listeners over the number of messages. -/
theorem default_setExpectedSubs_overwrites :
    ¬(run pass (start IPub.setExpectedSubs id { messageCount := 3, listenerNumber := 1 } false)
      []).world.CountsAgree 3 := by
  intro h
  exact absurd h.counts.messagesPerCycle (by decide)

/-! ## `FastPub` behind the interface

`FastPub` overrides `set_expected_subs` and changes `messages_per_cycle` in no call. The test with
it, `PubTest`, differs from the test here in its write phases only: it lists the calls on the
writer and keeps the ids of the loan mode. -/

theorem new_eq (config : MainTestConfig) (reset : Bool) :
    { (new (fun _ messagesPerCycle ↦ messagesPerCycle) config reset).toPubTest with
      pub := (PubTest.new config reset).pub } = PubTest.new config reset := rfl

/-- The two loops over the slots from `i` on. -/
theorem normalLoop_eq (io : PubAnswers) {k i : ℕ} {p : PubTest}
    (hslots : p.preAllocatedEntities.length = i + k)
    (hcount : toSizeT p.pub.messagesPerCycle = i + k) :
    (normalLoop { io with } (p.preAllocatedEntities.drop i) i p).2.1
        = (PubTest.normalLoop io.writer k i p).2.1
      ∧ (normalLoop { io with } (p.preAllocatedEntities.drop i) i p).1
        = if (PubTest.normalLoop io.writer k i p).1 then .complete else .failed := by
  induction k generalizing i p with
  | zero =>
    rw [List.drop_eq_nil_of_le (by omega), normalLoop, if_neg (by omega)]
    exact ⟨rfl, rfl⟩
  | succ k ih =>
    have hi : i < p.preAllocatedEntities.length := by omega
    have hget : p.preAllocatedEntities.getD i default = p.preAllocatedEntities[i] := by
      rw [List.getD_eq_getElem?_getD, List.getElem?_eq_getElem hi, Option.getD_some]
    set entity : AirEntity := { p.preAllocatedEntities[i] with id := p.currentEntityId }
    set written : PubTest := { p with
      preAllocatedEntities := p.preAllocatedEntities.set i entity
      currentEntityId := p.currentEntityId + 1 } with hwritten
    have hahead : p.preAllocatedEntities.drop (i + 1)
        = written.preAllocatedEntities.drop (i + 1) := by
      rw [hwritten, List.drop_set_of_lt (Nat.lt_succ_self i)]
    obtain ⟨htest, hend⟩ := ih (i := i + 1) (p := written)
      (by rw [hwritten, List.length_set, hslots]; omega) (by rw [hwritten, hcount]; omega)
    rw [List.drop_eq_getElem_cons hi, normalLoop, if_pos (by omega), PubTest.normalLoop, hget,
      hahead]
    by_cases hret : FastPub.publish (io.writer.write i) = true
    · simp only [hret, if_true]
      exact ⟨htest, hend⟩
    · simp only [hret]
      exact ⟨rfl, rfl⟩

theorem streamNormal_eq (io : PubAnswers) (h : p.CountsAgree n) :
    (p.streamNormal { io with }).world.toPubTest = { (p.toPubTest.streamNormal io).world with
      log := p.log
      pub := p.pub } := by
  have hcount : toSizeT p.pub.messagesPerCycle = n := by
    rw [h.counts.messagesPerCycle, toSizeT_natCast]
  obtain ⟨htest, hend⟩ := normalLoop_eq io (k := n) (i := 0) (p := p.toPubTest)
    (by rw [Nat.zero_add, h.counts.slots]) (by rw [Nat.zero_add, hcount])
  obtain ⟨entities, id, hframe⟩ := PubTest.normalLoop_frame io.writer n 0 p.toPubTest
  rw [List.drop_zero] at htest hend
  rw [streamNormal, PubTest.streamNormal, hcount, htest, hframe]
  rcases hret : (PubTest.normalLoop io.writer n 0 p.toPubTest).1 with _ | _
  · rw [hret] at hend
    simp only [hend]
    rfl
  · rw [hret] at hend
    simp only [hend]
    rfl

theorem streamLoan_eq (io : PubAnswers) :
    (p.streamLoan { io with }).world.toPubTest = { (p.toPubTest.streamLoan io).world with
      log := p.log
      pub := p.pub } := rfl

/-- **`PubTest` is the test with `FastPub`**: a write leaves the same members, but for the record of
the calls and the members of `FastPub` itself. -/
theorem write_eq (io : PubAnswers) (h : p.CountsAgree n) :
    (p.write { io with }).world.toPubTest = { (p.toPubTest.write io).world with
      log := (p.write { io with }).world.log
      pub := p.pub } := by
  have hwrite : p.write { io with } = if !p.send then .ret p
      else if !io.pubMatched || !io.controlMatched then .ret p
      else p.writeMatched { io with } := rfl
  rw [hwrite, PubTest.write]
  split_ifs
  · rfl
  · rfl
  · rw [writeMatched]
    rcases hstate : p.state with _ | _ | _
    · rfl
    · simp only
      split_ifs <;> rfl
    · obtain hmode | hmode := p.processType.normal_or_loan
      · rw [PubTest.stream_normal hmode, hmode]
        simp only
        rw [streamNormal_eq io h]
      · rw [PubTest.stream_loan hmode, hmode]
        simp only
        rw [streamLoan_eq io]

end IPubTest

end IndraDds
