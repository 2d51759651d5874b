import IndraDds.Foundation.Transition
import IndraDds.Stress.Pattern
import Mathlib.Algebra.Order.Ring.Int
import Mathlib.Algebra.Ring.Rat
import Mathlib.Data.Int.Cast.Lemmas
import Mathlib.Tactic.Common

/-!
# The ping-pong pattern

`ping_pong_pattern` plays against a second process that runs the same code. A party that has the
ball, status `PING`, publishes a batch and waits, status `PONG`; a batch that comes back gives it
the ball again. The first ten batches are the handshake, the ones after it are counted, and a
test ends when the count is full, when one look finds nothing, or when the other side is gone.

The classes `pub_custom` and `sub_custom` are not part of the repository. Their answers, and what
their calls make of the members the pattern uses, come with every cycle, so a statement about all
cycles is one about all implementations.
-/

namespace IndraDds

open Transition

/-! ## State -/

/-- `enum ROLE`. -/
inductive PingPongPattern.Role where
  | STARTER
  | NON_STARTER
deriving DecidableEq, Repr

/-- `enum STATUS`. -/
inductive PingPongPattern.Status where
  | PING
  | PONG
deriving DecidableEq, Repr

/-- The members of `pub_custom` in use. -/
structure PubCustom where
  currentId : ℤ := 0
  messagesPerCycle : ℤ := 0
deriving DecidableEq, Repr

/-- The member of `sub_custom` in use. -/
structure SubCustom where
  expectedMessagesCycle : ℤ := 0
deriving DecidableEq, Repr

/-- The answers of one cycle. Every question about a match has its own, since the listeners may
change theirs at any time; `missMatch` is the second one in `read`. -/
structure PingPongAnswers where
  readMatch : Bool := true
  ran : Bool := true
  missMatch : Bool := true
  writeMatch : Bool := true
  published : Bool := true
  updatePubMatch : Bool := true
  updateSubMatch : Bool := true
  afterRun : SubCustom → SubCustom := id
  afterPublish : PubCustom → PubCustom := id

/-- `ping_pong_pattern` and the executive it calls back into, with the reports made. -/
structure PingPongPattern where
  exec : Executive := {}
  role : PingPongPattern.Role
  status : PingPongPattern.Status
  pub : PubCustom
  sub : SubCustom
  entities : ℤ := 0
  missedMessages : ℤ := 0
  handshakeCount : ℤ := 0
  handshakeDone : Bool := false
  currentTest : ℤ := 0
  totalMsgDistribution : Distribution := {}
  reports : List (List ℚ) := []
deriving DecidableEq

instance : HasExecutive PingPongPattern where
  exec := PingPongPattern.exec
  withExec p e := { p with exec := e }

namespace PingPongPattern

/-! The members that nothing writes. -/

def maxEntities : ℤ := 10000

def missedThreadhold : ℤ := 1

def handshakeThreshold : ℤ := 10

def numTest : ℤ := 50

/-! ## The methods -/

/-- `init`, which asks for the role: what was typed, or nothing that is a number. The failure of
the two initialisations is only printed. -/
def new (pub : PubCustom) (sub : SubCustom) (number : Option ℤ) : PingPongPattern :=
  let number := number.getD 1
  { role := if number = 1 then .STARTER else .NON_STARTER
    status := if number = 1 then .PING else .PONG
    pub := { pub with messagesPerCycle := 1 }
    sub := { sub with expectedMessagesCycle := 1 } }

def onHandShake (p : PingPongPattern) : PingPongPattern :=
  { p with handshakeDone := true, missedMessages := 0, entities := 0 }

/-- The end of a `read` that has received a batch. -/
def answer (p : PingPongPattern) : PingPongPattern :=
  { p with
    pub := { p.pub with messagesPerCycle := p.pub.messagesPerCycle + 1 }
    sub := { p.sub with expectedMessagesCycle := p.sub.expectedMessagesCycle + 1 }
    status := .PING }

def read (io : PingPongAnswers) (p : PingPongPattern) : PingPongPattern :=
  if !io.readMatch then p
  else if p.status ≠ .PONG then p
  else
    let p := { p with sub := io.afterRun p.sub }
    if io.ran then
      if !p.handshakeDone then
        let p := { p with handshakeCount := p.handshakeCount + 1 }
        if p.handshakeCount ≥ handshakeThreshold then p.onHandShake.answer else p.answer
      else { p with entities := p.entities + 1 }.answer
    else if io.missMatch then { p with missedMessages := p.missedMessages + 1 } else p

def write (io : PingPongAnswers) (p : PingPongPattern) : PingPongPattern :=
  if p.status ≠ .PING then p
  else if !io.writeMatch then p
  else
    let p := { p with pub := io.afterPublish p.pub }
    if io.published then { p with status := .PONG } else p

def resetTest (p : PingPongPattern) : PingPongPattern :=
  { p with
    pub := { currentId := 0, messagesPerCycle := 1 }
    sub := { p.sub with expectedMessagesCycle := 1 }
    entities := 0
    missedMessages := 0
    handshakeCount := 0
    handshakeDone := false }

def makeFinalReport (p : PingPongPattern) : PingPongPattern :=
  { p with
    reports := p.reports ++ [p.totalMsgDistribution.values]
    exec := p.exec.endSimulation }

/-- `finish_test` of the pattern, which hides the one of `pattern_base`. -/
def finishTest (p : PingPongPattern) : PingPongPattern :=
  let p := { p with currentTest := p.currentTest + 1 }
  if p.currentTest > numTest then p.makeFinalReport
  else { p with totalMsgDistribution := p.totalMsgDistribution.addValue p.entities }.resetTest

/-- The condition at the end of `update`. -/
def stops (io : PingPongAnswers) (p : PingPongPattern) : Bool :=
  (p.handshakeDone && (p.entities ≥ maxEntities || p.missedMessages ≥ missedThreadhold)) ||
    (p.handshakeDone && (!io.updatePubMatch || !io.updateSubMatch))

def update (io : PingPongAnswers) (p : PingPongPattern) : PingPongPattern :=
  let p := if !p.handshakeDone then { p with missedMessages := 0 } else p
  if p.stops io then p.finishTest else p

/-! ## The run -/

def clModule (io : PingPongAnswers) : ClModule PingPongPattern where
  moduleId := 0
  init := .ret
  read p := .ret (p.read io)
  write p := .ret (p.write io)
  update p := .ret (p.update io)

/-- The pattern after `_exec->init()`. -/
def start (pub : PubCustom) (sub : SubCustom) (number : Option ℤ) : Outcome PingPongPattern :=
  Executive.init [clModule {}] (new pub sub number)

/-- One pass of the loop of `main`. -/
def pass (o : Outcome PingPongPattern) (io : PingPongAnswers) : Outcome PingPongPattern :=
  mainPass [clModule io] o

def tick (p : PingPongPattern) : PingPongPattern :=
  { p with exec := { p.exec with currentCycle := p.exec.currentCycle + 1 } }

theorem pass_ret (io : PingPongAnswers) {p : PingPongPattern}
    (h : p.exec.currentState = .EXECUTION) :
    pass (.ret p) io = .ret (((p.read io).write io).update io).tick :=
  mainPass_singleton (clModule io) h

/-! ## What the methods do -/

/-- The outcomes of a `read`. -/
inductive Reads (io : PingPongAnswers) (p : PingPongPattern) : PingPongPattern → Prop where
  | skip (h : io.readMatch = false ∨ p.status = .PING) : Reads io p p
  | miss (hpong : p.status = .PONG) (hran : io.ran = false) (missed : ℤ)
      (hmissed : missed = p.missedMessages ∨ missed = p.missedMessages + 1) :
      Reads io p { p with sub := io.afterRun p.sub, missedMessages := missed }
  | shake (hpong : p.status = .PONG) (hreceived : io.readMatch = true ∧ io.ran = true)
      (hdone : p.handshakeDone = false) (hfew : p.handshakeCount + 1 < handshakeThreshold) :
      Reads io p { p with
        sub := io.afterRun p.sub
        handshakeCount := p.handshakeCount + 1 }.answer
  | shaken (hpong : p.status = .PONG) (hreceived : io.readMatch = true ∧ io.ran = true)
      (hdone : p.handshakeDone = false) (hfull : handshakeThreshold ≤ p.handshakeCount + 1) :
      Reads io p { p with
        sub := io.afterRun p.sub
        handshakeCount := p.handshakeCount + 1 }.onHandShake.answer
  | count (hpong : p.status = .PONG) (hreceived : io.readMatch = true ∧ io.ran = true)
      (hdone : p.handshakeDone = true) :
      Reads io p { p with sub := io.afterRun p.sub, entities := p.entities + 1 }.answer

theorem reads (io : PingPongAnswers) (p : PingPongPattern) : p.Reads io (p.read io) := by
  rw [read]
  dsimp only
  split_ifs with hmatch hstatus hran hdone hfull hmiss
  · exact .skip (.inl (by simpa using hmatch))
  · refine .skip (.inr ?_)
    cases hs : p.status with
    | PING => rfl
    | PONG => exact absurd hs hstatus
  all_goals
    have hpong : p.status = .PONG := not_not.mp hstatus
    have hreceived : io.readMatch = true := by simpa using hmatch
  · exact .shaken hpong ⟨hreceived, hran⟩ (by simpa using hdone) hfull
  · exact .shake hpong ⟨hreceived, hran⟩ (by simpa using hdone) (not_le.mp hfull)
  · exact .count hpong ⟨hreceived, hran⟩ (by simpa using hdone)
  · exact .miss hpong (by simpa using hran) _ (.inr rfl)
  · exact .miss hpong (by simpa using hran) _ (.inl rfl)

/-- The outcomes of a `write`. -/
inductive Writes (io : PingPongAnswers) (p : PingPongPattern) : PingPongPattern → Prop where
  | hold (h : p.status = .PONG ∨ io.writeMatch = false) : Writes io p p
  | fail (hping : p.status = .PING) (hfailed : io.published = false) :
      Writes io p { p with pub := io.afterPublish p.pub }
  | send (hping : p.status = .PING) (hsent : io.writeMatch = true ∧ io.published = true) :
      Writes io p { p with pub := io.afterPublish p.pub, status := .PONG }

theorem writes (io : PingPongAnswers) (p : PingPongPattern) : p.Writes io (p.write io) := by
  rw [write]
  dsimp only
  split_ifs with hstatus hmatch hpublished
  · refine .hold (.inl ?_)
    cases hs : p.status with
    | PING => exact absurd hs hstatus
    | PONG => rfl
  · exact .hold (.inr (by simpa using hmatch))
  · exact .send (not_not.mp hstatus) ⟨by simpa using hmatch, hpublished⟩
  · exact .fail (not_not.mp hstatus) (by simpa using hpublished)

/-- The outcomes of an `update`: the test goes on, it is the last one, or the next one begins. -/
inductive Updates (io : PingPongAnswers) (p : PingPongPattern) : PingPongPattern → Prop where
  | goOn (hwait : p.handshakeDone = false) : Updates io p { p with missedMessages := 0 }
  | play (hdone : p.handshakeDone = true)
      (hfew : p.entities < maxEntities ∧ p.missedMessages < missedThreadhold) : Updates io p p
  | next (hdone : p.handshakeDone = true) (hmore : p.currentTest + 1 ≤ numTest) :
      Updates io p { p with
        currentTest := p.currentTest + 1
        totalMsgDistribution := p.totalMsgDistribution.addValue p.entities }.resetTest
  | last (hdone : p.handshakeDone = true) (hlast : numTest < p.currentTest + 1) :
      Updates io p { p with currentTest := p.currentTest + 1 }.makeFinalReport

theorem updates (io : PingPongAnswers) (p : PingPongPattern) : p.Updates io (p.update io) := by
  by_cases hdone : p.handshakeDone = true
  · have hupdate : p.update io = if p.stops io then p.finishTest else p := by
      rw [update, hdone]
      rfl
    rw [hupdate]
    split_ifs with hstops
    · rw [finishTest]
      dsimp only
      split_ifs with hlast
      · exact .last hdone hlast
      · exact .next hdone (not_lt.mp hlast)
    · refine .play hdone ?_
      simp only [stops, hdone, Bool.true_and, Bool.or_eq_true, decide_eq_true_eq, not_or,
        not_le, ge_iff_le] at hstops
      exact hstops.1
  · -- without a handshake nothing stops the test
    have hwait : p.handshakeDone = false := by simpa using hdone
    have hupdate : p.update io = { p with missedMessages := 0 } := by
      simp [update, stops, hwait]
    rw [hupdate]
    exact .goOn hwait

/-! ## The tests of a run -/

/-- A value of the final statistics: a number of batches, not above the full count. -/
def IsCount (v : ℚ) : Prop := ∃ n : ℕ, (n : ℤ) ≤ maxEntities ∧ v = n

/-- The pattern within a test. -/
structure Playing (p : PingPongPattern) : Prop where
  state : p.exec.currentState = .EXECUTION
  tests : 0 ≤ p.currentTest ∧ p.currentTest ≤ numTest
  size : (p.totalMsgDistribution.size : ℤ) = p.currentTest
  values : ∀ v ∈ p.totalMsgDistribution.values, IsCount v
  reports : p.reports = []
  handshake : 0 ≤ p.handshakeCount ∧ p.handshakeCount ≤ handshakeThreshold
  done : p.handshakeDone = true ↔ p.handshakeCount = handshakeThreshold
  entities : 0 ≤ p.entities ∧ p.entities ≤ maxEntities
  uncounted : p.handshakeDone = false → p.entities = 0

/-- The pattern between two cycles, within a test. -/
structure Waiting (p : PingPongPattern) : Prop extends Playing p where
  few : p.entities < maxEntities
  missed : p.missedMessages = 0

/-- The pattern after its last test, which is not in the statistics. -/
structure Over (p : PingPongPattern) : Prop where
  state : p.exec.currentState = .END
  tests : p.currentTest = numTest + 1
  size : (p.totalMsgDistribution.size : ℤ) = numTest
  values : ∀ v ∈ p.totalMsgDistribution.values, IsCount v
  reports : p.reports = [p.totalMsgDistribution.values]

variable {p : PingPongPattern} {io : PingPongAnswers}

/-- A test that has just begun. -/
theorem waiting_of_fresh (hstate : p.exec.currentState = .EXECUTION)
    (htests : 0 ≤ p.currentTest ∧ p.currentTest ≤ numTest)
    (hsize : (p.totalMsgDistribution.size : ℤ) = p.currentTest)
    (hvalues : ∀ v ∈ p.totalMsgDistribution.values, IsCount v) (hreports : p.reports = [])
    (hcount : p.handshakeCount = 0) (hdone : p.handshakeDone = false) (hentities : p.entities = 0)
    (hmissed : p.missedMessages = 0) : p.Waiting := by
  refine ⟨⟨hstate, htests, hsize, hvalues, hreports, ?_, ?_, ?_, fun _ ↦ hentities⟩, ?_, hmissed⟩
  · rw [hcount]
    decide
  · rw [hdone, hcount]
    decide
  · rw [hentities]
    decide
  · rw [hentities]
    decide

theorem Waiting.read (h : p.Waiting) (io : PingPongAnswers) : (p.read io).Playing := by
  obtain ⟨hcount, hle⟩ := h.handshake
  obtain ⟨hnonneg, -⟩ := h.entities
  have hdone := h.done
  have hreads := p.reads io
  generalize p.read io = q at hreads
  cases hreads with
  | skip => exact h.toPlaying
  | miss hpong hran missed hmissed =>
    exact ⟨h.state, h.tests, h.size, h.values, h.reports, h.handshake, h.done, h.entities,
      h.uncounted⟩
  | shake hpong hreceived hnot hfew =>
    refine ⟨h.state, h.tests, h.size, h.values, h.reports, ⟨?_, ?_⟩, ?_, h.entities, h.uncounted⟩
    · exact Int.le_add_one hcount
    · exact hfew.le
    · exact iff_of_false (hnot ▸ Bool.false_ne_true) hfew.ne
  | shaken hpong hreceived hnot hfull =>
    have hne : p.handshakeCount ≠ handshakeThreshold := fun heq ↦ by
      rw [hdone.mpr heq] at hnot
      exact absurd hnot Bool.noConfusion
    have hlast : p.handshakeCount + 1 = handshakeThreshold := by omega
    refine ⟨h.state, h.tests, h.size, h.values, h.reports, ⟨?_, hlast.le⟩, ?_, ⟨?_, ?_⟩, ?_⟩
    · exact Int.le_add_one hcount
    · exact iff_of_true rfl hlast
    · exact le_refl _
    · exact le_of_lt (lt_of_le_of_lt hnonneg h.few)
    · exact fun _ ↦ rfl
  | count hpong hreceived hyes =>
    refine ⟨h.state, h.tests, h.size, h.values, h.reports, h.handshake, h.done, ⟨?_, ?_⟩, ?_⟩
    · exact Int.le_add_one hnonneg
    · exact h.few
    · exact fun hnot ↦ absurd (hyes.symm.trans hnot) Bool.noConfusion

theorem Playing.write (h : p.Playing) (io : PingPongAnswers) : (p.write io).Playing := by
  have hwrites := p.writes io
  generalize p.write io = q at hwrites
  cases hwrites with
  | hold => exact h
  | _ =>
    exact ⟨h.state, h.tests, h.size, h.values, h.reports, h.handshake, h.done, h.entities,
      h.uncounted⟩

/-- Misses are not counted backwards. -/
theorem missed_nonneg (h : p.Waiting) (io : PingPongAnswers) :
    0 ≤ ((p.read io).write io).missedMessages := by
  have hread : 0 ≤ (p.read io).missedMessages := by
    have hreads := p.reads io
    generalize p.read io = q at hreads
    have hzero := h.missed
    cases hreads with
    | miss hpong hran missed hmissed =>
      change 0 ≤ missed
      omega
    | shaken => exact le_refl _
    | _ => exact hzero.ge
  have hwrites := (p.read io).writes io
  generalize (p.read io).write io = q at hwrites
  cases hwrites <;> exact hread

/-- The end of a cycle: the test goes on, the next one waits for its first batch, or all is over. -/
theorem Playing.update (h : p.Playing) (hmissed : 0 ≤ p.missedMessages) (io : PingPongAnswers) :
    (p.update io).Waiting ∨ (p.update io).Over := by
  have hupdates := p.updates io
  generalize p.update io = q at hupdates
  have hvalue : IsCount (p.entities : ℚ) := by
    obtain ⟨n, hn⟩ := Int.eq_ofNat_of_zero_le h.entities.1
    refine ⟨n, hn ▸ h.entities.2, ?_⟩
    rw [hn, Int.cast_natCast]
  obtain ⟨hpos, hle⟩ := h.tests
  cases hupdates with
  | goOn hwait =>
    have hzero := h.uncounted hwait
    refine .inl ⟨⟨h.state, h.tests, h.size, h.values, h.reports, h.handshake, h.done, h.entities,
      h.uncounted⟩, ?_, rfl⟩
    change p.entities < maxEntities
    rw [hzero]
    decide
  | play hdone hfew =>
    obtain ⟨hfew, hnone⟩ := hfew
    refine .inl ⟨h, hfew, ?_⟩
    rw [missedThreadhold] at hnone
    omega
  | next hdone hmore =>
    refine .inl (waiting_of_fresh h.state ⟨Int.le_add_one hpos, hmore⟩ ?_ ?_ h.reports rfl rfl
      rfl rfl)
    · change ((p.totalMsgDistribution.addValue p.entities).size : ℤ) = p.currentTest + 1
      rw [Distribution.size_addValue, Nat.cast_add, h.size, Nat.cast_one]
    · intro v hv
      obtain hv | hv := List.mem_append.mp hv
      · exact h.values v hv
      · rw [List.mem_singleton.mp hv]
        exact hvalue
  | last hdone hlast =>
    have hfull : p.currentTest = numTest := by omega
    refine .inr ⟨rfl, ?_, ?_, h.values, ?_⟩
    · exact congrArg (· + 1) hfull
    · exact h.size.trans hfull
    · exact congrArg (· ++ [p.totalMsgDistribution.values]) h.reports

theorem Waiting.tick (h : p.Waiting) : p.tick.Waiting :=
  ⟨⟨h.state, h.tests, h.size, h.values, h.reports, h.handshake, h.done, h.entities, h.uncounted⟩,
    h.few, h.missed⟩

/-- A process that runs the pattern, between two cycles. It has not thrown. -/
def Steady (o : Outcome PingPongPattern) : Prop := ∃ p, o = .ret p ∧ (p.Waiting ∨ p.Over)

theorem steady_start (pub : PubCustom) (sub : SubCustom) (number : Option ℤ) :
    Steady (start pub sub number) :=
  ⟨_, rfl, .inl (waiting_of_fresh rfl ⟨le_refl 0, (by decide : (0 : ℤ) ≤ numTest)⟩ rfl
    (fun _ hv ↦ absurd hv List.not_mem_nil) rfl rfl rfl rfl rfl)⟩

theorem Steady.pass {o : Outcome PingPongPattern} (h : Steady o) (io : PingPongAnswers) :
    Steady (pass o io) := by
  obtain ⟨p, rfl, hw | ho⟩ := h
  · rw [pass_ret io hw.state]
    refine ⟨_, rfl, ?_⟩
    obtain hw' | ho' := ((hw.read io).write io).update (missed_nonneg hw io) io
    · exact .inl hw'.tick
    · exact .inr ⟨ho'.state, ho'.tests, ho'.size, ho'.values, ho'.reports⟩
  · have hended : p.exec.currentState ≠ .EXECUTION := by
      rw [ho.state]
      decide
    rw [PingPongPattern.pass, mainPass_of_ended (w := p) _ hended]
    exact ⟨p, rfl, .inr ho⟩

/-- **The tests of a run.** Whatever the two objects answer, the pattern never throws; the
simulation ends with the test after the last one that is recorded, and every value in its
statistics counts the batches of one test. -/
theorem tests_run (pub : PubCustom) (sub : SubCustom) (number : Option ℤ)
    (ios : List PingPongAnswers) :
    ∃ p, run pass (start pub sub number) ios = .ret p ∧ (p.Waiting ∨ p.Over) :=
  run_invariant (I := Steady) (steady_start pub sub number) (fun _ io h ↦ h.pass io) ios

end PingPongPattern

end IndraDds
