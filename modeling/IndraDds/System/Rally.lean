import IndraDds.Stress.PingPong
import Mathlib.Algebra.Group.Nat.Defs

/-!
# Two parties at ping-pong

Two processes run the ping-pong pattern against each other, each publishing where the other
subscribes. A batch that has been published is on its way until it is received or lost; the
channels are best effort. Of the subscriber, whose code is missing, it is assumed that `run`
succeeds only when a batch is there that it has not been given before.

A party that has the ball, or a batch that is on its way, is all there is of the game: every cycle
keeps their number, however the cycles of the two sides interleave and however often they begin a
new test. So there are as many balls as processes that were started as the starter, less those
lost, and when the last one is lost nothing is ever published again.
-/

namespace IndraDds

open Transition

/-! ## The composition -/

/-- The two processes. -/
inductive Side where
  | one
  | two
deriving DecidableEq, Repr

def Side.other : Side → Side
  | one => two
  | two => one

@[simp] theorem Side.other_ne (i : Side) : i.other ≠ i := by cases i <;> decide

@[simp] theorem Side.other_other (i : Side) : i.other.other = i := by cases i <;> rfl

theorem Side.eq_or_eq_other (i j : Side) : j = i ∨ j = i.other := by
  cases i <;> cases j <;> decide

@[simp] theorem Side.ne_other (i : Side) : i ≠ i.other := by cases i <;> decide

namespace PingPongPattern

/-- The cycle answered by `io` takes a batch from the subscriber. -/
def receives (o : Outcome PingPongPattern) (io : PingPongAnswers) : Bool :=
  match o with
  | .ret p => p.exec.inExecution && io.readMatch && p.status = .PONG && io.ran
  | .thrown _ _ => false

/-- The size of the batch it publishes, if it does. -/
def sends (o : Outcome PingPongPattern) (io : PingPongAnswers) : Option ℤ :=
  match o with
  | .ret p =>
    if p.exec.inExecution && (p.read io).status = .PING && io.writeMatch && io.published then
      some (p.read io).pub.messagesPerCycle
    else none
  | .thrown _ _ => none

/-- Whether a party has the ball. -/
def holds (o : Outcome PingPongPattern) : ℕ := if o.world.status = .PING then 1 else 0

end PingPongPattern

/-- The two patterns, and the sizes of the batches on their way to each. -/
structure Rally where
  party : Side → Outcome PingPongPattern
  inFlight : Side → List ℤ := fun _ ↦ []

namespace Rally

/-- A pass of one of the two loops, or the loss of a batch on its way to a side. -/
inductive Label where
  | cycle (i : Side) (io : PingPongAnswers)
  | lose (i : Side)

/-- What a cycle of side `i` leaves on its way to side `j`. -/
def carry (s : Rally) (i : Side) (io : PingPongAnswers) (j : Side) : List ℤ :=
  if j = i then
    if PingPongPattern.receives (s.party i) io then (s.inFlight i).tail else s.inFlight i
  else s.inFlight j ++ (PingPongPattern.sends (s.party i) io).toList

def step (s : Rally) : Label → Rally
  | .cycle i io =>
    { party := fun j ↦ if j = i then PingPongPattern.pass (s.party i) io else s.party j
      inFlight := s.carry i io }
  | .lose i =>
    { s with inFlight := fun j ↦ if j = i then (s.inFlight i).tail else s.inFlight j }

/-- The two objects each process is given, and what was typed at its prompt. -/
structure Setup where
  pub : Side → PubCustom
  sub : Side → SubCustom
  number : Side → Option ℤ

def start (c : Setup) : Rally where
  party i := PingPongPattern.start (c.pub i) (c.sub i) (c.number i)

def runOf (c : Setup) (ls : List Label) : Rally := run step (start c) ls

theorem runOf_concat (c : Setup) (ls : List Label) (l : Label) :
    runOf c (ls ++ [l]) = (runOf c ls).step l := run_concat _ _ _

/-- A `run` that succeeds is given a batch. -/
def Genuine (s : Rally) : Label → Prop
  | .cycle i io => PingPongPattern.receives (s.party i) io = true → s.inFlight i ≠ []
  | .lose _ => True

/-- The step loses a batch. -/
def loses (s : Rally) : Label → Bool
  | .cycle _ _ => false
  | .lose i => s.inFlight i ≠ []

/-- The batches lost in a run. -/
def lost (c : Setup) (ls : List Label) : ℕ := visits step loses (start c) ls

/-- The processes that were started as the starter. -/
def starters (c : Setup) : ℕ :=
  (if (c.number .one).getD 1 = 1 then 1 else 0) + if (c.number .two).getD 1 = 1 then 1 else 0

/-- The balls in the game. -/
def balls (s : Rally) : ℕ :=
  PingPongPattern.holds (s.party .one) + PingPongPattern.holds (s.party .two) +
    (s.inFlight .one).length + (s.inFlight .two).length

end Rally

/-! ## A cycle keeps the ball -/

namespace PingPongPattern

variable {p : PingPongPattern}

@[simp] theorem status_update (io : PingPongAnswers) (p : PingPongPattern) :
    (p.update io).status = p.status := by
  have hupdates := p.updates io
  generalize p.update io = q at hupdates
  cases hupdates <;> rfl

theorem holds_read (hrun : p.exec.currentState = .EXECUTION) (io : PingPongAnswers) :
    holds (.ret (p.read io)) = holds (.ret p) + if receives (.ret p) io then 1 else 0 := by
  have hreceives : receives (.ret p) io = (io.readMatch && p.status = .PONG && io.ran) := by
    rw [receives, Executive.inExecution_iff.mpr hrun, Bool.true_and]
  have hreads := p.reads io
  rw [hreceives]
  generalize p.read io = q at hreads
  cases hreads with
  | skip h =>
    rcases h with h | h
    · simp [h]
    · simp [h]
  | miss hpong hran missed hmissed => simp [holds, hpong, hran]
  | shake hpong hreceived hdone hfew => simp [holds, answer, hpong, hreceived]
  | shaken hpong hreceived hdone hfull => simp [holds, answer, hpong, hreceived]
  | count hpong hreceived hdone => simp [holds, answer, hpong, hreceived]

theorem holds_write (hrun : p.exec.currentState = .EXECUTION) (io : PingPongAnswers) :
    holds (.ret ((p.read io).write io)) + (sends (.ret p) io).toList.length
      = holds (.ret (p.read io)) := by
  have hsends : sends (.ret p) io
      = if (p.read io).status = .PING && io.writeMatch && io.published then
          some (p.read io).pub.messagesPerCycle else none := by
    rw [sends, Executive.inExecution_iff.mpr hrun, Bool.true_and]
  have hwrites := (p.read io).writes io
  rw [hsends]
  generalize p.read io = q at hwrites ⊢
  generalize q.write io = r at hwrites
  cases hwrites with
  | hold h =>
    rcases h with h | h
    · simp [h]
    · simp [h]
  | fail hping hfailed => simp [holds, hping, hfailed]
  | send hping hsent => simp [holds, hping, hsent]

/-- **A cycle keeps the ball**: what a party has after it and what it has sent are what it had and
what it has received. -/
theorem holds_pass (o : Outcome PingPongPattern) (io : PingPongAnswers) :
    holds (pass o io) + (sends o io).toList.length
      = holds o + if receives o io then 1 else 0 := by
  rcases o with p | ⟨what, p⟩
  · by_cases hrun : p.exec.currentState = .EXECUTION
    · have hlast : holds (pass (.ret p) io) = holds (.ret ((p.read io).write io)) := by
        rw [pass_ret io hrun, holds, holds, Outcome.world_ret, Outcome.world_ret, tick,
          status_update]
      rw [hlast, holds_write hrun, holds_read hrun]
    · have hexec : p.exec.inExecution = false := by
        rw [← Bool.not_eq_true, Executive.inExecution_iff]
        exact hrun
      rw [pass, mainPass_of_ended (w := p) _ hrun, sends, receives, hexec]
      simp
  · rfl

end PingPongPattern

namespace Rally

variable {c : Setup} {s : Rally}

theorem balls_cycle {i : Side} {io : PingPongAnswers} (h : s.Genuine (.cycle i io)) :
    (s.step (.cycle i io)).balls = s.balls := by
  have hkeep := PingPongPattern.holds_pass (s.party i) io
  -- the batches on their way to the side that takes its turn
  have htaken : (s.carry i io i).length + (if PingPongPattern.receives (s.party i) io then 1 else 0)
      = (s.inFlight i).length := by
    rw [carry, if_pos rfl]
    split_ifs with hreceives
    · have hpos := List.length_pos_iff.mpr (h hreceives)
      rw [List.length_tail]
      omega
    · rfl
  have hsent : (s.carry i io i.other).length
      = (s.inFlight i.other).length + (PingPongPattern.sends (s.party i) io).toList.length := by
    rw [carry, if_neg i.other_ne, List.length_append]
  cases i with
  | one =>
    change PingPongPattern.holds (PingPongPattern.pass (s.party .one) io) +
      PingPongPattern.holds (s.party .two) + (s.carry .one io .one).length +
        (s.carry .one io .two).length = _
    rw [balls]
    change (s.carry .one io .two).length = (s.inFlight .two).length + _ at hsent
    omega
  | two =>
    change PingPongPattern.holds (s.party .one) +
      PingPongPattern.holds (PingPongPattern.pass (s.party .two) io) +
        (s.carry .two io .one).length + (s.carry .two io .two).length = _
    rw [balls]
    change (s.carry .two io .one).length = (s.inFlight .one).length + _ at hsent
    omega

theorem balls_lose (i : Side) :
    (s.step (.lose i)).balls + (if s.loses (.lose i) then 1 else 0) = s.balls := by
  have htail : (s.inFlight i).tail.length + (if s.loses (.lose i) then 1 else 0)
      = (s.inFlight i).length := by
    rcases hflight : s.inFlight i with _ | ⟨size, rest⟩
    · simp [loses, hflight]
    · simp [loses, hflight]
  cases i with
  | one =>
    change PingPongPattern.holds (s.party .one) + PingPongPattern.holds (s.party .two) +
      (s.inFlight .one).tail.length + (s.inFlight .two).length + _ = _
    rw [balls]
    omega
  | two =>
    change PingPongPattern.holds (s.party .one) + PingPongPattern.holds (s.party .two) +
      (s.inFlight .one).length + (s.inFlight .two).tail.length + _ = _
    rw [balls]
    omega

theorem balls_start (c : Setup) : (start c).balls = starters c := by
  have hholds : ∀ i, PingPongPattern.holds ((start c).party i)
      = if (c.number i).getD 1 = 1 then 1 else 0 := by
    intro i
    change (if (if (c.number i).getD 1 = 1 then _ else _) = PingPongPattern.Status.PING then 1
      else 0) = _
    split_ifs <;> simp_all
  rw [balls, starters, hholds, hholds]
  rfl

/-- **The balls of a game.** In every run in which no batch is received that was not published,
whatever the interleaving and however many tests have been finished, there are as many balls as
starters, less those lost. -/
theorem balls_run (c : Setup) (ls : List Label) (h : Along step Genuine (start c) ls) :
    (runOf c ls).balls + lost c ls = starters c := by
  induction ls using List.reverseRecOn with
  | nil => exact balls_start c
  | append_singleton ls l ih =>
    rw [along_concat] at h
    have hlast : (runOf c ls).Genuine l := h.2
    rw [runOf_concat, lost, visits_concat, ← ih h.1, lost, ← runOf]
    cases l with
    | cycle i io =>
      rw [balls_cycle hlast]
      rfl
    | lose i =>
      have hlose := balls_lose (s := runOf c ls) i
      omega

/-- One side starts, the other does not. -/
def twoSides : Setup where
  pub _ := {}
  sub _ := {}
  number
    | .one => some 1
    | .two => some 2

/-- The first batch and its reply, which is lost. -/
theorem balls_of_lost_reply :
    (runOf twoSides [.cycle .one {}, .cycle .two {}, .lose .one]).balls
      + lost twoSides [.cycle .one {}, .cycle .two {}, .lose .one] = starters twoSides :=
  balls_run twoSides [.cycle .one {}, .cycle .two {}, .lose .one]
    ⟨fun h ↦ absurd h (by decide), fun _ ↦ by decide, trivial, trivial⟩

/-! ## When the ball is lost -/

end Rally

namespace PingPongPattern

variable {p q : PingPongPattern} {io : PingPongAnswers}

/-- The tests finished, with the one that will be: nothing but a test whose handshake is done comes
to an end without a further batch. -/
def results (p : PingPongPattern) : ℤ :=
  p.currentTest + if p.handshakeDone && p.exec.inExecution then 1 else 0

theorem read_of_not_receives (hrun : p.exec.currentState = .EXECUTION)
    (hnone : receives (.ret p) io = false) :
    ∃ sub missed, p.read io = { p with sub := sub, missedMessages := missed } := by
  have hreads := p.reads io
  have hrunning := Executive.inExecution_iff.mpr hrun
  generalize p.read io = r at hreads
  cases hreads with
  | skip => exact ⟨_, _, rfl⟩
  | miss hpong hran missed => exact ⟨_, missed, rfl⟩
  | _ hpong hreceived =>
    rw [receives, hrunning, hreceived.1, hreceived.2, hpong] at hnone
    exact absurd hnone (by decide)

/-- The end of a cycle finishes no more tests than were in sight. -/
theorem results_update (h : p.exec.currentState = .EXECUTION) (io : PingPongAnswers) :
    (p.update io).results = p.results := by
  have hrunning := Executive.inExecution_iff.mpr h
  have hupdates := p.updates io
  generalize p.update io = q at hupdates
  cases hupdates with
  | goOn => rfl
  | play => rfl
  | next hdone hmore =>
    change p.currentTest + 1 + 0 = _
    rw [results, hdone, hrunning, Int.add_zero]
    rfl
  | last hdone hlast =>
    change p.currentTest + 1 + (if p.handshakeDone && false then 1 else 0) = _
    rw [results, hdone, hrunning, Bool.and_false, if_neg Bool.false_ne_true, Int.add_zero]
    rfl

/-- A party without the ball that receives nothing sends nothing and waits on. -/
theorem pass_of_not_receives (hpong : p.status = .PONG) (hnone : receives (.ret p) io = false) :
    sends (.ret p) io = none ∧ ∃ q, pass (.ret p) io = .ret q ∧ q.status = .PONG ∧
      q.results = p.results := by
  by_cases hrun : p.exec.currentState = .EXECUTION
  · obtain ⟨sub, missed, hread⟩ := read_of_not_receives hrun hnone
    have hhold : (p.read io).write io = p.read io := by
      rw [hread, write]
      exact if_pos (by simp [hpong])
    constructor
    · rw [sends, hread]
      simp [hpong]
    · rw [pass_ret io hrun, hhold]
      refine ⟨_, rfl, ?_, ?_⟩
      · rw [tick, status_update, hread]
        exact hpong
      · have hupdate := results_update (p := p.read io) (by rw [hread]; exact hrun) io
        rw [hread] at hupdate ⊢
        exact hupdate
  · have hexec : p.exec.inExecution = false := by
      rw [← Bool.not_eq_true, Executive.inExecution_iff]
      exact hrun
    rw [pass, mainPass_of_ended (w := p) _ hrun, sends, hexec]
    exact ⟨rfl, p, rfl, hpong, rfl⟩

/-- What becomes of a party `p` whose ball is lost: it waits, finishes the test it may have been
in, and ends only if that was its last one. -/
structure Fades (p q : PingPongPattern) : Prop where
  status : q.status = .PONG
  tests : q.currentTest ≤ p.currentTest + if p.handshakeDone then 1 else 0
  ended : q.exec.currentState ≠ .EXECUTION →
    p.exec.currentState ≠ .EXECUTION ∨ p.currentTest = numTest ∧ p.handshakeDone = true

theorem fades_of_results (hp : p.Waiting ∨ p.Over) (hq : q.Waiting ∨ q.Over)
    (hstatus : q.status = .PONG) (h : q.results = p.results) : p.Fades q := by
  have hle : q.currentTest ≤ q.results := by
    rw [results]
    split_ifs <;> omega
  have hge : p.results ≤ p.currentTest + if p.handshakeDone then 1 else 0 := by
    rw [results]
    rcases p.handshakeDone with _ | _
    · exact le_refl _
    · simp only [Bool.true_and, if_true]
      split_ifs
      · exact le_refl _
      · exact Int.add_le_add_left (by decide) _
  refine ⟨hstatus, hle.trans (h.le.trans hge), fun hend ↦ ?_⟩
  by_cases hrun : p.exec.currentState = .EXECUTION
  · -- the last test that was finished is the one that was in sight
    have hover : q.Over := hq.resolve_left fun hw ↦ hend hw.state
    have hwaiting : p.Waiting := hp.resolve_right fun ho ↦ by
      rw [ho.state] at hrun
      exact absurd hrun (by decide)
    have htests := hover.tests
    have hmost := hwaiting.tests.2
    rcases hdone : p.handshakeDone with _ | _
    · rw [hdone] at hge
      simp only [Bool.false_eq_true, if_false] at hge
      omega
    · rw [hdone] at hge
      simp only [if_true] at hge
      exact .inr ⟨by omega, rfl⟩
  · exact .inl hrun

end PingPongPattern

namespace Rally

variable {c : Setup} {s : Rally}

/-- The step publishes nothing. -/
def Silent (s : Rally) : Label → Prop
  | .cycle i io => PingPongPattern.sends (s.party i) io = none
  | .lose _ => True

theorem steady_run (c : Setup) (ls : List Label) (i : Side) :
    PingPongPattern.Steady ((runOf c ls).party i) := by
  refine run_invariant (I := fun s : Rally ↦ ∀ i, PingPongPattern.Steady (s.party i)) ?_ ?_ ls i
  · exact fun i ↦ PingPongPattern.steady_start _ _ _
  · rintro s (⟨j, io⟩ | j) hs i
    · change PingPongPattern.Steady (if i = j then PingPongPattern.pass (s.party j) io else s.party i)
      split_ifs
      · exact (hs j).pass io
      · exact hs i
    · exact hs i

/-- No ball is left, and the tests that can still come to an end are those of `r`. -/
structure Dead (r : Side → ℤ) (s : Rally) : Prop where
  party : ∀ i, ∃ p, s.party i = .ret p ∧ p.status = .PONG ∧ p.results = r i
  inFlight : ∀ i, s.inFlight i = []

theorem Dead.step {r : Side → ℤ} (h : s.Dead r) (l : Label) (hl : s.Genuine l) :
    s.Silent l ∧ (s.step l).Dead r := by
  rcases l with ⟨i, io⟩ | i
  · obtain ⟨p, hp, hpong, hresults⟩ := h.party i
    have hnone : PingPongPattern.receives (s.party i) io = false := by
      rw [← Bool.not_eq_true]
      exact fun hreceives ↦ hl hreceives (h.inFlight i)
    rw [hp] at hnone
    obtain ⟨hsends, q, hq, hpong', hresults'⟩ :=
      PingPongPattern.pass_of_not_receives hpong hnone
    rw [← hp] at hsends hnone
    refine ⟨hsends, ⟨fun j ↦ ?_, fun j ↦ ?_⟩⟩
    · change ∃ p, (if j = i then PingPongPattern.pass (s.party i) io else s.party j) = .ret p ∧ _
      split_ifs with hj
      · rw [hp, hj]
        exact ⟨q, hq, hpong', hresults'.trans hresults⟩
      · exact h.party j
    · change s.carry i io j = []
      rw [carry, hsends, hnone, h.inFlight i, h.inFlight j]
      split_ifs <;> rfl
  · refine ⟨trivial, ⟨h.party, fun j ↦ ?_⟩⟩
    change (if j = i then (s.inFlight i).tail else s.inFlight j) = []
    rw [h.inFlight i, h.inFlight j]
    split_ifs <;> rfl

theorem Dead.run {r : Side → ℤ} (h : s.Dead r) {ls : List Label}
    (hls : Along Rally.step Genuine s ls) :
    Along Rally.step Silent s ls ∧ (Transition.run Rally.step s ls).Dead r := by
  induction ls generalizing s with
  | nil => exact ⟨trivial, h⟩
  | cons l ls ih =>
    obtain ⟨hsilent, hstep⟩ := h.step l hls.1
    obtain ⟨hrest, hrun⟩ := ih hstep hls.2
    exact ⟨⟨hsilent, hrest⟩, hrun⟩

/-- A game without balls. -/
theorem dead_of_balls (hsteady : ∀ i, PingPongPattern.Steady (s.party i)) (h : s.balls = 0) :
    s.Dead fun i ↦ (s.party i).world.results := by
  have hstatus : ∀ i, PingPongPattern.holds (s.party i) = 0 ∧ s.inFlight i = [] := by
    intro i
    simp only [← List.length_eq_zero_iff]
    rw [balls] at h
    cases i with
    | one => omega
    | two => omega
  refine ⟨fun i ↦ ?_, fun i ↦ (hstatus i).2⟩
  obtain ⟨p, hp, -⟩ := hsteady i
  have hholds := (hstatus i).1
  rw [hp, PingPongPattern.holds, Outcome.world_ret] at hholds
  refine ⟨p, hp, ?_, by rw [hp]; rfl⟩
  cases hp' : p.status with
  | PING =>
    rw [hp'] at hholds
    exact absurd hholds (by decide)
  | PONG => rfl

/-- **A lost ball is the end of the game.** Once every ball has been lost, neither side publishes
again; each finishes at most the test it was in, and unless that was its last one its process never
ends. -/
theorem silent_after_loss (c : Setup) (ls ls' : List Label)
    (h : Along step Genuine (start c) (ls ++ ls')) (hlost : lost c ls = starters c) :
    Along step Silent (runOf c ls) ls' ∧ ∀ i, ∃ p q, (runOf c ls).party i = .ret p ∧
      (runOf c (ls ++ ls')).party i = .ret q ∧ p.Fades q := by
  obtain ⟨hbefore, hafter⟩ := along_append.mp h
  have hballs : (runOf c ls).balls = 0 := by
    have hrun := balls_run c ls hbefore
    omega
  obtain ⟨hsilent, hdead⟩ := (dead_of_balls (steady_run c ls) hballs).run hafter
  refine ⟨hsilent, fun i ↦ ?_⟩
  obtain ⟨p, hp, hbooks⟩ := steady_run c ls i
  obtain ⟨q, hq, hbooks'⟩ := steady_run c (ls ++ ls') i
  obtain ⟨q', hq', hpong, hresults⟩ := hdead.party i
  have hsame : q' = q := by
    rw [runOf, run_append] at hq
    exact Outcome.ret.inj (hq'.symm.trans hq)
  subst hsame
  rw [hp, Outcome.world_ret] at hresults
  exact ⟨p, q', hp, hq, PingPongPattern.fades_of_results hbooks hbooks' hpong hresults⟩

/-- The first batch is lost and nothing follows it. -/
theorem silent_after_first_batch :
    Along step Silent (runOf twoSides [.cycle .one {}, .lose .two])
        [.cycle .two { ran := false }] ∧
      ∀ i, ∃ p q, (runOf twoSides [.cycle .one {}, .lose .two]).party i = .ret p ∧
        (runOf twoSides ([.cycle .one {}, .lose .two] ++ [.cycle .two { ran := false }])).party i
          = .ret q ∧ p.Fades q :=
  silent_after_loss twoSides [.cycle .one {}, .lose .two] [.cycle .two { ran := false }]
    ⟨fun h ↦ absurd h (by decide), trivial, fun h ↦ absurd h (by decide), trivial⟩ (by decide)

/-! ## The sizes of the batches -/

end Rally

namespace PingPongPattern

variable {p : PingPongPattern} {io : PingPongAnswers}

/-- The calls of a cycle leave the two counts of the pattern alone. -/
structure Keeps (io : PingPongAnswers) : Prop where
  run : ∀ s, (io.afterRun s).expectedMessagesCycle = s.expectedMessagesCycle
  publish : ∀ p, (io.afterPublish p).messagesPerCycle = p.messagesPerCycle

/-- The batches received in the current test. -/
def received (p : PingPongPattern) : ℤ := p.handshakeCount + p.entities

/-- The next batch is one message longer than the number received, and as many are expected. -/
structure Counts (p : PingPongPattern) : Prop where
  messagesPerCycle : p.pub.messagesPerCycle = p.received + 1
  expected : p.sub.expectedMessagesCycle = p.received + 1

theorem Counts.read (h : p.Counts) (hw : p.Waiting) (hio : Keeps io) :
    (p.read io).Counts ∧
      (p.read io).received = p.received + if receives (.ret p) io then 1 else 0 := by
  have hreceives : receives (.ret p) io = (io.readMatch && p.status = .PONG && io.ran) := by
    rw [receives, Executive.inExecution_iff.mpr hw.state, Bool.true_and]
  obtain ⟨hmessages, hexpected⟩ := h
  have hreads := p.reads io
  rw [hreceives]
  generalize p.read io = q at hreads
  -- a batch that is received raises all three counts
  have hanswer : ∀ r : PingPongPattern, r.pub = p.pub → r.sub = io.afterRun p.sub →
      r.received = p.received + 1 → r.answer.Counts ∧ r.answer.received = p.received + 1 := by
    intro r hpub hsub hreceived
    refine ⟨⟨?_, ?_⟩, hreceived⟩
    · change r.pub.messagesPerCycle + 1 = r.received + 1
      rw [hpub, hmessages, hreceived]
    · change r.sub.expectedMessagesCycle + 1 = r.received + 1
      rw [hsub, hio.run, hexpected, hreceived]
  cases hreads with
  | skip hskip =>
    have hnone : (io.readMatch && p.status = .PONG && io.ran) = false := by
      rcases hskip with hskip | hskip <;> simp [hskip]
    rw [hnone]
    exact ⟨⟨hmessages, hexpected⟩, (Int.add_zero _).symm⟩
  | miss hpong hran missed hmissed =>
    rw [hran, Bool.and_false]
    exact ⟨⟨hmessages, (hio.run _).trans hexpected⟩, (Int.add_zero _).symm⟩
  | shake hpong hreceived hdone hfew =>
    rw [hreceived.1, hreceived.2, hpong]
    refine hanswer _ rfl rfl ?_
    rw [received, received]
    exact Int.add_right_comm _ _ _
  | shaken hpong hreceived hdone hfull =>
    rw [hreceived.1, hreceived.2, hpong]
    refine hanswer _ rfl rfl ?_
    rw [received, received, hw.uncounted hdone]
    exact Int.add_right_comm _ _ _
  | count hpong hreceived hdone =>
    rw [hreceived.1, hreceived.2, hpong]
    refine hanswer _ rfl rfl ?_
    rw [received, received]
    exact (Int.add_assoc _ _ _).symm

theorem Counts.write (h : p.Counts) (hio : Keeps io) :
    (p.write io).Counts ∧ (p.write io).received = p.received := by
  have hwrites := p.writes io
  generalize p.write io = q at hwrites
  cases hwrites with
  | hold => exact ⟨h, rfl⟩
  | _ => exact ⟨⟨(hio.publish _).trans h.messagesPerCycle, h.expected⟩, rfl⟩

/-- The counts begin again with every test. -/
theorem Counts.update (h : p.Counts) (io : PingPongAnswers) :
    (p.update io).Counts ∧ ((p.update io).currentTest = p.currentTest →
      (p.update io).received = p.received) := by
  have hupdates := p.updates io
  generalize p.update io = q at hupdates
  cases hupdates with
  | goOn => exact ⟨⟨h.messagesPerCycle, h.expected⟩, fun _ ↦ rfl⟩
  | play => exact ⟨h, fun _ ↦ rfl⟩
  | next =>
    refine ⟨⟨rfl, rfl⟩, fun hsame ↦ absurd hsame ?_⟩
    exact (Int.lt_succ p.currentTest).ne'
  | last => exact ⟨⟨h.messagesPerCycle, h.expected⟩, fun _ ↦ rfl⟩

/-- Tests are finished at the end of a cycle, one at a time. -/
theorem currentTest_cycle (io : PingPongAnswers) (p : PingPongPattern) :
    ((p.read io).write io).currentTest = p.currentTest ∧
      p.currentTest ≤ (((p.read io).write io).update io).currentTest := by
  have hread : (p.read io).currentTest = p.currentTest := by
    have hreads := p.reads io
    generalize p.read io = q at hreads
    cases hreads <;> rfl
  have hwrite : ((p.read io).write io).currentTest = p.currentTest := by
    have hwrites := (p.read io).writes io
    rw [← hread]
    generalize (p.read io).write io = q at hwrites
    cases hwrites <;> rfl
  refine ⟨hwrite, ?_⟩
  have hupdates := ((p.read io).write io).updates io
  rw [← hwrite]
  generalize ((p.read io).write io).update io = q at hupdates
  cases hupdates with
  | goOn => exact le_refl _
  | play => exact le_refl _
  | next => exact Int.le_add_one (le_refl _)
  | last => exact Int.le_add_one (le_refl _)

/-- What a cycle does to the counts. -/
structure Counting (o : Outcome PingPongPattern) (io : PingPongAnswers) : Prop where
  counts : (pass o io).world.Counts
  tests : o.world.currentTest ≤ (pass o io).world.currentTest
  received : (pass o io).world.currentTest = o.world.currentTest →
    (pass o io).world.received = o.world.received + if receives o io then 1 else 0
  sends : ∀ size ∈ (sends o io).toList,
    size = o.world.received + (if receives o io then 1 else 0) + 1

theorem counting {o : Outcome PingPongPattern} (hsteady : Steady o) (h : o.world.Counts)
    (hio : Keeps io) : Counting o io := by
  obtain ⟨p, rfl, hw | hover⟩ := hsteady
  · rw [Outcome.world_ret] at h
    obtain ⟨hread, hreceived⟩ := h.read hw hio
    obtain ⟨hwrite, hreceived'⟩ := hread.write hio
    obtain ⟨hupdate, hreceived''⟩ := hwrite.update io
    obtain ⟨htests, hle⟩ := currentTest_cycle io p
    have hpass := pass_ret io hw.state
    refine ⟨?_, ?_, ?_, ?_⟩
    · rw [hpass]
      exact ⟨hupdate.messagesPerCycle, hupdate.expected⟩
    · rw [hpass]
      exact hle
    · rw [hpass]
      intro hsame
      have hlast := hreceived'' (hsame.trans htests.symm)
      exact hlast.trans (hreceived'.trans hreceived)
    · intro size hsize
      rw [Option.mem_toList, PingPongPattern.sends] at hsize
      split_ifs at hsize with hsent
      rw [← Option.some.inj hsize, hread.messagesPerCycle, hreceived]
      rfl
  · have hended : p.exec.currentState ≠ .EXECUTION := by
      rw [hover.state]
      decide
    have hexec : p.exec.inExecution = false := by
      rw [← Bool.not_eq_true, Executive.inExecution_iff]
      exact hended
    have hpass : pass (.ret p) io = .ret p := mainPass_of_ended _ hended
    refine ⟨?_, ?_, fun _ ↦ ?_, fun size hsize ↦ ?_⟩
    · rw [hpass]
      exact h
    · rw [hpass]
    · rw [hpass, receives, hexec]
      exact (Int.add_zero _).symm
    · rw [PingPongPattern.sends, hexec] at hsize
      exact absurd hsize List.not_mem_nil

end PingPongPattern

namespace Rally

variable {c : Setup} {s : Rally}

/-- How many more batches a side has received than the other when the ball is its own. -/
def lead : Side → ℤ
  | .one => 0
  | .two => 1

/-- The batches a side has received in its current test. -/
def received (s : Rally) (i : Side) : ℤ := (s.party i).world.received

/-- The ball tells how far the two sides have come: whoever has it has received as many batches as
the other, or one more if it did not start; what is on its way was sent by whoever had it. -/
structure InStep (s : Rally) : Prop where
  holds : ∀ i, PingPongPattern.holds (s.party i) ≠ 0 →
    s.received i = s.received i.other + lead i
  inFlight : ∀ i, ∀ size ∈ s.inFlight i,
    size = s.received i.other + 1 ∧ s.received i.other = s.received i + lead i.other

theorem lead_add_lead_other (i : Side) : lead i + lead i.other = 1 := by cases i <;> rfl

/-- With one ball in the game, a side that has it or is about to get it is the only one. -/
theorem alone (h : s.balls ≤ 1) (i : Side) :
    PingPongPattern.holds (s.party i) + PingPongPattern.holds (s.party i.other) +
      (s.inFlight i).length + (s.inFlight i.other).length ≤ 1 := by
  rw [balls] at h
  cases i with
  | one => exact h
  | two =>
    change PingPongPattern.holds (s.party .two) + PingPongPattern.holds (s.party .one) +
      (s.inFlight .two).length + (s.inFlight .one).length ≤ 1
    omega

theorem InStep.cycle (h : s.InStep) (hballs : s.balls ≤ 1) {i : Side} {io : PingPongAnswers}
    (hg : s.Genuine (.cycle i io)) (hcount : PingPongPattern.Counting (s.party i) io)
    (hsame : (PingPongPattern.pass (s.party i) io).world.currentTest
      = (s.party i).world.currentTest) : (s.step (.cycle i io)).InStep := by
  have halone := alone hballs i
  have hlead := lead_add_lead_other i
  have hkeep := PingPongPattern.holds_pass (s.party i) io
  have hother : (s.step (.cycle i io)).party i.other = s.party i.other := if_neg i.other_ne
  have hself : (s.step (.cycle i io)).party i = PingPongPattern.pass (s.party i) io := if_pos rfl
  have hreceived' : (s.step (.cycle i io)).received i.other = s.received i.other := by
    rw [received, hother, received]
  have hreceived : (s.step (.cycle i io)).received i = s.received i +
      if PingPongPattern.receives (s.party i) io then 1 else 0 := by
    rw [received, hself]
    exact hcount.received hsame
  have hcarry : (s.step (.cycle i io)).inFlight = s.carry i io := rfl
  -- a side that has had the ball or receives it is in step afterwards
  have hball : PingPongPattern.holds (s.party i) ≠ 0 ∨
      PingPongPattern.receives (s.party i) io = true →
        (s.step (.cycle i io)).received i = (s.step (.cycle i io)).received i.other + lead i := by
    rw [hreceived, hreceived']
    intro hhad
    by_cases hr : PingPongPattern.receives (s.party i) io = true
    · obtain ⟨size, hsize⟩ := List.exists_mem_of_ne_nil _ (hg hr)
      have hsent := (h.inFlight i size hsize).2
      rw [if_pos hr]
      omega
    · rw [if_neg hr, Int.add_zero]
      exact h.holds i (hhad.resolve_right hr)
  -- if the ball is elsewhere, this side receives nothing
  have hquiet : PingPongPattern.holds (s.party i.other) ≠ 0 ∨ s.inFlight i.other ≠ [] →
      (s.step (.cycle i io)).received i = s.received i := by
    intro helse
    have hnone : ¬PingPongPattern.receives (s.party i) io = true := by
      intro hr
      have hhere := List.length_pos_iff.mpr (hg hr)
      rcases helse with helse | helse
      · omega
      · have hthere := List.length_pos_iff.mpr helse
        omega
    rw [hreceived, if_neg hnone, Int.add_zero]
  refine ⟨fun j hj ↦ ?_, fun j size hsize ↦ ?_⟩
  · obtain rfl | rfl := Side.eq_or_eq_other i j
    · rw [hself] at hj
      refine hball ?_
      by_contra hneither
      rw [not_or, not_not] at hneither
      rw [hneither.1, if_neg hneither.2] at hkeep
      omega
    · rw [hother] at hj
      rw [hreceived', Side.other_other, hquiet (.inl hj)]
      have hold := h.holds _ hj
      rwa [Side.other_other] at hold
  · rw [hcarry, carry] at hsize
    obtain rfl | rfl := Side.eq_or_eq_other i j
    · rw [if_pos rfl] at hsize
      split_ifs at hsize with hr
      · -- the batch that has been received was the only one
        have htail : (s.inFlight j).tail = [] := by
          rw [← List.length_eq_zero_iff, List.length_tail]
          omega
        rw [htail] at hsize
        exact absurd hsize List.not_mem_nil
      · rw [hreceived', hreceived, if_neg hr, Int.add_zero]
        exact h.inFlight j size hsize
    · rw [if_neg i.other_ne, List.mem_append] at hsize
      rw [Side.other_other]
      rcases hsize with hsize | hsize
      · have hold := h.inFlight _ size hsize
        rw [Side.other_other] at hold
        rw [hreceived', hquiet (.inr (List.ne_nil_of_mem hsize))]
        exact hold
      · refine ⟨?_, hball ?_⟩
        · rw [hreceived]
          exact hcount.sends size hsize
        · have hone := List.length_pos_iff.mpr (List.ne_nil_of_mem hsize)
          by_contra hneither
          rw [not_or, not_not] at hneither
          rw [hneither.1, if_neg hneither.2] at hkeep
          omega

theorem InStep.lose (h : s.InStep) (i : Side) : (s.step (.lose i)).InStep := by
  refine ⟨h.holds, fun j size hsize ↦ h.inFlight j size ?_⟩
  change size ∈ (if j = i then (s.inFlight i).tail else s.inFlight j) at hsize
  split_ifs at hsize with hj
  · rw [hj]
    exact List.mem_of_mem_tail hsize
  · exact hsize

/-- What is known of the counts along a run. -/
structure Counted (s : Rally) : Prop where
  counts : ∀ i, (s.party i).world.Counts
  nonneg : ∀ i, 0 ≤ (s.party i).world.currentTest
  inStep : (∀ i, (s.party i).world.currentTest = 0) → s.InStep

theorem Counted.step (h : s.Counted) (hsteady : ∀ i, PingPongPattern.Steady (s.party i))
    (hballs : s.balls ≤ 1) {l : Label} (hg : s.Genuine l)
    (hkeeps : ∀ i io, l = .cycle i io → PingPongPattern.Keeps io) : (s.step l).Counted := by
  rcases l with ⟨i, io⟩ | i
  · have hcount := PingPongPattern.counting (hsteady i) (h.counts i) (hkeeps i io rfl)
    have hparty : ∀ j, (s.step (.cycle i io)).party j
        = if j = i then PingPongPattern.pass (s.party i) io else s.party j := fun _ ↦ rfl
    refine ⟨fun j ↦ ?_, fun j ↦ ?_, fun hzero ↦ ?_⟩
    · rw [hparty]
      split_ifs
      · exact hcount.counts
      · exact h.counts j
    · rw [hparty]
      split_ifs
      · exact (h.nonneg i).trans hcount.tests
      · exact h.nonneg j
    · -- where no test has been finished yet none had been before
      have hzero_i := hzero i
      have hzero_other := hzero i.other
      rw [hparty, if_pos rfl] at hzero_i
      rw [hparty, if_neg i.other_ne] at hzero_other
      have hle := hcount.tests
      have hnonneg := h.nonneg i
      have hbefore : (s.party i).world.currentTest = 0 := by omega
      refine (h.inStep fun j ↦ ?_).cycle hballs hg hcount (hzero_i.trans hbefore.symm)
      obtain rfl | rfl := Side.eq_or_eq_other i j
      · exact hbefore
      · exact hzero_other
  · exact ⟨h.counts, h.nonneg, fun hzero ↦ (h.inStep hzero).lose i⟩

/-- Side one starts and side two does not. -/
def Setup.Opposed (c : Setup) : Prop :=
  (c.number .one).getD 1 = 1 ∧ (c.number .two).getD 1 ≠ 1

theorem counted_start (h : c.Opposed) : (start c).Counted := by
  refine ⟨fun _ ↦ ⟨rfl, rfl⟩, fun _ ↦ le_refl 0, fun _ ↦ ⟨fun i hi ↦ ?_, fun i size hsize ↦ ?_⟩⟩
  · cases i with
    | one => rfl
    | two =>
      refine absurd ?_ hi
      change (if (if (c.number .two).getD 1 = 1 then _ else _) = PingPongPattern.Status.PING then 1
        else 0) = 0
      rw [if_neg h.2]
      rfl
  · exact absurd hsize List.not_mem_nil

theorem counted_run (h : c.Opposed) {ls : List Label} (hg : Along step Genuine (start c) ls)
    (hkeeps : ∀ i io, .cycle i io ∈ ls → PingPongPattern.Keeps io) : (runOf c ls).Counted := by
  induction ls using List.reverseRecOn with
  | nil => exact counted_start h
  | append_singleton ls l ih =>
    rw [along_concat] at hg
    have hcounted := ih hg.1 fun i io hmem ↦ hkeeps i io (List.mem_append_left _ hmem)
    have hstarters : starters c = 1 := by
      rw [starters, if_pos h.1, if_neg h.2]
    have hballs := balls_run c ls hg.1
    rw [runOf_concat]
    refine hcounted.step (steady_run c ls) (by omega) hg.2 fun i io hl ↦ hkeeps i io ?_
    rw [hl]
    exact List.mem_append_right _ (List.mem_singleton_self _)

/-- **The replies are one message too long.** Until one side finishes a test, a batch on its way to
the side that did not start has as many messages as that side expects, and a batch on its way to
the starter has one more. -/
theorem batch_sizes (c : Setup) (h : c.Opposed) (ls : List Label)
    (hg : Along step Genuine (start c) ls)
    (hkeeps : ∀ i io, .cycle i io ∈ ls → PingPongPattern.Keeps io)
    (hfirst : ∀ i, ((runOf c ls).party i).world.currentTest = 0) :
    (∀ size ∈ (runOf c ls).inFlight .two,
        size = ((runOf c ls).party .two).world.sub.expectedMessagesCycle) ∧
      ∀ size ∈ (runOf c ls).inFlight .one,
        size = ((runOf c ls).party .one).world.sub.expectedMessagesCycle + 1 := by
  have hcounted := counted_run h hg hkeeps
  have hstep := hcounted.inStep hfirst
  refine ⟨fun size hsize ↦ ?_, fun size hsize ↦ ?_⟩
  · obtain ⟨hsent, hlead⟩ := hstep.inFlight .two size hsize
    have hzero : lead Side.two.other = 0 := rfl
    rw [(hcounted.counts .two).expected, hsent, hlead, hzero, Int.add_zero]
    rfl
  · obtain ⟨hsent, hlead⟩ := hstep.inFlight .one size hsize
    rw [(hcounted.counts .one).expected, hsent, hlead]
    rfl

/-- The reply to the first batch is on its way. -/
def firstReply : List Label := [.cycle .one {}, .cycle .two {}]

theorem batch_sizes_first_reply :
    (∀ size ∈ (runOf twoSides firstReply).inFlight .two,
        size = ((runOf twoSides firstReply).party .two).world.sub.expectedMessagesCycle) ∧
      ∀ size ∈ (runOf twoSides firstReply).inFlight .one,
        size = ((runOf twoSides firstReply).party .one).world.sub.expectedMessagesCycle + 1 := by
  refine batch_sizes twoSides ⟨rfl, by decide⟩ firstReply
    ⟨fun h ↦ absurd h (by decide), fun _ ↦ by decide, trivial⟩ ?_ (fun i ↦ by cases i <;> rfl)
  intro i io hmem
  have hio : io = {} := by
    simp only [firstReply, List.mem_cons, List.not_mem_nil, or_false, Label.cycle.injEq] at hmem
    rcases hmem with hmem | hmem <;> exact hmem.2
  rw [hio]
  exact ⟨fun _ ↦ rfl, fun _ ↦ rfl⟩

end Rally

end IndraDds
