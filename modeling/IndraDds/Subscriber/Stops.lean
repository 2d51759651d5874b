import IndraDds.Subscriber.Bookkeeping

/-!
# Stops and the rounds they end

A poll takes all the messages its reader holds and hands back the newest, and `read` applies what it
is handed without a look at the test id it is running. So after any history the subscriber runs the
round of the newest message it has heard, and a stop ends that round, whichever round it was sent
for.

`Heard` is what can be told from the polled batches alone. As long as the process is in execution
the subscriber agrees with it, and whether a poll stops a foreign round or moves the test id back is
then a matter of the batch and of what has been heard.

The middleware keeps the order of the two messages of a test id and no other. Of every order of the
messages of two rounds or more some batching breaks the law, also of the order they were sent in.
-/

namespace IndraDds

open Transition

variable {σ : Type}

/-! ## Polls -/

/-- A cycle as the control topic sees it: the samples the reader holds when it is polled, which are
those that have arrived since the poll before. The data side may change in any way. -/
structure Poll (σ : Type) where
  batch : List (Sample TestControl)
  onSub : σ → σ := id
  elapsed : ℚ := 0

namespace Poll

def move (p : Poll σ) : SubMove σ FastSubControl where
  onSub := p.onSub
  onControl c := { c with reader := c.reader.withSamples p.batch }
  elapsed := p.elapsed

def newest (p : Poll σ) : Option TestControl := (messages p.batch).getLast?

end Poll

/-! ## The law -/

namespace SubTest

/-- What the poll hands back. -/
def polled (s : SubTest σ FastSubControl) (p : Poll σ) : PollResult FastSubControl :=
  ISubControl.pollControl (s.meet p.move).subControl {}

variable [ISub σ]

def cycle (o : Outcome (SubTest σ FastSubControl)) (p : Poll σ) :
    Outcome (SubTest σ FastSubControl) :=
  step o p.move

/-- The poll hands back a stop, and the cycle makes the running test inactive. -/
structure Stopped (s : SubTest σ FastSubControl) (p : Poll σ) : Prop where
  running : s.exec.inExecution = true
  applied : (s.polled p).applied = true
  stop : (s.polled p).out.active = false
  before : s.testActive = true
  after : (cycle (.ret s) p).world.testActive = false

/-- A stop ends the round of its own test id only, and the test id never goes back. -/
structure StopsOwn (o : Outcome (SubTest σ FastSubControl)) (p : Poll σ) : Prop where
  own : ∀ s, o = .ret s → s.Stopped p → (s.polled p).out.testId = s.currentTestId
  forward : o.world.currentTestId ≤ (cycle o p).world.currentTestId

end SubTest

/-! ## What the batches tell -/

/-- The test id of the newest message heard, and whether it is a start heard in the cycle
before. -/
structure Heard where
  testId : ℤ := 0
  active : Bool := false
deriving DecidableEq, Repr

namespace Heard

/-- A poll without messages has the armed round measured. -/
def hear (h : Heard) : Option TestControl → Heard
  | none => { h with active := false }
  | some msg => { testId := msg.testId, active := msg.start }

/-- The newest message of a poll does not lie before what has been heard, and if it is a stop that
finds a round armed, it is the stop of that round. -/
def Fits (h : Heard) (newest : Option TestControl) : Prop :=
  ∀ msg, newest = some msg →
    h.testId ≤ msg.testId ∧ (h.active = true → msg.start = false → msg.testId = h.testId)

end Heard

def heard (ps : List (Poll σ)) : Heard := run (fun h p ↦ h.hear p.newest) {} ps

theorem heard_concat (ps : List (Poll σ)) (p : Poll σ) :
    heard (ps ++ [p]) = (heard ps).hear p.newest :=
  run_concat _ _ _

namespace SubTest

/-- The subscriber runs what has been heard. -/
def Tells (h : Heard) (s : SubTest σ FastSubControl) : Prop :=
  s.currentTestId = h.testId ∧ s.testActive = h.active

variable {s : SubTest σ FastSubControl} {p : Poll σ}

theorem polled_of_newest {msg : TestControl} (h : p.newest = some msg) :
    (s.polled p).applied = true ∧ (s.polled p).out = .ofControl msg := by
  have hpoll := FastSubControl.pollControl_some (c := (s.meet p.move).subControl) h {}
  exact ⟨congrArg PollResult.applied hpoll, congrArg PollResult.out hpoll⟩

theorem polled_of_silence (h : p.newest = none) : (s.polled p).applied = false :=
  congrArg PollResult.applied
    (FastSubControl.pollControl_none (c := (s.meet p.move).subControl) h {})

@[simp] theorem currentTestId_tick (s : SubTest σ FastSubControl) :
    s.tick.currentTestId = s.currentTestId := rfl

@[simp] theorem testActive_tick (s : SubTest σ FastSubControl) :
    s.tick.testActive = s.testActive := rfl

variable [ISub σ]

@[simp] theorem cycle_thrown (what : String) (s : SubTest σ FastSubControl) (p : Poll σ) :
    cycle (.thrown what s) p = .thrown what (s.meet p.move) := rfl

theorem cycle_eq (hrun : s.exec.currentState = .EXECUTION) (p : Poll σ) :
    cycle (.ret s) p = ((s.meet p.move).read p.elapsed).bind fun t ↦ .ret t.tick :=
  pass_ret p.elapsed hrun

theorem cycle_of_ended (hended : s.exec.currentState ≠ .EXECUTION) (p : Poll σ) :
    cycle (.ret s) p = .ret (s.meet p.move) :=
  mainPass_of_ended _ hended

/-- The test when the poll is over. -/
def heardAll (s : SubTest σ FastSubControl) (p : Poll σ) : SubTest σ FastSubControl :=
  { s.meet p.move with subControl := (s.polled p).control }

theorem cycle_adopts (hrun : s.exec.currentState = .EXECUTION) {msg : TestControl}
    (h : p.newest = some msg) :
    cycle (.ret s) p = .ret ((s.heardAll p).adopt (.ofControl msg)).tick := by
  obtain ⟨happlied, hout⟩ := polled_of_newest (s := s) h
  rw [cycle_eq hrun, read_applied happlied, Outcome.bind_ret, ← hout]
  rfl

theorem cycle_idles (hrun : s.exec.currentState = .EXECUTION) (h : p.newest = none)
    (hactive : s.testActive = false) : cycle (.ret s) p = .ret (s.heardAll p).tick := by
  rw [cycle_eq hrun, read_inactive (polled_of_silence h) hactive]
  rfl

theorem cycle_measures (hrun : s.exec.currentState = .EXECUTION) (h : p.newest = none)
    (hactive : s.testActive = true) :
    cycle (.ret s) p = ((s.heardAll p).measure p.elapsed).bind fun t ↦ .ret t.tick := by
  rw [cycle_eq hrun, read_active (polled_of_silence h) hactive]
  rfl

/-- A process that has ended does nothing. In any other a cycle adopts the newest message or, where
there is none, measures the round if one is armed. -/
theorem cycle_cases (s : SubTest σ FastSubControl) (p : Poll σ) :
    s.exec.currentState ≠ .EXECUTION ∧ cycle (.ret s) p = .ret (s.meet p.move) ∨
    (∃ msg, p.newest = some msg ∧
      cycle (.ret s) p = .ret ((s.heardAll p).adopt (.ofControl msg)).tick) ∨
    s.testActive = false ∧ cycle (.ret s) p = .ret (s.heardAll p).tick ∨
    s.exec.currentState = .EXECUTION ∧ p.newest = none ∧ s.testActive = true ∧
      cycle (.ret s) p = ((s.heardAll p).measure p.elapsed).bind fun t ↦ .ret t.tick := by
  by_cases hrun : s.exec.currentState = .EXECUTION
  · refine .inr ?_
    obtain hnewest | ⟨msg, hnewest⟩ := p.newest.eq_none_or_eq_some
    · refine .inr ?_
      obtain hactive | hactive := s.testActive.eq_false_or_eq_true.symm
      · exact .inl ⟨hactive, cycle_idles hrun hnewest hactive⟩
      · exact .inr ⟨hrun, hnewest, hactive, cycle_measures hrun hnewest hactive⟩
    · exact .inl ⟨msg, hnewest, cycle_adopts hrun hnewest⟩
  · exact .inl ⟨hrun, cycle_of_ended hrun p⟩

theorem cycle_of_newest (hrun : s.exec.currentState = .EXECUTION) {msg : TestControl}
    (h : p.newest = some msg) : ∃ t, cycle (.ret s) p = .ret t ∧
      t.exec.currentState = .EXECUTION ∧ t.currentTestId = msg.testId ∧ t.testActive = msg.start :=
  ⟨_, cycle_adopts hrun h, hrun, rfl, rfl⟩

/-- A cycle without messages keeps the test id, and no test is active if it returns. -/
theorem cycle_of_silence (hrun : s.exec.currentState = .EXECUTION) (h : p.newest = none) :
    (cycle (.ret s) p).world.currentTestId = s.currentTestId ∧
      ∀ t, cycle (.ret s) p = .ret t → t.testActive = false := by
  cases hactive : s.testActive with
  | false =>
    rw [cycle_idles hrun h hactive]
    refine ⟨rfl, fun t ht ↦ ?_⟩
    rw [← Outcome.ret.inj ht]
    exact hactive
  | true =>
    rw [cycle_measures hrun h hactive, measure]
    split
    · rw [Outcome.bind_thrown]
      exact ⟨rfl, fun t ht ↦ absurd ht (by simp)⟩
    · rw [Outcome.bind_ret, Outcome.world_ret, currentTestId_tick, currentTestId_conclude]
      refine ⟨rfl, fun t ht ↦ ?_⟩
      rw [← Outcome.ret.inj ht, testActive_tick, testActive_conclude]

/-! ## Runs -/

/-- The process is alive and goes on with another cycle. -/
def Executing (o : Outcome (SubTest σ FastSubControl)) : Prop :=
  ∃ s, o = .ret s ∧ s.exec.currentState = .EXECUTION

/-- Only a process in execution leaves one in execution. -/
theorem executing_of_cycle {o : Outcome (SubTest σ FastSubControl)} (h : Executing (cycle o p)) :
    Executing o := by
  obtain ⟨t, ht, hrun⟩ := h
  cases o with
  | thrown what s => exact absurd ht (by simp)
  | ret s =>
    refine ⟨s, rfl, ?_⟩
    -- nothing brings a process that has ended back
    by_contra hended
    rw [cycle_of_ended hended] at ht
    rw [← Outcome.ret.inj ht] at hrun
    exact hended hrun

theorem Tells.cycle {h : Heard} (htells : s.Tells h) (hrun : s.exec.currentState = .EXECUTION)
    {t : SubTest σ FastSubControl} (ht : cycle (.ret s) p = .ret t) :
    t.Tells (h.hear p.newest) := by
  cases hnewest : p.newest with
  | none =>
    obtain ⟨hid, hactive⟩ := cycle_of_silence hrun hnewest
    rw [ht, Outcome.world_ret] at hid
    exact ⟨hid.trans htells.1, hactive t ht⟩
  | some msg =>
    obtain ⟨t', ht', -, hid, hactive⟩ := cycle_of_newest hrun hnewest
    rw [ht] at ht'
    rw [Outcome.ret.inj ht']
    exact ⟨hid, hactive⟩

variable (config : MainTestConfig) (isub : σ) (isubcontrol : FastSubControl)

/-- **The subscriber runs what it has heard**, while the process goes on. -/
theorem tells_run (ps : List (Poll σ)) :
    ∀ s, run cycle (start config isub isubcontrol) ps = .ret s →
      s.exec.currentState = .EXECUTION → s.Tells (heard ps) := by
  refine run_induction (P := fun ps o ↦ ∀ s : SubTest σ FastSubControl, o = Outcome.ret s →
    s.exec.currentState = .EXECUTION → s.Tells (heard ps)) ?_ ?_ ps
  · intro s hs _
    rw [← Outcome.ret.inj hs]
    exact ⟨rfl, rfl⟩
  · intro ps p ih t ht hrun
    obtain ⟨s, hs, hbefore⟩ := executing_of_cycle ⟨t, ht, hrun⟩
    rw [hs] at ht
    rw [heard_concat]
    exact (ih s hs hbefore).cycle hbefore ht

variable {config isub isubcontrol}

/-- A cycle in execution obeys the law exactly when its newest message fits. -/
theorem Tells.stopsOwn_iff {h : Heard} (htells : s.Tells h)
    (hrun : s.exec.currentState = .EXECUTION) : StopsOwn (.ret s) p ↔ h.Fits p.newest := by
  obtain ⟨hid, hactive⟩ := htells
  cases hnewest : p.newest with
  | none =>
    refine iff_of_true ⟨?_, ?_⟩ fun msg hmsg ↦ absurd hmsg (by simp)
    · intro t ht hstopped
      have happlied := hstopped.applied
      rw [polled_of_silence hnewest] at happlied
      exact absurd happlied (by simp)
    · exact (cycle_of_silence hrun hnewest).1.ge
  | some msg =>
    obtain ⟨happlied, hout⟩ := polled_of_newest (s := s) hnewest
    obtain ⟨t, ht, -, htid, htactive⟩ := cycle_of_newest hrun hnewest
    constructor
    · intro hlaw msg' hmsg'
      obtain rfl : msg = msg' := Option.some.inj hmsg'
      refine ⟨?_, fun hstarted hstop ↦ ?_⟩
      · have hforward := hlaw.forward
        rw [ht, Outcome.world_ret, Outcome.world_ret, hid, htid] at hforward
        exact hforward
      · have hown := hlaw.own s rfl ⟨decide_eq_true hrun, happlied, by rw [hout]; exact hstop,
          hactive.trans hstarted, by rw [ht]; exact htactive.trans hstop⟩
        rw [hout, hid] at hown
        exact hown
    · intro hfits
      obtain ⟨hle, hown⟩ := hfits msg rfl
      refine ⟨?_, ?_⟩
      · intro t ht hstopped
        obtain rfl : s = t := Outcome.ret.inj ht
        have hstop := hstopped.stop
        rw [hout] at hstop ⊢
        exact (hown (hactive.symm.trans hstopped.before) hstop).trans hid.symm
      · rw [ht, Outcome.world_ret, Outcome.world_ret, hid, htid]
        exact hle

/-- Outside execution nothing is polled. -/
theorem stopsOwn_of_not_executing {o : Outcome (SubTest σ FastSubControl)} (h : ¬Executing o) :
    StopsOwn o p := by
  cases o with
  | thrown what s => exact ⟨fun t ht ↦ absurd ht (by simp), Int.le_refl _⟩
  | ret s =>
    have hended : s.exec.currentState ≠ .EXECUTION := fun hrun ↦ h ⟨s, rfl, hrun⟩
    refine ⟨?_, ?_⟩
    · intro t ht hstopped
      rw [← Outcome.ret.inj ht] at hstopped
      exact absurd (of_decide_eq_true hstopped.running) hended
    · rw [cycle_of_ended hended]
      exact Int.le_refl _

/-- **The law along a run** is a matter of the polled batches. -/
theorem along_stopsOwn_iff {ps : List (Poll σ)} :
    Along cycle StopsOwn (start config isub isubcontrol) ps ↔
      ∀ pre p post, ps = pre ++ p :: post →
        Executing (run cycle (start config isub isubcontrol) pre) →
          (heard pre).Fits p.newest := by
  rw [along_iff]
  refine forall_congr' fun pre ↦ forall_congr' fun p ↦ forall_congr' fun post ↦
    forall_congr' fun _ ↦ ?_
  by_cases hexec : Executing (run cycle (start config isub isubcontrol) pre)
  · obtain ⟨s, hs, hrun⟩ := hexec
    have htells := tells_run config isub isubcontrol pre s hs hrun
    rw [hs, htells.stopsOwn_iff hrun]
    exact ⟨fun hfits _ ↦ hfits, fun hfits ↦ hfits ⟨s, rfl, hrun⟩⟩
  · exact iff_of_true (stopsOwn_of_not_executing hexec) fun h ↦ absurd h hexec

end SubTest

/-! ## Orders of the control messages -/

/-- An order in which the messages START(1..N) and STOP(1..N) may be taken: those of one test id
in the order they were sent in, those of different ids in any. -/
structure Arrivals (N : ℕ) (msgs : List TestControl) : Prop where
  range : ∀ msg ∈ msgs, 1 ≤ msg.testId ∧ msg.testId ≤ N
  keyed : ∀ k : ℤ, 1 ≤ k → k ≤ N →
    (msgs.filter fun msg ↦ msg.testId = k).map TestControl.start = [true, false]

namespace Arrivals

variable {N : ℕ} {msgs : List TestControl}

/-- Behind a start there is the stop of its round. -/
theorem exists_behind {msg : TestControl} {pre post : List TestControl}
    (h : Arrivals N (pre ++ msg :: post)) (hstart : msg.start = true) :
    ∃ msg' ∈ post, msg'.testId = msg.testId := by
  by_contra! hnone
  have hpost : (post.filter fun msg' ↦ msg'.testId = msg.testId) = [] :=
    List.filter_eq_nil_iff.mpr fun msg' hmsg' ↦ by simpa using hnone msg' hmsg'
  have hmsg : ((msg :: post).filter fun msg' ↦ msg'.testId = msg.testId) = [msg] := by
    rw [List.filter_cons_of_pos (by simp), hpost]
  obtain ⟨hle, hge⟩ := h.range msg (List.mem_append_right _ List.mem_cons_self)
  have hkeyed := congrArg List.getLast? (h.keyed msg.testId hle hge)
  rw [List.filter_append, hmsg, List.map_append, List.map_singleton, List.getLast?_concat, hstart]
    at hkeyed
  exact absurd hkeyed (by decide)

/-- The last message of all is a stop. -/
theorem last_stop (h : Arrivals N msgs) {msg : TestControl} (hlast : msgs.getLast? = some msg) :
    msg.start = false := by
  obtain ⟨pre, rfl⟩ := List.getLast?_eq_some_iff.mp hlast
  rw [← Bool.not_eq_true]
  intro hstart
  obtain ⟨msg', hmsg', -⟩ := h.exists_behind hstart
  exact List.not_mem_nil hmsg'

/-- Every round has a start, and it is not the last message. -/
theorem exists_start (h : Arrivals N msgs) {k : ℤ} (hle : 1 ≤ k) (hge : k ≤ N) :
    ∃ pre msg post, msgs = pre ++ msg :: post ∧ msg.testId = k ∧ msg.start = true ∧ post ≠ [] := by
  have hmem : true ∈ (msgs.filter fun msg ↦ msg.testId = k).map TestControl.start := by
    rw [h.keyed k hle hge]
    exact List.mem_cons_self
  obtain ⟨msg, hfilter, hstart⟩ := List.mem_map.mp hmem
  obtain ⟨hmsg, hk⟩ := List.mem_filter.mp hfilter
  obtain ⟨pre, post, rfl⟩ := List.append_of_mem hmsg
  obtain ⟨msg', hmsg', -⟩ := h.exists_behind hstart
  exact ⟨pre, msg, post, rfl, of_decide_eq_true hk, hstart, List.ne_nil_of_mem hmsg'⟩

end Arrivals

namespace Poll

/-- A poll of these messages. -/
def of (msgs : List TestControl) : Poll σ := { batch := msgs.map fun msg ↦ { data := msg } }

theorem messages_of (msgs : List TestControl) :
    messages (Poll.of msgs : Poll σ).batch = msgs := by
  rw [messages, of, List.filter_eq_self.mpr, List.map_map]
  · exact List.map_id msgs
  · intro x hx
    obtain ⟨msg, -, rfl⟩ := List.mem_map.mp hx
    rfl

theorem newest_of (msgs : List TestControl) : (Poll.of msgs : Poll σ).newest = msgs.getLast? := by
  rw [newest, messages_of]

end Poll

/-- The messages that polls take, one batch after the other. -/
def pollMessages (ps : List (Poll σ)) : List TestControl := ps.flatMap fun p ↦ messages p.batch

theorem pollMessages_append (ps qs : List (Poll σ)) :
    pollMessages (ps ++ qs) = pollMessages ps ++ pollMessages qs :=
  List.flatMap_append

theorem pollMessages_cons (p : Poll σ) (ps : List (Poll σ)) :
    pollMessages (p :: ps) = messages p.batch ++ pollMessages ps :=
  List.flatMap_cons

/-- What has been heard is the last message taken. -/
theorem heard_eq (ps : List (Poll σ)) : heard ps = {} ∨
    ∃ last, (pollMessages ps).getLast? = some last ∧ (heard ps).testId = last.testId ∧
      ((heard ps).active = true → last.start = true) := by
  induction ps using List.reverseRecOn with
  | nil => exact .inl rfl
  | append_singleton ps p ih =>
    have htaken : pollMessages (ps ++ [p]) = pollMessages ps ++ messages p.batch := by
      rw [pollMessages_append, pollMessages_cons, pollMessages, pollMessages, List.flatMap_nil,
        List.append_nil]
    rw [heard_concat, htaken]
    cases hnewest : p.newest with
    | none =>
      have hnil : messages p.batch = [] := List.getLast?_eq_none_iff.mp hnewest
      rw [hnil, List.append_nil]
      obtain hnone | ⟨last, hlast, hid, -⟩ := ih
      · rw [hnone]
        exact .inl rfl
      · exact .inr ⟨last, hlast, hid, by simp [Heard.hear]⟩
    | some msg =>
      refine .inr ⟨msg, ?_, rfl, id⟩
      rw [List.getLast?_append, show (messages p.batch).getLast? = some msg from hnewest]
      rfl

namespace SubTest

variable [ISub σ] {config : MainTestConfig} {isub : σ} {isubcontrol : FastSubControl} {N : ℕ}
  {msgs : List TestControl}

/-- One round: whatever a poll takes is of the one test id there is. -/
theorem stopsOwn_of_one_round (h : Arrivals N msgs) (hN : N ≤ 1) {ps : List (Poll σ)}
    (hps : pollMessages ps = msgs) : Along cycle StopsOwn (start config isub isubcontrol) ps := by
  rw [along_stopsOwn_iff]
  rintro pre p post rfl - msg hmsg
  rw [pollMessages_append, pollMessages_cons] at hps
  have hone : ∀ msg ∈ msgs, msg.testId = 1 := by
    intro msg hmsg
    have hrange := h.range msg hmsg
    omega
  have hid : msg.testId = 1 := by
    refine hone msg ?_
    rw [← hps]
    exact List.mem_append_right _ (List.mem_append_left _ (List.mem_of_getLast? hmsg))
  obtain hnone | ⟨last, hlast, hheard, -⟩ := heard_eq pre
  · rw [hnone, hid]
    exact ⟨by decide, by simp⟩
  · have hlastId : last.testId = 1 := by
      refine hone last ?_
      rw [← hps]
      exact List.mem_append_left _ (List.mem_of_getLast? hlast)
    rw [hheard, hlastId, hid]
    exact ⟨Int.le_refl 1, fun _ _ ↦ rfl⟩

/-- Messages taken one by one in the order they were sent in. -/
theorem stopsOwn_of_single (h : Arrivals N msgs)
    (hsent : msgs.Pairwise fun msg msg' ↦ msg.testId ≤ msg'.testId) {ps : List (Poll σ)}
    (hps : pollMessages ps = msgs) (hsingle : ∀ p ∈ ps, (messages p.batch).length ≤ 1) :
    Along cycle StopsOwn (start config isub isubcontrol) ps := by
  rw [along_stopsOwn_iff]
  rintro pre p post rfl - msg hmsg
  -- the newest message of a poll is the only one
  have hbatch : messages p.batch = [msg] := by
    have hlength := hsingle p (List.mem_append_right _ List.mem_cons_self)
    obtain ⟨init, hinit⟩ := List.getLast?_eq_some_iff.mp hmsg
    rw [hinit, List.length_append, List.length_singleton] at hlength
    have hnil : init = [] := List.length_eq_zero_iff.mp (by omega)
    rw [hinit, hnil, List.nil_append]
  rw [pollMessages_append, pollMessages_cons, hbatch, List.singleton_append] at hps
  obtain hnone | ⟨last, hlast, hheard, hactive⟩ := heard_eq pre
  · rw [hnone]
    refine ⟨?_, by simp⟩
    have hrange := h.range msg (by rw [← hps]; exact List.mem_append_right _ List.mem_cons_self)
    exact (Int.le_of_lt Int.one_pos).trans hrange.1
  · obtain ⟨init, hinit⟩ := List.getLast?_eq_some_iff.mp hlast
    rw [hinit, List.append_assoc, List.singleton_append] at hps
    rw [← hps] at h hsent
    obtain ⟨hlastLe, hmsgLe⟩ := List.pairwise_cons.mp (List.pairwise_append.mp hsent).2.1
    have hle := hlastLe msg List.mem_cons_self
    rw [hheard]
    refine ⟨hle, fun hstarted _ ↦ ?_⟩
    -- the stop of the running round is the next message, or comes behind it
    obtain ⟨stop, hstop, hid⟩ := h.exists_behind (hactive hstarted)
    obtain rfl | hlater := List.mem_cons.mp hstop
    · exact hid
    · refine le_antisymm ?_ hle
      rw [← hid]
      exact (List.pairwise_cons.mp hmsgLe).1 stop hlater

/-- A poll that ends with the start of round `k`, and one that takes the rest: the last stop of all
finds round `k` running. -/
theorem last_id_eq (h : Arrivals N msgs) {k : ℤ} (hle : 1 ≤ k) (hge : k ≤ N)
    (hlaw : ∀ ps : List (Poll σ), pollMessages ps = msgs →
      Along cycle StopsOwn (start config isub isubcontrol) ps) {last : TestControl}
    (hlast : msgs.getLast? = some last) : last.testId = k := by
  obtain ⟨pre, msg, post, rfl, hk, hstart, hpost⟩ := h.exists_start hle hge
  have hstop := h.last_stop hlast
  have hbatches : pollMessages [(Poll.of (pre ++ [msg]) : Poll σ), Poll.of post]
      = pre ++ msg :: post := by
    simp [pollMessages, Poll.messages_of]
  have hfits := along_stopsOwn_iff.mp (hlaw _ hbatches) [Poll.of (pre ++ [msg])] (Poll.of post) []
    rfl
  -- the first poll leaves round `k` armed
  have hnewest : (Poll.of (pre ++ [msg]) : Poll σ).newest = some msg := by
    rw [Poll.newest_of, List.getLast?_concat]
  obtain ⟨t, ht, hrun, -⟩ := cycle_of_newest
    (s := (start config isub isubcontrol).world) rfl hnewest
  have hheard : heard [(Poll.of (pre ++ [msg]) : Poll σ)] = { testId := k, active := true } := by
    rw [heard, run_cons, run_nil, hnewest, Heard.hear, hk, hstart]
  -- the second ends with the last stop of all
  have hpostLast : (Poll.of post : Poll σ).newest = some last := by
    rw [Poll.newest_of, ← hlast, List.getLast?_append_of_ne_nil _ (List.cons_ne_nil _ _),
      List.getLast?_cons_of_ne_nil hpost]
  have hid := (hfits ⟨t, ht, hrun⟩ last hpostLast).2
  rw [hheard] at hid
  exact hid rfl hstop

/-- **Every order** of the messages of more than one round has a batching that breaks the law. -/
theorem forall_batchings_iff (h : Arrivals N msgs) :
    (∀ ps : List (Poll σ), pollMessages ps = msgs →
      Along cycle StopsOwn (start config isub isubcontrol) ps) ↔ N ≤ 1 := by
  refine ⟨fun hlaw ↦ ?_, fun hN ps hps ↦ stopsOwn_of_one_round h hN hps⟩
  by_contra hN
  -- the last stop of all cannot be that of two rounds
  obtain ⟨pre, msg, post, hmsgs, -⟩ := h.exists_start (k := 1) (by omega) (by omega)
  obtain ⟨last, hlast⟩ : ∃ last, msgs.getLast? = some last :=
    Option.isSome_iff_exists.mp (by rw [hmsgs]; simp)
  have hone := last_id_eq h (k := 1) (by omega) (by omega) hlaw hlast
  have htwo := last_id_eq h (k := 2) (by omega) (by omega) hlaw hlast
  omega

/-- **Stops and rounds.** The law holds along a run exactly when the newest message of every poll
the run makes fits what was heard before. So it holds when the messages come one by one in the order
they were sent in, and of every order of the messages of more than one round some batching breaks
it. -/
theorem stops_own_round (config : MainTestConfig) (isub : σ) (isubcontrol : FastSubControl)
    (h : Arrivals N msgs) :
    (∀ ps : List (Poll σ), pollMessages ps = msgs →
      (Along cycle StopsOwn (start config isub isubcontrol) ps ↔
        ∀ pre p post, ps = pre ++ p :: post →
          Executing (run cycle (start config isub isubcontrol) pre) →
            (heard pre).Fits p.newest)) ∧
    (∀ ps : List (Poll σ), pollMessages ps = msgs →
      (msgs.Pairwise fun msg msg' ↦ msg.testId ≤ msg'.testId) →
      (∀ p ∈ ps, (messages p.batch).length ≤ 1) →
        Along cycle StopsOwn (start config isub isubcontrol) ps) ∧
    ((∀ ps : List (Poll σ), pollMessages ps = msgs →
      Along cycle StopsOwn (start config isub isubcontrol) ps) ↔ N ≤ 1) :=
  ⟨fun _ _ ↦ along_stopsOwn_iff, fun _ hps hsent hsingle ↦ stopsOwn_of_single h hsent hps hsingle,
    forall_batchings_iff h⟩

/-- The messages of two rounds, as sent. -/
def twoRoundsSent : List TestControl :=
  [{ testId := 1, start := true }, { testId := 1 }, { testId := 2, start := true }, { testId := 2 }]

theorem arrivals_twoRoundsSent : Arrivals 2 twoRoundsSent := by
  refine ⟨by decide, fun k hle hge ↦ ?_⟩
  obtain rfl | rfl : k = 1 ∨ k = 2 := by omega
  · rfl
  · rfl

/-- Two rounds, a message a poll. -/
theorem stops_own_two_rounds : Along cycle StopsOwn
    (start (σ := FastSub) {} { reader := {} } { reader := {} })
    (twoRoundsSent.map fun msg ↦ Poll.of [msg]) :=
  (stops_own_round (σ := FastSub) {} { reader := {} } { reader := {} }
    arrivals_twoRoundsSent).2.1 (twoRoundsSent.map fun msg ↦ Poll.of [msg]) rfl (by decide)
    (by decide)

/-- Two rounds as sent, in two polls: the second stops round 1 with the stop of round 2. -/
theorem foreign_stop_applied : ¬∀ (N : ℕ) (msgs : List TestControl), Arrivals N msgs →
    ∀ ps : List (Poll FastSub), pollMessages ps = msgs →
      Along cycle StopsOwn (start {} { reader := {} } { reader := {} }) ps := by
  intro h
  obtain ⟨-, hlaw, -⟩ := h 2 twoRoundsSent arrivals_twoRoundsSent
    [.of [{ testId := 1, start := true }],
      .of [{ testId := 1 }, { testId := 2, start := true }, { testId := 2 }]] rfl
  have hown := hlaw.own _ rfl ⟨rfl, rfl, rfl, rfl, rfl⟩
  exact absurd hown (by decide)

end SubTest

end IndraDds
