import IndraDds.Publisher.Gate
import IndraDds.Subscriber.Bookkeeping
import IndraDds.Vendor.Entities
import IndraDds.Vendor.LoanDrain

/-!
# What is left of a failed initialisation

The two tests print that an initialisation has failed and cycle on. The publisher's `write` asks
both its publishers whether they are matched, which looks at a counter and at no entity; a writer
that was never created is never matched, so nothing is sent through it, and nothing through the
other writer either. The subscriber's `read` asks nothing: it polls in every cycle, and it drains in
every round that is armed.

So the publisher makes a call through a null pointer only in `FastPubControl::init`, and the
subscriber does, on some schedule, whenever one of its readers is missing.
-/

namespace IndraDds

open Transition

/-! ## The two processes -/

/-- What the middleware would create for each of the four classes. -/
structure Creations where
  pub : Entities
  pubControl : Entities
  sub : Entities
  subControl : Entities
deriving DecidableEq, Repr

namespace Creations

/-- The entities of the publisher's process behind `pub->init()` and `pub_control->init()`. -/
def initPub (c : Creations) : Except Pointer (Entities × Entities) := do
  let data ← FastPub.initEntities c.pub
  let control ← FastPubControl.initEntities c.pubControl
  return (data.2, control.2)

/-- The objects of the subscriber's process behind `sub->init()` and `sub_control->init()`. -/
def initSub (c : Creations) : Except Pointer (Handle FastSub × Handle FastSubControl) := do
  let data ← FastSub.initEntities c.sub
  let control ← FastSubControl.initEntities c.subControl
  let sub : FastSub := { reader := {} }
  return ({ object := if data.1 then sub.init else sub, reader := data.2.endpoint },
    { object := { reader := {} }, reader := control.2.endpoint })

end Creations

/-- The writes on record that went through a null `writer_`. -/
def PubEvent.ThroughNull (data control : Entities) : PubEvent → Prop
  | .control _ _ => control.endpoint = false
  | .data _ calls => data.endpoint = false ∧ calls ≠ []

/-- No match callback reaches a listener whose writer was not created. -/
def Gates.Label.Possible (data control : Entities) : Gates.Label → Prop
  | .data _ => data.endpoint = true
  | .control _ => control.endpoint = true
  | .sub _ | .subControl _ | .pubCycle _ => True

/-- A cycle of the subscriber: what its readers hold by then, if they are there. -/
structure Supply where
  data : DataReader AirEntity := {}
  control : List (Sample TestControl) := []
  elapsed : ℚ := 0

def Supply.move (m : Supply) : SubMove (Handle FastSub) (Handle FastSubControl) where
  onSub h := h.onReader fun f ↦ { f with reader := m.data }
  onControl h := h.onReader fun c ↦ { c with reader := c.reader.withSamples m.control }
  elapsed := m.elapsed

/-- The subscriber test on objects that may lack their readers. -/
abbrev HandleSubTest := SubTest (Handle FastSub) (Handle FastSubControl)

def HandleSubTest.cycle (o : Outcome HandleSubTest) (m : Supply) : Outcome HandleSubTest :=
  SubTest.step o m.move

namespace Creations

/-- The publisher's process makes no call through a null pointer, on any schedule. -/
def PubNullFree (c : Creations) (config : MainTestConfig) (reset : Bool) : Prop :=
  ∃ data control, c.initPub = .ok (data, control) ∧
    ∀ ls : List Gates.Label, (∀ l ∈ ls, l.Possible data control) →
      ∀ entry ∈ (run Gates.step (Gates.start config reset) ls).pub.world.log,
        ¬entry.2.ThroughNull data control

/-- The subscriber's process makes no call through a null pointer, on any schedule. -/
def SubNullFree (c : Creations) (config : MainTestConfig) : Prop :=
  ∃ sub control, c.initSub = .ok (sub, control) ∧
    ∀ ms : List Supply,
      (run HandleSubTest.cycle (SubTest.start config sub control) ms).world.sub.nullCall = false ∧
      (run HandleSubTest.cycle (SubTest.start config sub control) ms).world.subControl.nullCall
        = false

end Creations

/-! ## A publisher that is never matched -/

namespace PubTest

/-- Nothing has been sent, and no round is streaming. -/
structure Silent (p : PubTest) : Prop where
  log : p.log = []
  state : p.state ≠ .Streaming

/-- The waiting stops no round where none is streaming. -/
theorem read_of_not_streaming (io : PubAnswers) {p : PubTest} (h : p.state ≠ .Streaming) :
    ∃ cyles reset send, p.read io =
      { p with currentCylesReset := cyles, reset := reset, send := send } := by
  rw [read]
  by_cases hreset : p.reset = true
  · rw [if_pos hreset]
    simp only
    split_ifs
    · exact ⟨_, _, _, rfl⟩
    · exact ⟨_, _, _, rfl⟩
    · exact ⟨_, _, _, rfl⟩
  · rw [if_neg hreset]
    exact ⟨_, _, _, rfl⟩

theorem Silent.pass {io : PubAnswers} (hio : io.matched = false) {o : Outcome PubTest}
    (h : o.world.Silent) : (PubTest.pass o io).world.Silent := by
  rcases o with p | ⟨what, p⟩
  · by_cases hrun : p.exec.currentState = .EXECUTION
    · have hstate : p.state ≠ .Streaming := h.state
      obtain ⟨cyles, reset, send, hread⟩ := read_of_not_streaming io hstate
      rw [pass_ret io hrun, write_unmatched hio, Outcome.bind_ret]
      change (p.read io).tick.Silent
      rw [hread]
      exact ⟨h.log, h.state⟩
    · rw [PubTest.pass, mainPass_of_ended (w := p) _ hrun]
      exact h
  · exact h

theorem silent_start (config : MainTestConfig) (reset : Bool) :
    (start config reset).world.Silent := by
  rcases lt_or_ge config.messageCount 0 with h | h
  · rw [start_of_neg h]
    exact ⟨rfl, PubState.noConfusion⟩
  · rw [start_of_nonneg h]
    exact ⟨rfl, PubState.noConfusion⟩

end PubTest

namespace Gates

/-- One of the two writers is missing, and its gate has been shut all the time. -/
def Shut (data control : Entities) (s : Gates) : Prop :=
  (data.endpoint = false ∧ s.data.listener.matched = 0) ∨
    (control.endpoint = false ∧ s.control.listener.matched = 0)

/-- The publisher of a process in which a writer is missing. -/
structure Disabled (data control : Entities) (s : Gates) : Prop where
  shut : s.Shut data control
  silent : s.pub.world.Silent

variable {data control : Entities} {s : Gates}

theorem Shut.matched (h : s.Shut data control) (io : PubAnswers) :
    (s.answers io).matched = false := by
  rw [PubAnswers.matched, answers]
  rcases h with ⟨-, hlistener⟩ | ⟨-, hlistener⟩
  · rw [FastPub.isMatched, hlistener]
    rfl
  · rw [FastPubControl.isMatched, hlistener]
    exact Bool.and_false _

theorem Disabled.step (h : s.Disabled data control) {l : Label}
    (hl : l.Possible data control) : (s.step l).Disabled data control := by
  obtain ⟨hshut, hsilent⟩ := h
  cases l with
  | data ev =>
    rcases hshut with ⟨hnull, -⟩ | hcontrol
    · exact absurd (hnull.symm.trans hl) Bool.false_ne_true
    · exact ⟨.inr hcontrol, hsilent⟩
  | control ev =>
    rcases hshut with hdata | ⟨hnull, -⟩
    · exact ⟨.inl hdata, hsilent⟩
    · exact absurd (hnull.symm.trans hl) Bool.false_ne_true
  | sub ev => exact ⟨hshut, hsilent⟩
  | subControl ev => exact ⟨hshut, hsilent⟩
  | pubCycle io => exact ⟨hshut, hsilent.pass (hshut.matched io)⟩

theorem disabled_run (config : MainTestConfig) (reset : Bool)
    (hnull : data.endpoint = false ∨ control.endpoint = false) {ls : List Label}
    (hls : ∀ l ∈ ls, l.Possible data control) :
    (run Gates.step (start config reset) ls).Disabled data control := by
  induction ls using List.reverseRecOn with
  | nil =>
    refine ⟨?_, PubTest.silent_start config reset⟩
    exact hnull.imp (fun hdata ↦ ⟨hdata, rfl⟩) fun hcontrol ↦ ⟨hcontrol, rfl⟩
  | append_singleton ls l ih =>
    rw [run_concat]
    apply Disabled.step
    · exact ih fun l' hl' ↦ hls l' (List.mem_append_left _ hl')
    · exact hls l (List.mem_append_right _ (List.mem_singleton_self l))

end Gates

/-! ## Readers that are there -/

/-- No drain takes a reader away, or finds it null when it is there. -/
theorem keeps_sound : ISub.Keeps (Handle.Sound : Handle FastSub → Prop) where
  withBase _ _ h := ⟨h.reader, h.nullCall⟩
  resetSamples _ h := ⟨h.reader, h.nullCall⟩
  runWithoutLoan _ _ h := h.use _ _
  runWithLoan _ _ r hr h := by
    rw [← Except.ok.inj hr]
    exact h.use _ _

namespace HandleSubTest

/-- Both readers are there, and no call has found one null. -/
structure Sound (s : HandleSubTest) : Prop where
  sub : s.sub.Sound
  subControl : s.subControl.Sound

theorem Sound.cycle {o : Outcome HandleSubTest} (h : o.world.Sound) (m : Supply) :
    (cycle o m).world.Sound := by
  have hmeet : Sound (o.map (SubTest.meet m.move)).world := by
    rw [Outcome.world_map]
    exact ⟨⟨h.sub.reader, h.sub.nullCall⟩, ⟨h.subControl.reader, h.subControl.nullCall⟩⟩
  exact ⟨SubTest.keeps_pass keeps_sound m.elapsed hmeet.sub,
    SubTest.keepsControl_pass (fun c out hc ↦ hc.use _ _) m.elapsed hmeet.subControl⟩

end HandleSubTest

/-! ## Readers that are missing -/

theorem readerCalls_loanDrain (f : FastSub) : f.loanDrain.readerCalls ≠ [] := by
  obtain ⟨sizes, -, hcalls⟩ := f.loanDrained.cut
  rw [hcalls, loanCalls]
  exact List.append_ne_nil_of_right_ne_nil _ (List.cons_ne_nil _ _)

namespace SubTest

/-- A loan drain of a reader that is missing. -/
theorem nullCall_measure (elapsed : ℚ) {s : HandleSubTest} (h : s.sub.reader = false)
    (hmode : s.processType = .Loan) : (s.measure elapsed).world.sub.nullCall = true := by
  have hcalls := readerCalls_loanDrain s.sub.object.resetSamples
  obtain ⟨r, hr, hcall⟩ : ∃ r, drain { s with sub := ISub.resetSamples s.sub } = .ok r ∧
      r.sub.nullCall = (s.sub.nullCall ||
        (decide (s.sub.object.resetSamples.loanDrain.readerCalls ≠ []) && !s.sub.reader)) := by
    rw [drain, hmode]
    exact ⟨_, rfl, rfl⟩
  rw [measure]
  simp only [hr]
  rw [Outcome.world_ret, conclude_eq]
  change r.sub.nullCall = true
  rw [hcall, h, decide_eq_true hcalls]
  exact Bool.or_true _

end SubTest

namespace HandleSubTest

variable (config : MainTestConfig) (sub : Handle FastSub) (control : Handle FastSubControl)

theorem start_eq : SubTest.start config sub control = .ret { SubTest.new config sub control with
    exec := { currentState := .EXECUTION } } := rfl

/-- The first cycle polls. -/
theorem nullCall_first (h : control.reader = false) :
    (run cycle (SubTest.start config sub control) [{}]).world.subControl.nullCall = true := by
  rw [run_cons, run_nil, start_eq, cycle, SubTest.step, Outcome.map, SubTest.subControl_pass _ rfl]
  change (control.nullCall || (true && !control.reader)) = true
  rw [h]
  exact Bool.or_true _

/-- A start of a loan round, and the cycle that drains for it. -/
def loanRound : List Supply := [{ control := [{ data := { start := true, loan := true } }] }, {}]

/-- The first loan round drains. -/
theorem nullCall_loanRound (hcontrol : control.reader = true) (h : sub.reader = false) :
    (run cycle (SubTest.start config sub control) loanRound).world.sub.nullCall = true := by
  obtain ⟨object, reader, nullCall⟩ := control
  obtain rfl : reader = true := hcontrol
  obtain ⟨s, hs, hrun, hactive, hmode, hpoll, hreader⟩ :
      ∃ s, cycle (SubTest.start config sub ⟨object, true, nullCall⟩)
          { control := [{ data := { start := true, loan := true } }] } = .ret s ∧
        s.exec.currentState = .EXECUTION ∧ s.testActive = true ∧ s.processType = .Loan ∧
        (ISubControl.pollControl (s.meet (Supply.move {})).subControl {}).applied = false ∧
        s.sub.reader = false :=
    ⟨_, rfl, rfl, rfl, rfl, rfl, h⟩
  rw [loanRound, run_cons, run_cons, run_nil, hs, cycle, SubTest.step, Outcome.map,
    SubTest.sub_pass (s := s.meet (Supply.move {})) _ hrun, SubTest.read_active hpoll hactive]
  exact SubTest.nullCall_measure _ hreader hmode

end HandleSubTest

/-! ## The condition -/

namespace Creations

theorem initSub_eq (c : Creations) : ∃ sub control, c.initSub = .ok (sub, control) ∧
    sub.reader = c.sub.ready ∧ sub.nullCall = false ∧
    control.reader = c.subControl.ready ∧ control.nullCall = false := by
  rw [initSub, FastSub.initEntities, FastSubControl.initEntities, initChecked_eq, initChecked_eq]
  exact ⟨_, _, rfl, rfl, rfl, rfl, rfl⟩

/-- **The publisher** is safe exactly if `FastPubControl::init` gets a publisher where it asks for
one. -/
theorem pubNullFree_iff (c : Creations) (config : MainTestConfig) (reset : Bool) :
    c.PubNullFree config reset ↔ (c.pubControl.participant = true → c.pubControl.topic = true →
      c.pubControl.group = true) := by
  constructor
  · rintro ⟨data, control, hinit, -⟩ hparticipant htopic
    by_contra hgroup
    rw [Bool.not_eq_true] at hgroup
    rw [initPub, FastPub.initEntities, initChecked_eq, FastPubControl.initEntities_eq, hparticipant,
      htopic, hgroup] at hinit
    exact absurd hinit (by simp [bind, Except.bind])
  · intro hgroup
    have hcalls : (c.pubControl.participant && c.pubControl.topic && !c.pubControl.group)
        = false := by
      rw [← Bool.not_eq_true]
      simp only [Bool.and_eq_true, Bool.not_eq_true', not_and, Bool.not_eq_false, and_imp]
      exact hgroup
    have hinit : c.initPub = .ok (c.pub.made, c.pubControl.made) := by
      rw [initPub, FastPub.initEntities, initChecked_eq, FastPubControl.initEntities_eq, hcalls]
      rfl
    refine ⟨_, _, hinit, fun ls hls entry hentry hnull ↦ ?_⟩
    by_cases hmissing : c.pub.made.endpoint = false ∨ c.pubControl.made.endpoint = false
    · have hlog := (Gates.disabled_run config reset hmissing hls).silent.log
      rw [hlog] at hentry
      exact absurd hentry List.not_mem_nil
    · refine hmissing ?_
      rcases hevent : entry.2 with ⟨msg, ret⟩ | ⟨round, calls⟩
      · rw [hevent] at hnull
        exact .inr hnull
      · rw [hevent] at hnull
        exact .inl hnull.1

/-- **The subscriber** is safe exactly if both its readers are there. -/
theorem subNullFree_iff (c : Creations) (config : MainTestConfig) :
    c.SubNullFree config ↔ c.sub.ready = true ∧ c.subControl.ready = true := by
  obtain ⟨sub, control, hinit, hsub, hsubCall, hcontrol, hcontrolCall⟩ := initSub_eq c
  rw [← hsub, ← hcontrol]
  constructor
  · rintro ⟨sub', control', hinit', hsafe⟩
    obtain ⟨rfl, rfl⟩ := Prod.mk.inj (Except.ok.inj (hinit.symm.trans hinit'))
    have hready : control.reader = true := by
      by_contra hmissing
      rw [Bool.not_eq_true] at hmissing
      have hcall := HandleSubTest.nullCall_first config sub control hmissing
      exact Bool.false_ne_true ((hsafe [{}]).2.symm.trans hcall)
    refine ⟨?_, hready⟩
    by_contra hmissing
    rw [Bool.not_eq_true] at hmissing
    have hcall := HandleSubTest.nullCall_loanRound config sub control hready hmissing
    exact Bool.false_ne_true ((hsafe HandleSubTest.loanRound).1.symm.trans hcall)
  · rintro ⟨hreader, hreader'⟩
    refine ⟨sub, control, hinit, fun ms ↦ ?_⟩
    have hstart : HandleSubTest.Sound (SubTest.start config sub control).world :=
      ⟨⟨hreader, hsubCall⟩, ⟨hreader', hcontrolCall⟩⟩
    have hsound := run_invariant (I := fun o : Outcome HandleSubTest ↦ o.world.Sound) hstart
      (fun o m ho ↦ HandleSubTest.Sound.cycle ho m) ms
    exact ⟨hsound.sub.nullCall, hsound.subControl.nullCall⟩

/-- **When failed initialisation is never used.** On no schedule does either process call through a
null pointer, exactly if `FastPubControl::init`, having a participant and a topic, gets its
publisher, and both readers of the subscriber are created. -/
theorem nullFree_iff (c : Creations) (config : MainTestConfig) (reset : Bool) :
    c.PubNullFree config reset ∧ c.SubNullFree config ↔
      (c.pubControl.participant = true → c.pubControl.topic = true →
        c.pubControl.group = true) ∧ c.sub.ready = true ∧ c.subControl.ready = true :=
  and_congr (pubNullFree_iff c config reset) (subNullFree_iff c config)

/-- The control subscriber fails to get its reader, and the first cycle polls it all the same. -/
theorem missing_reader_polled : ¬∀ (c : Creations) (config : MainTestConfig) (reset : Bool),
    c.PubNullFree config reset ∧ c.SubNullFree config := by
  intro h
  obtain ⟨-, sub, control, hinit, hsafe⟩ := h
    { pub := .all, pubControl := .all, sub := .all,
      subControl := { Entities.all with endpoint := false } } {} false
  have hinit' : Except.ok (⟨FastSub.init { reader := {} }, true, false⟩,
      ⟨{ reader := {} }, false, false⟩) = Except.ok (sub, control) := hinit
  obtain ⟨rfl, rfl⟩ := Prod.mk.inj (Except.ok.inj hinit')
  exact absurd (hsafe [{}]).2 (by decide)

end Creations

end IndraDds
