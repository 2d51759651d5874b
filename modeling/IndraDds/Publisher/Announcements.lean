import IndraDds.Publisher.Refinement
import Mathlib.Logic.Relation

/-!
# What the publisher announces

The messages on the control topic, for every configuration and whatever the middleware answers: the
rounds announced are numbered upwards, and every announcement carries the settings of the test.

The protocol says more, but only for a test of at least one round. What is proved here is an
invariant of the code itself, carried by `current_test` and the state: a round is announced in the
state `Announce` only, which is left by the announcement and entered again by the stop that counts
the round.
-/

namespace IndraDds

open Transition Relation

/-! ## Control messages -/

/-- The message an event puts on the control topic, if its writer accepted it. -/
def PubEvent.acceptedControl : PubEvent → Option TestControl
  | control msg ret => if ret = RETCODE_OK then some msg else none
  | data _ _ => none

/-- The control messages of a log, in order. -/
def controlSent (log : List (ℕ × PubEvent)) : List TestControl :=
  log.filterMap fun e ↦ e.2.acceptedControl

@[simp] theorem acceptedControl_data (round : ℤ) (calls : List WriterCall) :
    (PubEvent.data round calls).acceptedControl = none := rfl

@[simp] theorem controlSent_nil : controlSent [] = [] := rfl

@[simp] theorem controlSent_concat (log : List (ℕ × PubEvent)) (e : ℕ × PubEvent) :
    controlSent (log ++ [e]) = controlSent log ++ e.2.acceptedControl.toList := by
  rw [controlSent, List.filterMap_append, controlSent]
  cases h : e.2.acceptedControl <;> simp [h]

theorem controlSent_prefix {log log' : List (ℕ × PubEvent)} (h : log <+: log') :
    controlSent log <+: controlSent log' := h.filterMap _

theorem acceptedControl_eq_some {msg msg' : TestControl} {ret : ReturnCode}
    (h : (PubEvent.control msg ret).acceptedControl = some msg') : msg' = msg := by
  rw [PubEvent.acceptedControl] at h
  split_ifs at h
  exact (Option.some.inj h).symm

/-! ## The ledger -/

/-- The part of the test that its announcements depend on. -/
structure Ledger where
  messagesPerCycle : ℤ
  processType : ProcessType
  currentTest : ℤ
  state : PubState
  log : List (ℕ × PubEvent)

namespace Ledger

/-- What can happen to the ledger: an announcement, a write phase, a stop, or a round counted past
the last one, which is not stopped. -/
inductive Entry (l : Ledger) : Ledger → Prop where
  | start (t : ℕ) (ret : ReturnCode) (h : l.state = .Announce) : Entry l
      { l with
        state := .Streaming
        log := l.log ++ [(t, .control (FastPubControl.startMessage (l.currentTest + 1)
          l.messagesPerCycle (l.processType = .Loan)) ret)] }
  | data (t : ℕ) (calls : List WriterCall) : Entry l
      { l with log := l.log ++ [(t, .data (l.currentTest + 1) calls)] }
  | stop (t : ℕ) (ret : ReturnCode) : Entry l
      { l with
        state := .Announce
        currentTest := l.currentTest + 1
        log := l.log ++ [(t, .control (FastPubControl.stopMessage (l.currentTest + 1)) ret)] }
  | skip : Entry l { l with currentTest := l.currentTest + 1 }

theorem Entry.log_prefix {l l' : Ledger} (h : l.Entry l') : l.log <+: l'.log := by
  cases h with
  | skip => exact List.prefix_rfl
  | _ => exact List.prefix_append _ _

theorem entries_of_eq {l l' : Ledger} (h : l' = l) : ReflTransGen Entry l l' := h ▸ .refl

theorem log_prefix_of_reflTransGen {l l' : Ledger} (h : ReflTransGen Entry l l') :
    l.log <+: l'.log := by
  induction h with
  | refl => exact List.prefix_rfl
  | tail _ hentry ih => exact ih.trans hentry.log_prefix

/-- The rounds announced so far. -/
def announced (l : Ledger) : List ℤ := (controlSent l.log).filterMap TestControl.announced

/-- The announcements of a test with the settings of `config`. -/
structure Announces (config : MainTestConfig) (l : Ledger) : Prop where
  messagesPerCycle : l.messagesPerCycle = config.messageCount
  processType : l.processType = ProcessType.ofLoan config.loanMode
  nonneg : 0 ≤ l.currentTest
  increasing : l.announced.Pairwise (· < ·)
  bounds : ∀ k ∈ l.announced, 1 ≤ k ∧ k ≤ l.currentTest + 1
  idle : l.state = .Announce → ∀ k ∈ l.announced, k ≤ l.currentTest
  settings : ∀ msg ∈ controlSent l.log, msg.start = true →
    msg.expectedEntities = config.messageCount ∧ msg.loan = config.loanMode

theorem announced_concat_of_none {l l' : Ledger} {t : ℕ} {e : PubEvent}
    (hlog : l'.log = l.log ++ [(t, e)])
    (h : ∀ msg, e.acceptedControl = some msg → msg.start = false) : l'.announced = l.announced := by
  rw [announced, hlog, controlSent_concat, List.filterMap_append]
  cases he : e.acceptedControl with
  | none => simp [announced]
  | some msg => simp [announced, TestControl.announced, h msg he]

theorem mem_controlSent_concat {log : List (ℕ × PubEvent)} {t : ℕ} {e : PubEvent}
    {msg : TestControl} (h : msg ∈ controlSent (log ++ [(t, e)])) :
    msg ∈ controlSent log ∨ e.acceptedControl = some msg := by
  rwa [controlSent_concat, List.mem_append, Option.mem_toList] at h

variable {config : MainTestConfig} {l l' : Ledger}

theorem Announces.start (h : l.Announces config) {t : ℕ} {ret : ReturnCode}
    (hstate : l.state = .Announce) (hl' : l' = { l with
      state := .Streaming
      log := l.log ++ [(t, .control (FastPubControl.startMessage (l.currentTest + 1)
        l.messagesPerCycle (l.processType = .Loan)) ret)] }) : l'.Announces config := by
  have hlog := congrArg Ledger.log hl'
  have hidle := h.idle hstate
  have hnonneg := h.nonneg
  -- the announcement reaches the topic or it does not
  have hannounced : l'.announced = l.announced ∨
      l'.announced = l.announced ++ [l.currentTest + 1] := by
    rw [announced, hlog, controlSent_concat, List.filterMap_append, PubEvent.acceptedControl]
    split_ifs
    · exact .inr rfl
    · exact .inl (List.append_nil _)
  have hcount : l'.currentTest = l.currentTest := hl' ▸ rfl
  refine ⟨hl' ▸ h.messagesPerCycle, hl' ▸ h.processType, hl' ▸ h.nonneg, ?_, ?_, ?_, ?_⟩
  · obtain heq | heq := hannounced
    · rw [heq]
      exact h.increasing
    · rw [heq, List.pairwise_append]
      refine ⟨h.increasing, List.pairwise_singleton _ _, fun k hk k' hk' ↦ ?_⟩
      rw [List.mem_singleton.mp hk']
      exact Int.lt_add_one_of_le (hidle k hk)
  · intro k hk
    rw [hcount]
    obtain heq | heq := hannounced
    · rw [heq] at hk
      exact h.bounds k hk
    · rw [heq, List.mem_append, List.mem_singleton] at hk
      rcases hk with hk | rfl
      · exact h.bounds k hk
      · exact ⟨by omega, le_refl _⟩
  · rw [hl']
    simp
  · intro msg hmsg hstart
    rw [hlog] at hmsg
    rcases mem_controlSent_concat hmsg with hmsg | hmsg
    · exact h.settings msg hmsg hstart
    · obtain rfl := acceptedControl_eq_some hmsg
      refine ⟨h.messagesPerCycle, ?_⟩
      change decide (l.processType = .Loan) = config.loanMode
      rw [h.processType]
      cases config.loanMode <;> rfl

/-- An entry that announces nothing. -/
theorem Announces.quiet (h : l.Announces config) {t : ℕ} {e : PubEvent}
    (hlog : l'.log = l.log ++ [(t, e)])
    (he : ∀ msg, e.acceptedControl = some msg → msg.start = false)
    (hmessages : l'.messagesPerCycle = l.messagesPerCycle)
    (hprocess : l'.processType = l.processType) (hle : l.currentTest ≤ l'.currentTest)
    (hidle : l'.state = .Announce → l.state = .Announce ∨ l.currentTest + 1 ≤ l'.currentTest) :
    l'.Announces config := by
  have heq := announced_concat_of_none hlog he
  refine ⟨hmessages.trans h.messagesPerCycle, hprocess.trans h.processType, h.nonneg.trans hle,
    ?_, ?_, ?_, ?_⟩
  · rw [heq]
    exact h.increasing
  · intro k hk
    rw [heq] at hk
    have := h.bounds k hk
    omega
  · intro hstate k hk
    rw [heq] at hk
    rcases hidle hstate with hold | hcount
    · exact (h.idle hold k hk).trans hle
    · exact (h.bounds k hk).2.trans hcount
  · intro msg hmsg hstart
    rw [hlog] at hmsg
    rcases mem_controlSent_concat hmsg with hmsg | hmsg
    · exact h.settings msg hmsg hstart
    · rw [he msg hmsg] at hstart
      exact absurd hstart (by simp)

theorem Announces.entry (h : l.Announces config) (hentry : l.Entry l') : l'.Announces config := by
  cases hentry with
  | start t ret hstate => exact h.start hstate rfl
  | data t calls => exact h.quiet rfl (by simp) rfl rfl (le_refl _) .inl
  | stop t ret =>
    refine h.quiet rfl ?_ rfl rfl (Int.le_add_one (le_refl _)) fun _ ↦ .inr (le_refl _)
    intro msg hmsg
    rw [acceptedControl_eq_some hmsg]
    rfl
  | skip =>
    refine ⟨h.messagesPerCycle, h.processType, Int.le_add_one h.nonneg, h.increasing, ?_, ?_,
      h.settings⟩
    · intro k hk
      exact ⟨(h.bounds k hk).1, Int.le_add_one (h.bounds k hk).2⟩
    · intro _ k hk
      exact (h.bounds k hk).2

theorem Announces.entries (h : l.Announces config) (hentries : ReflTransGen Entry l l') :
    l'.Announces config := by
  induction hentries with
  | refl => exact h
  | tail _ hentry ih => exact ih.entry hentry

end Ledger

/-! ## Runs -/

namespace PubTest

def ledger (p : PubTest) : Ledger where
  messagesPerCycle := p.pub.messagesPerCycle
  processType := p.processType
  currentTest := p.currentTest
  state := p.state
  log := p.log

theorem resetTest_entry (io : PubAnswers) (p : PubTest) :
    p.ledger.Entry (p.resetTest io).ledger := by
  have hfinish : ∀ q : PubTest,
      (finishTest true q).ledger = { q.ledger with currentTest := q.currentTest + 1 } := by
    intro q
    obtain ⟨exec, exportResult, reports, hq⟩ := finishTest_frame q
    rw [hq]
    rfl
  rw [resetTest]
  split_ifs
  · rw [hfinish]
    exact .stop _ io.stopRet
  · rw [hfinish]
    exact .skip

theorem read_entries (io : PubAnswers) (p : PubTest) :
    ReflTransGen Ledger.Entry p.ledger (p.read io).ledger := by
  obtain ⟨cyles, reset, send, hread | hread⟩ := read_cases io p
  · rw [hread]
    exact Ledger.entries_of_eq rfl
  · rw [hread]
    have hentry := resetTest_entry io
      { p with currentCylesReset := cyles, reset := reset, send := send }
    exact .single hentry

theorem stream_entries (io : PubAnswers) (p : PubTest) :
    ReflTransGen Ledger.Entry p.ledger (p.stream io).world.ledger := by
  obtain ⟨entities, id, pubId, calls, hs | ⟨what, hs⟩⟩ := stream_frame p io
  · rw [hs]
    exact .single (.data _ calls)
  · rw [hs]
    exact .single (.data _ calls)

theorem write_entries (io : PubAnswers) (p : PubTest) :
    ReflTransGen Ledger.Entry p.ledger (p.write io).world.ledger := by
  rw [write]
  split_ifs
  · exact .refl
  · exact .refl
  · cases hstate : p.state with
    | WaitingMatch => exact .refl
    | Announce =>
      simp only
      split_ifs
      · exact Ledger.entries_of_eq (congrArg (fun s ↦ { p.ledger with state := s }) hstate.symm)
      · exact .single (.start _ _ hstate)
    | Streaming => exact stream_entries io p

theorem pass_entries (o : Outcome PubTest) (io : PubAnswers) :
    ReflTransGen Ledger.Entry o.world.ledger (pass o io).world.ledger := by
  cases o with
  | thrown what p => exact .refl
  | ret p =>
    by_cases h : p.exec.currentState = .EXECUTION
    · rw [pass_ret io h, Outcome.world_bind_ret (f := tick) (g := ledger) fun _ ↦ rfl]
      exact (read_entries io p).trans (write_entries io _)
    · rw [pass, mainPass_of_ended (w := p) _ h]

theorem pass_log_prefix (o : Outcome PubTest) (io : PubAnswers) :
    o.world.log <+: (pass o io).world.log :=
  Ledger.log_prefix_of_reflTransGen (pass_entries o io)

/-- **What is announced.** -/
theorem announces_run (config : MainTestConfig) (reset : Bool) (ios : List PubAnswers) :
    (run pass (start config reset) ios).world.ledger.Announces config := by
  refine run_invariant (I := fun o : Outcome PubTest ↦ o.world.ledger.Announces config) ?_ ?_ ios
  · have hworld : (start config reset).world.ledger = ⟨config.messageCount,
        ProcessType.ofLoan config.loanMode, 0, (start config reset).world.state, []⟩ := by
      rcases lt_or_ge config.messageCount 0 with h | h
      · rw [start_of_neg h]
        rfl
      · rw [start_of_nonneg h]
        rfl
    rw [hworld]
    exact ⟨rfl, rfl, le_refl _, .nil, by simp [Ledger.announced], by simp [Ledger.announced],
      by simp⟩
  · intro o io h
    exact h.entries (pass_entries o io)

/-- A test that announces rounds has been initialised, so its count is not negative. -/
theorem messageCount_nonneg {config : MainTestConfig} {reset : Bool} {ios : List PubAnswers}
    (h : (run pass (start config reset) ios).world.log ≠ []) : 0 ≤ config.messageCount := by
  by_contra hneg
  rw [run_of_neg (not_le.mp hneg)] at h
  exact h rfl

end PubTest

end IndraDds
