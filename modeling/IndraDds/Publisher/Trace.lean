import IndraDds.Publisher.Announcements
import IndraDds.Publisher.Samples

/-!
# The trace and the length of a publisher run

Two results about every run of the publisher, whatever the match flags do and whatever value the
constructor left in `reset`. When no call fails, the writes are a prefix of the rounds in order,
with the waits of the protocol between them. And the executive leaves execution at the end of cycle
`13 N + 45 + U`, where `U` counts the cycles in which `write` found an endpoint unmatched.

Both are read off the protocol through `Follows`; the second needs no assumption on the writes.
-/

namespace IndraDds

open Transition

/-! ## Signals -/

/-- What a subscriber can see of an event: the control message, or how many samples were sent. -/
inductive Signal where
  | control (msg : TestControl)
  | data (round : ℤ) (count : ℕ)
deriving DecidableEq, Repr

def PubEvent.signal : PubEvent → Signal
  | control msg _ => .control msg
  | data round calls => .data round (accepted calls).length

/-- The signal of an act, in a test with `n` samples a round. -/
def Act.signal (n : ℕ) (loan : Bool) : Act → Signal
  | start k => .control (FastPubControl.startMessage k n loan)
  | data k => .data k n
  | stop k => .control (FastPubControl.stopMessage k)

/-- The control message of an act. -/
def Act.message (n : ℕ) (loan : Bool) (a : Act) : Option TestControl :=
  match a.signal n loan with
  | .control msg => some msg
  | .data _ _ => none

/-- The signals of a whole test of `N` rounds. -/
def protocolSignals (N n : ℕ) (loan : Bool) : List Signal :=
  (List.range N).flatMap fun i : ℕ ↦
    [.control (FastPubControl.startMessage (i + 1) n loan), .data (i + 1) n,
      .control (FastPubControl.stopMessage (i + 1))]

theorem map_signal_acts (N n : ℕ) (loan : Bool) :
    (Proto.acts N).map (Act.signal n loan) = protocolSignals N n loan := by
  rw [Proto.acts, List.map_flatMap, protocolSignals]
  rfl

namespace PubTest

variable {config : MainTestConfig} {reset : Bool} {N n : ℕ}

/-- The timed acts of a run. -/
def trace (p : PubTest) : List (ℕ × Act) := p.log.map PubEvent.timedAct

/-- The signals of a run. -/
def signals (p : PubTest) : List Signal := p.log.map fun e ↦ e.2.signal

/-- A pass sends at most one control message. -/
theorem Passes.mem_control {mode : ProcessType} {io : PubAnswers} {p : PubTest} {a : Proto}
    {o : Outcome PubTest} (h : Passes N n mode io p a o) {t : ℕ} {msg : TestControl}
    {ret : ReturnCode} (hmem : (t, .control msg ret) ∈ o.world.record.log) :
    (t, .control msg ret) ∈ p.record.log ∨
      msg = FastPubControl.startMessage (a.round + 1) n (mode = .Loan) ∧ ret = io.startRet ∨
      msg = FastPubControl.stopMessage (p.currentTest + 1) ∧ ret = io.stopRet := by
  -- a write phase adds an entry of another kind
  have hstream : (t, .control msg ret) ∈ (p.stream io).world.log →
      (t, .control msg ret) ∈ p.log := by
    obtain ⟨calls, hlog, -, -⟩ := stream_world p io
    intro hmem
    rw [hlog, List.mem_append, List.mem_singleton] at hmem
    exact hmem.elim id (by simp)
  cases h with
  | wait q h =>
    rw [Outcome.world_ret, h] at hmem
    exact .inl hmem
  | start q hp hw hm h =>
    rw [Outcome.world_ret, h, Record.started, List.mem_append, List.mem_singleton] at hmem
    rcases hmem with hmem | hmem
    · exact .inl hmem
    · obtain ⟨-, hmsg, hret⟩ : t = _ ∧ msg = _ ∧ ret = _ := by simpa using hmem
      exact .inr (.inl ⟨hmsg, hret⟩)
  | stream q s hp hm hs h =>
    rw [hs] at hstream
    rw [Outcome.world_ret, h] at hmem
    exact .inl (hstream hmem)
  | throw what q hp hs =>
    rw [hs] at hstream
    exact .inl (hstream hmem)
  | stop q hp h =>
    rw [Outcome.world_ret, h, Record.stopped, List.mem_append, List.mem_singleton] at hmem
    rcases hmem with hmem | hmem
    · exact .inl hmem
    · obtain ⟨-, hmsg, hret⟩ : t = _ ∧ msg = _ ∧ ret = _ := by simpa using hmem
      exact .inr (.inr ⟨hmsg, hret⟩)

section Contents

variable (hpos : 1 ≤ N) (hN : config.testCount = N) (hn : config.messageCount = n)

include hpos hN hn

/-- The control messages of a run carry the settings of the test, whatever the writes return. -/
theorem control_of_mem_log (reset : Bool) (ios : List PubAnswers) : ∀ t msg ret,
    (t, .control msg ret) ∈ (run pass (start config reset) ios).world.log →
      .control msg = (PubEvent.control msg ret).act.signal n config.loanMode := by
  have hloan : decide (ProcessType.ofLoan config.loanMode = .Loan) = config.loanMode := by
    cases config.loanMode <;> rfl
  refine publisher_induction hpos hN hn reset (P := fun _ o ↦ ∀ t msg ret,
    (t, .control msg ret) ∈ o.world.record.log →
      .control msg = (PubEvent.control msg ret).act.signal n config.loanMode) (by simp) ?_ ?_ ios
  · intro ios io p o ih hrun hfollows hpasses t msg ret hmem
    obtain hmem | ⟨rfl, -⟩ | ⟨rfl, -⟩ := hpasses.mem_control hmem
    · exact ih t msg ret hmem
    · rw [hloan]
      rfl
    · rfl
  · intro ios io what p ih
    exact ih

theorem ret_of_mem_log (reset : Bool) {ios : List PubAnswers} (hok : ∀ io ∈ ios, io.Succeeds) :
    ∀ t msg ret, (t, .control msg ret) ∈ (run pass (start config reset) ios).world.log →
      ret = RETCODE_OK := by
  revert hok
  refine publisher_induction hpos hN hn reset (P := fun ios o ↦ (∀ io ∈ ios, io.Succeeds) →
    ∀ t msg ret, (t, .control msg ret) ∈ o.world.record.log → ret = RETCODE_OK)
    (fun _ ↦ (by simp)) ?_ ?_ ios
  · intro ios io p o ih hrun hfollows hpasses hok t msg ret hmem
    have hio : io.Succeeds := hok io (List.mem_append_right _ (List.mem_singleton_self io))
    obtain hmem | ⟨-, rfl⟩ | ⟨-, rfl⟩ := hpasses.mem_control hmem
    · exact ih (fun io hio ↦ hok io (List.mem_append_left _ hio)) t msg ret hmem
    · exact hio.start
    · exact hio.stop
  · intro ios io what p ih hok
    exact ih fun io hio ↦ hok io (List.mem_append_left _ hio)

/-- The control messages of a run without failures, read off its trace. -/
theorem controlSent_run {ios : List PubAnswers} (hok : ∀ io ∈ ios, io.Succeeds) {p : PubTest}
    (h : run pass (start config reset) ios = .ret p) :
    controlSent p.log = (p.trace.map Prod.snd).filterMap (Act.message n config.loanMode) := by
  rw [controlSent, trace, List.map_map, List.filterMap_map]
  refine List.filterMap_congr fun e he ↦ ?_
  obtain ⟨t, e⟩ := e
  cases e with
  | control msg ret =>
    have hmem : (t, .control msg ret) ∈ (run pass (start config reset) ios).world.log := by
      rw [h]
      exact he
    have hret := ret_of_mem_log hpos hN hn reset hok t msg ret hmem
    have hcontrol := control_of_mem_log hpos hN hn reset ios t msg ret hmem
    change (PubEvent.control msg ret).acceptedControl
      = (PubEvent.control msg ret).act.message n config.loanMode
    rw [Act.message, ← hcontrol, PubEvent.acceptedControl, if_pos hret]
  | data k calls => rfl

theorem signals_eq {ios : List PubAnswers} (hok : ∀ io ∈ ios, io.Succeeds) {p : PubTest}
    (h : run pass (start config reset) ios = .ret p) :
    p.signals = (p.trace.map Prod.snd).map (Act.signal n config.loanMode) := by
  rw [signals, trace, List.map_map, List.map_map]
  refine List.map_congr_left fun e he ↦ ?_
  obtain ⟨t, e⟩ := e
  cases e with
  | control msg ret =>
    have hcontrol := control_of_mem_log hpos hN hn reset ios t msg ret
    rw [h] at hcontrol
    exact hcontrol he
  | data k calls =>
    have hround := (run_streams hpos hN hn hok).round t k calls (by rw [h]; exact he)
    have hlen : (accepted calls).length = n := by
      rw [hround, entitiesFrom, List.length_map, List.length_range]
    exact congrArg (Signal.data k) hlen

theorem size_cpuTimes {ios : List PubAnswers} {p : PubTest}
    (h : run pass (start config reset) ios = .ret p) : p.cpuTimes.size = dataCount p.log := by
  suffices hall : ∀ p, run pass (start config reset) ios = .ret p →
      p.record.cpuTimes.size = dataCount p.record.log from hall p h
  refine publisher_induction hpos hN hn reset (P := fun _ o ↦ ∀ p, o = .ret p →
    p.record.cpuTimes.size = dataCount p.record.log) ?_ ?_ ?_ ios
  · intro p hp
    obtain rfl := Outcome.ret.inj hp
    rfl
  · intro ios io p o ih hrun hfollows hpasses q hq
    have hbefore := ih p rfl
    cases hpasses with
    | wait q' h =>
      obtain rfl := Outcome.ret.inj hq
      rw [h]
      exact hbefore
    | start q' hp hw hm h =>
      obtain rfl := Outcome.ret.inj hq
      rw [h, Record.started, dataCount_concat]
      exact hbefore
    | stream q' s hp hm hs h =>
      obtain rfl := Outcome.ret.inj hq
      obtain ⟨entities, id, pubId, calls, hs' | ⟨what, hs'⟩⟩ := stream_frame p io
      · rw [hs'] at hs
        obtain rfl := Outcome.ret.inj hs
        rw [h]
        change (p.cpuTimes.addValue io.elapsed).size
          = dataCount (p.log ++ [(p.exec.currentCycle, .data (p.currentTest + 1) calls)])
        rw [Distribution.size_addValue, dataCount_concat]
        exact congrArg (· + 1) hbefore
      · rw [hs'] at hs
        exact absurd hs (by simp)
    | throw what q' hp hs => exact absurd hq (by simp)
    | stop q' hp h =>
      obtain rfl := Outcome.ret.inj hq
      rw [h, Record.stopped, dataCount_concat]
      exact hbefore
  · intro ios io what p ih q hq
    exact absurd hq (by simp)

end Contents

/-! ## The trace -/

theorem run_of_ended {p : PubTest} (h : p.exec.currentState ≠ .EXECUTION) (ios : List PubAnswers) :
    run pass (.ret p) ios = .ret p :=
  run_invariant (I := (· = Outcome.ret p)) rfl
    (fun _ _ ho ↦ by rw [ho, pass, mainPass_of_ended (w := p) _ h]) ios

/-- The trace law of a run of `N` rounds of `n` samples that ends in `p`. -/
structure ProtocolTrace (config : MainTestConfig) (N n : ℕ) (ios : List PubAnswers) (p : PubTest) :
    Prop where
  /-- The rounds come in order, each with its parameters and all its samples. -/
  order : p.signals <+: protocolSignals N n config.loanMode
  /-- A start happens in a matched cycle, and at least fifty matched cycles come before it. -/
  start : ∀ t k, (t, .start k) ∈ p.trace → (∃ io, ios[t]? = some io ∧ io.matched = true) ∧
    50 ≤ (ios.take t).countP PubAnswers.matched
  data : ∀ t k, (t, .data k) ∈ p.trace → ∃ io, ios[t]? = some io ∧ io.matched = true
  /-- A stop comes exactly six cycles after the data of its round. -/
  stop : ∀ t k, (t, .stop k) ∈ p.trace → ∃ t', t = t' + 6 ∧ (t', .data k) ∈ p.trace
  stopped : ∀ t k, (t, .data k) ∈ p.trace → t + 6 < ios.length → (t + 6, .stop k) ∈ p.trace
  next : ∀ t t' k, (t, .stop k) ∈ p.trace → (t', .start (k + 1)) ∈ p.trace → t + 6 ≤ t'
  /-- The executive leaves execution in the cycle of the last stop, and nothing follows. -/
  running : p.exec.currentState = .EXECUTION ∨ p.exec.currentState = .END
  ended : p.exec.currentState = .END ↔ ∃ t, (t, .stop N) ∈ p.trace
  last : ∀ t, (t, .stop N) ∈ p.trace → p.exec.currentCycle = t + 1
  quiet : p.exec.currentState = .END → ∀ ios', run pass (.ret p) ios' = .ret p
  cpuTimes : p.cpuTimes.size = p.trace.countP fun e ↦ e.2.isData

/-- **The trace law.** -/
theorem publisher_trace (config : MainTestConfig) (N n : ℕ) (hpos : 1 ≤ N)
    (hN : config.testCount = N) (hn : config.messageCount = n) (reset : Bool)
    (ios : List PubAnswers) (hok : ∀ io ∈ ios, io.Succeeds) :
    ∃ p, run pass (start config reset) ios = .ret p ∧ ProtocolTrace config N n ios p := by
  obtain ⟨p, hp⟩ : ∃ p, run pass (start config reset) ios = .ret p :=
    run_returns hpos hN hn (.inr fun io hio ↦ (hok io hio).write)
  have hfollows := run_follows hpos hN hn hp
  have htimed := Proto.timed_run hpos (ios.map PubAnswers.matched)
  have hspaced := Proto.spaced_run hpos (ios.map PubAnswers.matched)
  have hlog : p.trace = (run (Proto.step N) {} (ios.map PubAnswers.matched)).log := hfollows.log
  have hmatched : ∀ t : ℕ, (ios.map PubAnswers.matched)[t]? = some true →
      ∃ io, ios[t]? = some io ∧ PubAnswers.matched io = true := by
    intro t ht
    rw [List.getElem?_map, Option.map_eq_some_iff] at ht
    exact ht
  have hend : p.exec.currentState = .END ↔
      (run (Proto.step N) {} (ios.map PubAnswers.matched)).phase = .finished := by
    rw [hfollows.running]
    split_ifs with hph <;> simp [hph]
  refine ⟨p, hp, ?_⟩
  constructor
  · rw [signals_eq hpos hN hn hok hp, hlog, ← map_signal_acts]
    exact (Proto.log_prefix hpos _).map _
  · intro t k hmem
    rw [hlog] at hmem
    obtain ⟨hm, hc⟩ := htimed.start t k hmem
    rw [← List.map_take, List.count, List.countP_map] at hc
    refine ⟨hmatched t hm, hc.trans (Nat.le_of_eq (List.countP_congr fun io _ ↦ ?_))⟩
    simp
  · intro t k hmem
    rw [hlog] at hmem
    exact hmatched t (htimed.data t k hmem)
  · rw [hlog]
    exact hspaced.stop
  · intro t k hmem hlen
    rw [hlog] at hmem ⊢
    rw [← List.length_map PubAnswers.matched] at hlen
    exact Proto.stop_of_data hpos hmem hlen
  · rw [hlog]
    exact hspaced.next
  · rw [hfollows.running]
    split_ifs
    · exact .inr rfl
    · exact .inl rfl
  · rw [hend, hlog]
    exact Proto.finished_iff hpos _
  · intro t hmem
    rw [hlog] at hmem
    rw [hfollows.time]
    exact Proto.time_of_last_stop hpos hmem
  · intro hstate ios'
    exact run_of_ended (by rw [hstate]; simp) ios'
  · rw [size_cpuTimes hpos hN hn hp, hfollows.dataCount_eq, hlog]

/-- The subscriber comes in the second cycle. -/
def unmatchedFirst : List PubAnswers := { pubMatched := false } :: List.replicate 60 {}

theorem publisher_trace_unmatched_first :
    (run pass (start { messageCount := 2, testCount := 1 } true) unmatchedFirst).world.trace
      = [(51, .start 1), (52, .data 1), (58, .stop 1)] ∧
    ∃ p, run pass (start { messageCount := 2, testCount := 1 } true) unmatchedFirst = .ret p ∧
      ProtocolTrace { messageCount := 2, testCount := 1 } 1 2 unmatchedFirst p := by
  refine ⟨by decide +kernel, publisher_trace { messageCount := 2, testCount := 1 } 1 2 (by decide)
    rfl rfl true unmatchedFirst fun io hio ↦ ?_⟩
  rcases List.mem_cons.mp hio with rfl | hio
  · exact PubAnswers.succeeds_default false true 0
  · obtain rfl := List.eq_of_mem_replicate hio
    exact PubAnswers.succeeds_default true true 0

/-! ## The length of a run -/

/-- The loop of `main` is still going. -/
def looping : Outcome PubTest → Bool
  | .ret p => p.exec.inExecution
  | .thrown _ _ => false

/-- How long a run is. The cycles in which `write` was held up by a missing match are the visits of
`blocked`. -/
structure RunLength (N : ℕ) (start : Outcome PubTest) (ios : List PubAnswers) (p : PubTest) :
    Prop where
  alive : p.exec.inExecution = true → p.send = true ∨ p.reset = true
  running : p.exec.inExecution = true → p.exec.currentCycle = ios.length ∧
    ios.length < 13 * N + 45 + visits pass blocked start ios
  ended : p.exec.inExecution = false → p.exec.currentState = .END ∧
    p.exec.currentCycle = 13 * N + 45 + visits pass blocked start ios ∧
    13 * N + 45 + visits pass blocked start ios ≤ ios.length

theorem Follows.alive {N n : ℕ} {mode : ProcessType} {p : PubTest} {a : Proto}
    (h : Follows N n mode p a) (ha : a.phase ≠ .finished) : p.send = true ∨ p.reset = true := by
  have hflags := h.flags
  cases hp : a.phase with
  | announcing =>
    rw [hp] at hflags
    exact .inl hflags.2.1
  | streaming =>
    rw [hp] at hflags
    exact .inl hflags.2.1
  | draining j =>
    rw [hp] at hflags
    exact .inr hflags.2.2.1
  | cooling j =>
    rw [hp] at hflags
    exact .inr hflags.2.2.2.1
  | finished => exact absurd hp ha

theorem Follows.inExecution_iff {N n : ℕ} {mode : ProcessType} {p : PubTest} {a : Proto}
    (h : Follows N n mode p a) : p.exec.inExecution = true ↔ a.phase ≠ .finished := by
  rw [Executive.inExecution_iff, h.running]
  split_ifs with hp <;> simp [hp]

/-- The configured count of a test that was initialised is not negative. -/
theorem messageCount_of_ret {ios : List PubAnswers} {p : PubTest}
    (h : run pass (start config reset) ios = .ret p) : ∃ n : ℕ, config.messageCount = n := by
  rcases Int.lt_or_le config.messageCount 0 with hneg | hnonneg
  · rw [run_of_neg hneg] at h
    exact absurd h (by simp)
  · exact Int.eq_ofNat_of_zero_le hnonneg

theorem runLength_of_ret (hpos : 1 ≤ N) (hN : config.testCount = N) {ios : List PubAnswers}
    {p : PubTest} (h : run pass (start config reset) ios = .ret p) :
    RunLength N (start config reset) ios p := by
  obtain ⟨n, hn⟩ := messageCount_of_ret h
  have hfollows := run_follows hpos hN hn h
  have hv := Proto.valid_run hpos (ios.map PubAnswers.matched)
  have htimed := Proto.timed_run hpos (ios.map PubAnswers.matched)
  have hlength := Proto.time_add_remaining hpos (ios.map PubAnswers.matched)
  rw [← visits_blocked hpos hN hn h] at hlength
  have hzero := Proto.remaining_eq_zero_iff hv
  constructor
  · intro hexec
    exact hfollows.alive (hfollows.inExecution_iff.mp hexec)
  · intro hexec
    have hph := hfollows.inExecution_iff.mp hexec
    have htime := htimed.eq hph
    rw [List.length_map] at htime
    have hrem := hzero.not.mpr hph
    exact ⟨hfollows.time.trans htime, by omega⟩
  · intro hexec
    have hph : (run (Proto.step N) {} (ios.map PubAnswers.matched)).phase = .finished := by
      by_contra hne
      rw [hfollows.inExecution_iff.mpr hne] at hexec
      exact absurd hexec (by simp)
    have hrem := hzero.mpr hph
    have hle := htimed.le
    rw [List.length_map] at hle
    refine ⟨hfollows.running.trans (if_pos hph), ?_, by omega⟩
    rw [hfollows.time]
    omega

/-- A schedule long enough to make up for its missing matches ends the loop. -/
theorem looping_of_length (hpos : 1 ≤ N) (hN : config.testCount = N) {ios : List PubAnswers}
    (h : 13 * N + 45 + ios.countP (fun io ↦ !io.matched) ≤ ios.length) :
    looping (run pass (start config reset) ios) = false := by
  cases ho : run pass (start config reset) ios with
  | thrown what p => rfl
  | ret p =>
    obtain ⟨n, hn⟩ := messageCount_of_ret ho
    have hfinished : (run (Proto.step N) {} (ios.map PubAnswers.matched)).phase = .finished := by
      refine Proto.finished_of_length hpos ?_
      rw [List.countP_map, List.length_map]
      exact h
    have hfollows := run_follows hpos hN hn ho
    rw [looping, ← Bool.not_eq_true, hfollows.inExecution_iff, not_not]
    exact hfinished

/-- **The length law.** -/
theorem publisher_length (config : MainTestConfig) (N : ℕ) (hpos : 1 ≤ N)
    (hN : config.testCount = N) (reset : Bool) :
    (∀ ios p, run pass (start config reset) ios = .ret p →
      RunLength N (start config reset) ios p) ∧
    (∀ ios, 0 ≤ config.messageCount → (config.loanMode = true ∨
        ∀ io ∈ ios, ∀ i, (PubAnswers.writer io).write i = RETCODE_OK) →
      ∃ p, run pass (start config reset) ios = .ret p) ∧
    ∀ (answers : ℕ → PubAnswers) (m : ℕ), (∀ i, m ≤ i → (answers i).matched = true) →
      ∃ c, looping (run pass (start config reset) ((List.range c).map answers)) = false := by
  refine ⟨fun ios p h ↦ runLength_of_ret hpos hN h, fun ios hn hok ↦ ?_, fun answers m hm ↦ ?_⟩
  · obtain ⟨n, hn⟩ := Int.eq_ofNat_of_zero_le hn
    refine run_returns hpos hN hn (hok.imp_left fun hloan ↦ ?_)
    rw [hloan]
    rfl
  · refine ⟨m + (13 * N + 45), looping_of_length hpos hN ?_⟩
    -- the missing matches are all among the first `m` cycles
    have hlate : ((List.range (13 * N + 45)).map (m + ·)).countP
        ((fun io : PubAnswers ↦ !io.matched) ∘ answers) = 0 := by
      rw [List.countP_eq_zero]
      intro i hi
      obtain ⟨j, -, rfl⟩ := List.mem_map.mp hi
      simp [hm (m + j) (Nat.le_add_right m j)]
    have hearly : (List.range m).countP ((fun io : PubAnswers ↦ !io.matched) ∘ answers) ≤ m :=
      List.countP_le_length.trans (Nat.le_of_eq List.length_range)
    rw [List.countP_map, List.length_map, List.length_range, List.range_add, List.countP_append,
      hlate]
    omega

theorem publisher_length_one_round :
    (∀ ios p, run pass (start { testCount := 1 } true) ios = .ret p →
      RunLength 1 (start { testCount := 1 } true) ios p) ∧
    (∀ ios, 0 ≤ (100 : ℤ) → (false = true ∨
        ∀ io ∈ ios, ∀ i, (PubAnswers.writer io).write i = RETCODE_OK) →
      ∃ p, run pass (start { testCount := 1 } true) ios = .ret p) ∧
    ∀ (answers : ℕ → PubAnswers) (m : ℕ), (∀ i, m ≤ i → (answers i).matched = true) →
      ∃ c, looping (run pass (start { testCount := 1 } true) ((List.range c).map answers)) = false :=
  publisher_length { testCount := 1 } 1 (by decide) rfl true

end PubTest

end IndraDds
