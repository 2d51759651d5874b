import IndraDds.Publisher.Trace

/-!
# Failed writes

The publisher checks one of its four fallible calls: a failed `publish` of the normal mode throws.
The results of `publish_start`, `publish_stop` and `publish_loan` are dropped, so a round can be
streamed without having been announced and counted without having been sent. A stop can also be
left out: `reset_test` skips it when the round that ends is numbered beyond `max_test`, as the one
round of a test with a negative count is, and counts the round all the same.

`StepsSound` is what the counting promises. It holds in every state of every run in which the three
unchecked calls succeed and no stop is left out, whatever the checked call does. The proof is about
tests of one round or more, which follow the protocol; a test with a smaller count runs like a test
of one round until its stop is left out.
-/

namespace IndraDds

open Transition

theorem FastPub.length_accepted_publishLoan {a : WriterAnswers} {count : ℕ} {p : FastPub}
    (h : (p.publishLoan a count).1 = true) :
    (accepted (p.publishLoan a count).2.2).length = count := by
  rw [publishLoan] at h ⊢
  generalize 0 = i at h ⊢
  induction count generalizing i p with
  | zero => rfl
  | succ k ih =>
    rw [publishLoanLoop] at h ⊢
    by_cases hl : a.loanSample i ≠ RETCODE_OK
    · rw [if_pos hl] at h
      exact absurd h (by simp)
    · by_cases hw : a.write i ≠ RETCODE_OK
      · rw [if_neg hl, if_pos hw] at h
        exact absurd h (by simp)
      · rw [if_neg hl, if_neg hw] at h ⊢
        rw [not_not] at hw
        rw [hw]
        exact congrArg (· + 1) (ih _ h)

/-- The configuration with one test at least, which is what `finish_test` makes of any count. -/
def MainTestConfig.atLeastOne (config : MainTestConfig) : MainTestConfig :=
  { config with testCount := max 1 config.testCount }

namespace PubTest

/-! ## What a completed step needs -/

/-- The start of round `k` was accepted by the control writer. -/
def StartAccepted (log : List (ℕ × PubEvent)) (k : ℤ) : Prop :=
  ∃ t msg, (t, .control msg RETCODE_OK) ∈ log ∧ msg.start = true ∧ msg.testId = k

/-- All `n` samples of round `k` were accepted by the data writer. -/
def SamplesAccepted (n : ℕ) (log : List (ℕ × PubEvent)) (k : ℤ) : Prop :=
  ∃ t calls, (t, .data k calls) ∈ log ∧ (accepted calls).length = n

/-- The stop of round `k` was accepted by the control writer. -/
def StopAccepted (log : List (ℕ × PubEvent)) (k : ℤ) : Prop :=
  ∃ t msg, (t, .control msg RETCODE_OK) ∈ log ∧ msg.start = false ∧ msg.testId = k

def RoundAccepted (n : ℕ) (log : List (ℕ × PubEvent)) (k : ℤ) : Prop :=
  StartAccepted log k ∧ SamplesAccepted n log k ∧ StopAccepted log k

/-- A failed write does not pass for a completed step. -/
structure StepsSound (n : ℕ) (p : PubTest) : Prop where
  data : ∀ x ∈ published p.log, StartAccepted p.log x.1
  counted : ∀ k, 1 ≤ k → k ≤ p.currentTest → RoundAccepted n p.log k
  reported : ∀ r ∈ p.reports, ∀ k : ℤ, 1 ≤ k → k ≤ r.length → RoundAccepted n p.log k
  announce : ∀ t msg ret, p.log.getLast? = some (t, .control msg ret) → msg.start = true →
    ret ≠ RETCODE_OK → p.state = .Announce

/-! ## The unchecked calls -/

/-- The guards under which a pass calls `publish_start`. -/
def announces (p : PubTest) (io : PubAnswers) : Bool :=
  (p.read io).send && io.matched && (p.read io).state = .Announce &&
    (p.read io).offsetCycleStart ≤ (p.read io).currentCycle

/-- The guards under which a pass calls `publish_loan`. -/
def lends (p : PubTest) (io : PubAnswers) : Bool :=
  (p.read io).send && io.matched && (p.read io).state = .Streaming &&
    (p.read io).processType = .Loan

/-- The guards under which a pass calls `reset_test`. -/
def endsRound (p : PubTest) : Bool :=
  p.reset && p.offsetCylesReset ≤ p.currentCylesReset && p.state = .Streaming

/-- The unchecked calls of a pass succeed, and a round that it ends is within `max_test`, so that
`publish_stop` is one of them. -/
def UncheckedSucceed (o : Outcome PubTest) (io : PubAnswers) : Prop :=
  match o with
  | .ret p => p.exec.inExecution = true →
    (p.announces io = true → io.startRet = RETCODE_OK) ∧
    (p.endsRound = true → p.currentTest ≤ p.maxTest ∧ io.stopRet = RETCODE_OK) ∧
    (p.lends io = true →
      (p.pub.publishLoan io.writer (toSizeT p.pub.messagesPerCycle)).1 = true)
  | .thrown _ _ => True

instance decidableUncheckedSucceed : ∀ o io, Decidable (UncheckedSucceed o io)
  | .ret p, io => inferInstanceAs (Decidable (p.exec.inExecution = true →
      (p.announces io = true → io.startRet = RETCODE_OK) ∧
      (p.endsRound = true → p.currentTest ≤ p.maxTest ∧ io.stopRet = RETCODE_OK) ∧
      (p.lends io = true →
        (p.pub.publishLoan io.writer (toSizeT p.pub.messagesPerCycle)).1 = true)))
  | .thrown _ _, _ => inferInstanceAs (Decidable True)

/-! ## Runs in which the unchecked calls succeed -/

theorem length_accepted_normalLoop {a : WriterAnswers} {k i : ℕ} {p : PubTest}
    (h : (normalLoop a k i p).1 = true) : (accepted (normalLoop a k i p).2.2).length = k := by
  induction k generalizing i p with
  | zero => rfl
  | succ k ih =>
    rw [normalLoop] at h ⊢
    by_cases hw : FastPub.publish (a.write i) = true
    · rw [if_pos hw] at h ⊢
      rw [FastPub.publish, decide_eq_true_iff] at hw
      rw [hw]
      exact congrArg (· + 1) (ih h)
    · rw [if_neg hw] at h
      exact absurd h (by simp)

/-- What is known of such a run while it has not thrown. -/
structure Record.Clean (n : ℕ) (r : Record) : Prop where
  control : ∀ t msg ret, (t, .control msg ret) ∈ r.log → ret = RETCODE_OK
  data : ∀ t k calls, (t, .data k calls) ∈ r.log → (accepted calls).length = n
  reports : ∀ values ∈ r.reports, (values.length : ℤ) ≤ r.currentTest

/-- Until it throws a run is clean, and when it throws its steps are sound. -/
def CleanOrSound (n : ℕ) : Outcome PubTest → Prop
  | .ret p => p.record.Clean n
  | .thrown _ p => StepsSound n p

theorem Record.Clean.concat {n : ℕ} {r s : Record} {t : ℕ} {e : PubEvent} (h : r.Clean n)
    (hlog : s.log = r.log ++ [(t, e)])
    (hcontrol : ∀ msg ret, e = .control msg ret → ret = RETCODE_OK)
    (hdata : ∀ k calls, e = .data k calls → (accepted calls).length = n)
    (hreports : ∀ values ∈ s.reports, (values.length : ℤ) ≤ s.currentTest) : s.Clean n where
  control := by
    intro t' msg ret hmem
    rw [hlog, List.mem_append, List.mem_singleton, Prod.mk.injEq] at hmem
    rcases hmem with hmem | ⟨-, he⟩
    · exact h.control t' msg ret hmem
    · exact hcontrol msg ret he.symm
  data := by
    intro t' k calls hmem
    rw [hlog, List.mem_append, List.mem_singleton, Prod.mk.injEq] at hmem
    rcases hmem with hmem | ⟨-, he⟩
    · exact h.data t' k calls hmem
    · exact hdata k calls he.symm
  reports := hreports

section Sound

variable {N n : ℕ} {mode : ProcessType} {p : PubTest} {a : Proto}

/-- Every act of the protocol is in the log of the test. -/
theorem Follows.exists_event (h : Follows N n mode p a)
    (hlog : a.log.map Prod.snd = Proto.acts a.round ++ a.underway) {x : Act}
    (hx : x ∈ Proto.acts a.round ++ a.underway) : ∃ t e, (t, e) ∈ p.log ∧ e.act = x := by
  rw [← hlog, ← h.log, List.map_map] at hx
  obtain ⟨⟨t, e⟩, he, hact⟩ := List.mem_map.mp hx
  exact ⟨t, e, he, hact⟩

/-- An act other than data is a control message, and that was accepted. -/
theorem exists_control_of_act {log : List (ℕ × PubEvent)} {x : Act}
    (hok : ∀ t msg ret, (t, .control msg ret) ∈ log → ret = RETCODE_OK) {t : ℕ} {e : PubEvent}
    (he : (t, e) ∈ log) (hact : e.act = x) (hx : x.isData = false) :
    ∃ t msg, (t, .control msg RETCODE_OK) ∈ log ∧ msg.start = x.isStart ∧
      msg.testId = x.round := by
  cases e with
  | data round calls =>
    rw [← hact] at hx
    exact absurd hx (by simp [PubEvent.act, Act.isData])
  | control msg ret =>
    obtain rfl := hok t msg ret he
    refine ⟨t, msg, he, ?_⟩
    rw [← hact, PubEvent.act]
    split_ifs with hstart
    · exact ⟨hstart, rfl⟩
    · exact ⟨Bool.eq_false_of_not_eq_true hstart, rfl⟩

theorem Follows.stepsSound (h : Follows N n mode p a)
    (hlog : a.log.map Prod.snd = Proto.acts a.round ++ a.underway) (hclean : p.record.Clean n) :
    StepsSound n p := by
  have hround : ∀ k, 1 ≤ k → k ≤ p.currentTest → RoundAccepted n p.log k := by
    intro k hk hle
    rw [h.currentTest] at hle
    have hevent : ∀ x : Act, x.round = k → ∃ t e, (t, e) ∈ p.log ∧ e.act = x := by
      rintro x rfl
      exact h.exists_event hlog (List.mem_append_left _ (Proto.mem_acts.mpr ⟨hk, hle⟩))
    obtain ⟨t, e, he, hstart⟩ := hevent (.start k) rfl
    obtain ⟨t', e', he', hdata⟩ := hevent (.data k) rfl
    obtain ⟨t'', e'', he'', hstop⟩ := hevent (.stop k) rfl
    obtain ⟨calls, rfl⟩ := PubEvent.eq_data_of_act hdata
    exact ⟨exists_control_of_act hclean.control he hstart rfl,
      ⟨t', calls, he', hclean.data t' k calls he'⟩,
      exists_control_of_act hclean.control he'' hstop rfl⟩
  refine ⟨?_, hround, ?_, ?_⟩
  · intro x hx
    obtain ⟨t, calls, he, -⟩ := mem_published.mp hx
    have hdata : .data x.1 ∈ Proto.acts a.round ++ a.underway := by
      rw [← hlog, ← h.log, List.map_map]
      exact List.mem_map_of_mem (f := Prod.snd ∘ PubEvent.timedAct) he
    obtain ⟨t', e, he', hact⟩ := h.exists_event hlog (Proto.start_of_data hdata)
    exact exists_control_of_act hclean.control he' hact rfl
  · intro r hr k hk hle
    exact hround k hk (hle.trans (hclean.reports r hr))
  · intro t msg ret hlast _ hfail
    exact absurd (hclean.control t msg ret (List.mem_of_getLast? hlast)) hfail

theorem RoundAccepted.append {log : List (ℕ × PubEvent)} {k : ℤ} (h : RoundAccepted n log k)
    (log' : List (ℕ × PubEvent)) : RoundAccepted n (log ++ log') k := by
  obtain ⟨⟨t, msg, he, hmsg⟩, ⟨t', calls, he', hlen⟩, ⟨t'', msg', he'', hmsg'⟩⟩ := h
  exact ⟨⟨t, msg, List.mem_append_left _ he, hmsg⟩, ⟨t', calls, List.mem_append_left _ he', hlen⟩,
    ⟨t'', msg', List.mem_append_left _ he'', hmsg'⟩⟩

theorem StartAccepted.append {log : List (ℕ × PubEvent)} {k : ℤ} (h : StartAccepted log k)
    (log' : List (ℕ × PubEvent)) : StartAccepted (log ++ log') k := by
  obtain ⟨t, msg, he, hmsg⟩ := h
  exact ⟨t, msg, List.mem_append_left _ he, hmsg⟩

/-- A write phase that throws comes after its start and counts nothing. -/
theorem Follows.stepsSound_throw (h : Follows N n mode p a)
    (hlog : a.log.map Prod.snd = Proto.acts a.round ++ a.underway) (hclean : p.record.Clean n)
    (ha : a.phase = .streaming) {io : PubAnswers} {what : String} {q : PubTest}
    (hq : p.stream io = .thrown what q) : StepsSound n q := by
  have hsound := h.stepsSound hlog hclean
  obtain ⟨calls, hqlog, hcount, hreports⟩ := stream_world p io
  rw [hq, Outcome.world_thrown] at hqlog hcount hreports
  refine ⟨?_, ?_, ?_, ?_⟩
  · intro x hx
    rw [hqlog] at hx ⊢
    rw [published_concat, List.mem_append] at hx
    rcases hx with hx | hx
    · exact (hsound.data x hx).append _
    · obtain ⟨entity, -, rfl⟩ := List.mem_map.mp hx
      obtain ⟨t, e, he, hact⟩ := h.exists_event hlog (x := .start (a.round + 1)) (by
        rw [Proto.underway, ha]
        exact List.mem_append_right _ (List.mem_singleton_self _))
      rw [h.currentTest]
      exact StartAccepted.append (exists_control_of_act hclean.control he hact rfl) _
  · intro k hk hle
    rw [hqlog]
    exact (hsound.counted k hk (hcount ▸ hle)).append _
  · intro r hr k hk hle
    rw [hqlog]
    exact (hsound.reported r (hreports ▸ hr) k hk hle).append _
  · intro t msg ret hlast
    rw [hqlog, List.getLast?_concat] at hlast
    exact absurd hlast (by simp)

/-- A write phase that returns has sent all its samples, if the loan call succeeded. -/
theorem stream_ret {s : PubTest} {io : PubAnswers} (hs : p.stream io = .ret s)
    (hloan : p.processType = .Loan →
      (p.pub.publishLoan io.writer (toSizeT p.pub.messagesPerCycle)).1 = true) :
    ∃ t calls, s.log = p.log ++ [(t, .data (p.currentTest + 1) calls)] ∧
      (accepted calls).length = toSizeT p.pub.messagesPerCycle := by
  obtain hmode | hmode := p.processType.normal_or_loan
  · obtain ⟨entities, id, hloop⟩ := normalLoop_frame io.writer (toSizeT p.pub.messagesPerCycle) 0 p
    rw [stream_normal hmode, streamNormal] at hs
    by_cases hall : (normalLoop io.writer (toSizeT p.pub.messagesPerCycle) 0 p).1 = true
    · rw [if_pos hall, hloop] at hs
      obtain rfl := Outcome.ret.inj hs
      exact ⟨_, _, rfl, length_accepted_normalLoop hall⟩
    · rw [if_neg hall] at hs
      exact absurd hs (by simp)
  · rw [stream_loan hmode, streamLoan] at hs
    obtain rfl := Outcome.ret.inj hs
    exact ⟨_, _, rfl, FastPub.length_accepted_publishLoan (hloan hmode)⟩

/-! ### The guards -/

theorem Follows.announces (h : Follows N n mode p a) (ha : a.Armed) (hw : 50 ≤ a.warm)
    {io : PubAnswers} (hm : io.matched = true) : p.announces io = true := by
  obtain ⟨hread, -, -⟩ := h.read_armed io ha
  obtain ⟨hstate, hsend, -⟩ := hread.flags
  rw [PubTest.announces, hsend, hm, hstate, hread.offsetCycleStart, hread.currentCycle]
  simpa using hw

theorem Follows.lends (h : Follows N n mode p a) (ha : a.phase = .streaming)
    {io : PubAnswers} (hm : io.matched = true) (hmode : p.processType = .Loan) :
    p.lends io = true := by
  have hflags := h.flags
  rw [ha] at hflags
  rw [PubTest.lends, read_idle hflags.2.2.2.1, hflags.1, hflags.2.1, hm, hmode]
  rfl

theorem Follows.endsRound (h : Follows N n mode p a) (ha : a.phase = .draining 5) :
    p.endsRound = true := by
  have hflags := h.flags
  rw [ha] at hflags
  rw [PubTest.endsRound, hflags.1, hflags.2.2.1, hflags.2.2.2, h.offsetCylesReset]
  rfl

/-- The values reported with the last stop are those of the rounds counted. -/
theorem Follows.reports_stopped (h : Follows N n mode p a) {t : ℕ} {ret : ReturnCode} {last : Bool}
    (hreports : ∀ values ∈ p.reports, (values.length : ℤ) ≤ p.currentTest)
    (hsize : p.cpuTimes.size = a.round + 1) :
    ∀ values ∈ (p.record.stopped t ret last).reports,
      (values.length : ℤ) ≤ (p.record.stopped t ret last).currentTest := by
  intro values hvalues
  change (values.length : ℤ) ≤ p.currentTest + 1
  have hmem : values ∈ p.reports ∨ values = p.cpuTimes.values := by
    rw [Record.stopped] at hvalues
    split_ifs at hvalues
    · exact (List.mem_append.mp hvalues).imp_right List.mem_singleton.mp
    · exact .inl hvalues
  rcases hmem with hmem | rfl
  · exact (hreports values hmem).trans (Int.le_add_one (Int.le_refl _))
  · rw [Distribution.size] at hsize
    rw [hsize, h.currentTest]
    exact Int.le_refl _

/-- **A pass** whose unchecked calls succeed. -/
theorem Follows.cleanOrSound (h : Follows N n mode p a)
    (hlog : a.log.map Prod.snd = Proto.acts a.round ++ a.underway) (hclean : p.record.Clean n)
    (hsize : a.phase = .draining 5 → p.cpuTimes.size = a.round + 1) {io : PubAnswers}
    (hio : UncheckedSucceed (.ret p) io) {o : Outcome PubTest}
    (hpasses : Passes N n mode io p a o) : CleanOrSound n o := by
  have hok := fun hp ↦ hio (h.inExecution_iff.mpr hp)
  cases hpasses with
  | wait q hq =>
    rw [CleanOrSound, hq]
    exact hclean
  | start q hp hw hm hq =>
    have hret := (hok hp.ne_finished).1 (h.announces hp hw hm)
    rw [CleanOrSound, hq]
    refine hclean.concat rfl ?_ (by simp) hclean.reports
    rintro msg ret ⟨⟩
    exact hret
  | stream q s hp hm hs hq =>
    have hloan := fun hmode ↦ (hok (by rw [hp]; simp)).2.2 (h.lends hp hm hmode)
    obtain ⟨t, calls, hslog, hlen⟩ := stream_ret hs hloan
    obtain ⟨-, -, hcount, hreports⟩ := stream_world p io
    rw [hs, Outcome.world_ret] at hcount hreports
    rw [h.messagesPerCycle, toSizeT_natCast] at hlen
    rw [CleanOrSound, hq]
    refine hclean.concat hslog (by simp) ?_ ?_
    · rintro k calls ⟨⟩
      exact hlen
    · change ∀ values ∈ s.reports, (values.length : ℤ) ≤ s.currentTest
      rw [hcount, hreports]
      exact hclean.reports
  | throw what q hp hs => exact h.stepsSound_throw hlog hclean hp hs
  | stop q hp hq =>
    have hret := ((hok (by rw [hp]; simp)).2.1 (h.endsRound hp)).2
    rw [CleanOrSound, hq]
    -- the report has a value for each round sent, and all of those are counted now
    refine hclean.concat rfl ?_ (by simp) (h.reports_stopped hclean.reports (hsize hp))
    rintro msg ret ⟨⟩
    exact hret

end Sound

/-! ## Tests of one round or more -/

variable {config : MainTestConfig} {reset : Bool} {N n : ℕ}

theorem cleanOrSound_run (hpos : 1 ≤ N) (hN : config.testCount = N) (hn : config.messageCount = n)
    (ios : List PubAnswers) (hok : Along pass UncheckedSucceed (start config reset) ios) :
    CleanOrSound n (run pass (start config reset) ios) := by
  revert hok
  refine publisher_induction hpos hN hn reset (P := fun ios o ↦
    Along pass UncheckedSucceed (start config reset) ios → CleanOrSound n o) ?_ ?_ ?_ ios
  · intro _
    exact ⟨by simp, by simp, by simp⟩
  · intro ios io p o ih hrun hfollows hpasses hok
    rw [along_concat, hrun] at hok
    refine hfollows.cleanOrSound (Proto.log_run hpos _) (ih hok.1) ?_ hok.2 hpasses
    intro hp
    rw [size_cpuTimes hpos hN hn hrun, hfollows.dataCount_eq, Proto.countP_log_of_draining hpos hp]
  · intro ios io what p ih hok
    exact ih (along_concat.mp hok).1

theorem stepsSound_run (hpos : 1 ≤ N) (hN : config.testCount = N) (hn : config.messageCount = n)
    (ios : List PubAnswers) (hok : Along pass UncheckedSucceed (start config reset) ios) :
    StepsSound n (run pass (start config reset) ios).world := by
  have hinv := cleanOrSound_run hpos hN hn ios hok
  cases ho : run pass (start config reset) ios with
  | ret p =>
    rw [ho] at hinv
    exact (run_follows hpos hN hn ho).stepsSound (Proto.log_run hpos _) hinv
  | thrown what p =>
    rw [ho] at hinv
    exact hinv

/-! ## Tests of no round

`finish_test` ends a test after its first round if the count is smaller than one. While no stop is
left out, such a test and the test of one round make the same moves. -/

/-- The test when it is given one round at least. -/
def atLeastOne (p : PubTest) : PubTest :=
  { p with maxTest := max 1 p.maxTest, config := p.config.atLeastOne }

theorem start_atLeastOne (config : MainTestConfig) (reset : Bool) :
    start config.atLeastOne reset = (start config reset).map atLeastOne := by
  rcases lt_or_ge config.messageCount 0 with h | h
  · rw [start_of_neg h, start_of_neg (show config.atLeastOne.messageCount < 0 from h)]
    rfl
  · rw [start_of_nonneg h, start_of_nonneg (show 0 ≤ config.atLeastOne.messageCount from h)]
    rfl

section AtLeastOne

variable {p : PubTest} {io : PubAnswers}

theorem makeFinalReport_atLeastOne (p : PubTest) :
    p.atLeastOne.makeFinalReport = p.makeFinalReport.atLeastOne := by
  have hexport : p.atLeastOne.exportResult = p.exportResult := rfl
  rw [makeFinalReport, makeFinalReport, hexport]
  cases p.exportResult <;> rfl

theorem resetTest_atLeastOne (hcount : 0 ≤ p.currentTest) (hle : p.currentTest ≤ p.maxTest) :
    p.atLeastOne.resetTest io = (p.resetTest io).atLeastOne := by
  -- one round at least is what the comparison of `finish_test` makes of any count
  have hlast : max 1 p.maxTest ≤ p.currentTest + 1 ↔ p.maxTest ≤ p.currentTest + 1 := by omega
  have hreset : p.atLeastOne.resetTest io = if p.maxTest ≤ p.currentTest + 1 then
      (p.stopped io).atLeastOne.makeFinalReport else (p.stopped io).atLeastOne :=
    (resetTest_of_le io (le_max_of_le_right hle)).trans (if_congr hlast rfl rfl)
  rw [hreset, resetTest_of_le io hle, apply_ite atLeastOne, makeFinalReport_atLeastOne]

theorem rearmed_atLeastOne : p.atLeastOne.rearmed = p.rearmed.atLeastOne := by
  rw [rearmed, rearmed]
  change (if p.state = .Announce then _ else _) = _
  split_ifs <;> rfl

theorem rearmed_counters (p : PubTest) : p.rearmed.currentTest = p.currentTest ∧
    p.rearmed.maxTest = p.maxTest ∧ p.rearmed.state = p.state := by
  rw [rearmed]
  split_ifs <;> exact ⟨rfl, rfl, rfl⟩

theorem read_atLeastOne (hcount : 0 ≤ p.currentTest)
    (hends : p.endsRound = true → p.currentTest ≤ p.maxTest) (io : PubAnswers) :
    p.atLeastOne.read io = (p.read io).atLeastOne := by
  obtain ⟨htest, hmax, hstate⟩ := rearmed_counters p
  rw [read_eq, read_eq, rearmed_atLeastOne]
  change (if p.reset then
      if p.currentCylesReset + 1 > p.offsetCylesReset then
        if p.rearmed.state = .Streaming then _ else _
      else _
    else _) = _
  split_ifs with hreset hcyles hstreaming
  · have hround : p.endsRound = true := by
      rw [endsRound, hreset, ← hstate, hstreaming, decide_eq_true (Int.le_of_lt_add_one hcyles)]
      rfl
    refine resetTest_atLeastOne (htest ▸ hcount) ?_
    rw [htest, hmax]
    exact hends hround
  · rfl
  · rfl
  · rfl

theorem stream_atLeastOne (p : PubTest) (io : PubAnswers) :
    p.atLeastOne.stream io = (p.stream io).map atLeastOne := by
  obtain hmode | hmode := p.processType.normal_or_loan
  · have hloop := normalLoop_map (f := atLeastOne) (fun _ ↦ rfl) (fun _ ↦ rfl) (fun _ _ _ ↦ rfl)
      io.writer (toSizeT p.pub.messagesPerCycle) 0 p
    have hpub : p.atLeastOne.pub = p.pub := rfl
    rw [stream_normal hmode, stream_normal (p := p.atLeastOne) hmode, streamNormal, streamNormal,
      hpub, hloop]
    simp only
    split_ifs <;> rfl
  · rw [stream_loan hmode, stream_loan (p := p.atLeastOne) hmode]
    rfl

theorem write_atLeastOne (p : PubTest) (io : PubAnswers) :
    p.atLeastOne.write io = (p.write io).map atLeastOne := by
  rcases Bool.eq_false_or_eq_true p.send with hsend | hsend
  · rcases Bool.eq_false_or_eq_true io.matched with hm | hm
    · cases hstate : p.state with
      | WaitingMatch =>
        rw [write_waitingMatch hsend hm hstate,
          write_waitingMatch (p := p.atLeastOne) hsend hm hstate]
        rfl
      | Announce =>
        by_cases hc : p.currentCycle < p.offsetCycleStart
        · rw [write_warming hsend hm hstate hc,
            write_warming (p := p.atLeastOne) hsend hm hstate hc]
          rfl
        · rw [write_announce hsend hm hstate (not_lt.mp hc),
            write_announce (p := p.atLeastOne) hsend hm hstate (not_lt.mp hc)]
          rfl
      | Streaming =>
        rw [write_stream hsend hm hstate, write_stream (p := p.atLeastOne) hsend hm hstate]
        exact stream_atLeastOne p io
    · rw [write_unmatched hm, write_unmatched hm]
      rfl
  · rw [write_unsent hsend, write_unsent (p := p.atLeastOne) hsend]
    rfl

/-- A pass that leaves no stop out. -/
theorem pass_atLeastOne {o : Outcome PubTest} (hcount : 0 ≤ o.world.currentTest)
    (hio : UncheckedSucceed o io) :
    pass (o.map atLeastOne) io = (pass o io).map atLeastOne ∧
      UncheckedSucceed (o.map atLeastOne) io := by
  rcases o with p | ⟨what, p⟩
  · change pass (.ret p.atLeastOne) io = _ ∧ UncheckedSucceed (.ret p.atLeastOne) io
    by_cases hrun : p.exec.currentState = .EXECUTION
    · obtain ⟨hstart, hends, hlends⟩ := hio (Executive.inExecution_iff.mpr hrun)
      have hread : p.atLeastOne.read io = (p.read io).atLeastOne :=
        read_atLeastOne hcount (fun h ↦ (hends h).1) io
      constructor
      · rw [pass_ret (p := p.atLeastOne) io hrun, hread, write_atLeastOne, pass_ret io hrun]
        cases (p.read io).write io <;> rfl
      · intro _
        refine ⟨?_, fun h ↦ ⟨le_max_of_le_right (hends h).1, (hends h).2⟩, ?_⟩
        · rw [announces, hread]
          exact hstart
        · rw [lends, hread]
          exact hlends
    · constructor
      · rw [pass, pass, mainPass_of_ended (w := p) _ hrun,
          mainPass_of_ended (w := p.atLeastOne) _ hrun]
        rfl
      · exact fun h ↦ absurd (Executive.inExecution_iff.mp h) hrun
  · exact ⟨rfl, trivial⟩

/-- **The run of a test of no round**, while no stop is left out. -/
theorem run_atLeastOne (ios : List PubAnswers)
    (hok : Along pass UncheckedSucceed (start config reset) ios) :
    run pass (start config.atLeastOne reset) ios
        = (run pass (start config reset) ios).map atLeastOne ∧
      Along pass UncheckedSucceed (start config.atLeastOne reset) ios := by
  induction ios using List.reverseRecOn with
  | nil => exact ⟨start_atLeastOne config reset, trivial⟩
  | append_singleton ios io ih =>
    obtain ⟨hbefore, hio⟩ := along_concat.mp hok
    obtain ⟨hrun, halong⟩ := ih hbefore
    have hcount : 0 ≤ (run pass (start config reset) ios).world.currentTest :=
      (announces_run config reset ios).nonneg
    obtain ⟨hpass, hnext⟩ := pass_atLeastOne hcount hio
    rw [along_concat, run_concat, run_concat, hrun]
    exact ⟨hpass, halong, hnext⟩

end AtLeastOne

/-! ## The result -/

/-- A test that has sent nothing has nothing to account for. -/
theorem stepsSound_new (n : ℕ) (config : MainTestConfig) (reset : Bool) :
    StepsSound n (new config reset) := by
  have hlog : (new config reset).log = [] := rfl
  have hreports : (new config reset).reports = [] := rfl
  have hcount : (new config reset).currentTest = 0 := rfl
  refine ⟨?_, ?_, ?_, ?_⟩
  · rw [hlog]
    exact fun x hx ↦ absurd hx List.not_mem_nil
  · rw [hcount]
    exact fun k hk hle ↦ absurd (hk.trans hle) (by decide)
  · rw [hreports]
    exact fun r hr ↦ absurd hr List.not_mem_nil
  · rw [hlog]
    exact fun t msg ret hlast ↦ absurd hlast (by simp)

/-- **Failed writes.** -/
theorem stepsSound_of_uncheckedSucceed (config : MainTestConfig) (reset : Bool)
    (ios : List PubAnswers) (hok : Along pass UncheckedSucceed (start config reset) ios) :
    StepsSound config.messageCount.toNat (run pass (start config reset) ios).world := by
  rcases lt_or_ge config.messageCount 0 with hneg | hnonneg
  · -- a negative count of messages ends the process before its first pass
    rw [run_of_neg hneg]
    exact stepsSound_new _ config reset
  · obtain ⟨n, hn⟩ := Int.eq_ofNat_of_zero_le hnonneg
    obtain ⟨hrun, halong⟩ := run_atLeastOne ios hok
    have hN : config.atLeastOne.testCount = (max 1 config.testCount).toNat :=
      (Int.toNat_of_nonneg (le_max_of_le_left (by decide))).symm
    have hsound := stepsSound_run (by omega) hN (show config.atLeastOne.messageCount = n from hn)
      ios halong
    rw [hrun, Outcome.world_map] at hsound
    rw [hn, Int.toNat_natCast]
    exact ⟨hsound.data, hsound.counted, hsound.reported, hsound.announce⟩

/-- The `publish` of the second round fails. -/
def failedPublish : List PubAnswers :=
  List.replicate 64 ({} : PubAnswers) ++ [{ writer := { write := fun _ ↦ 1 } }]

theorem stepsSound_of_failed_publish :
    (run pass (start { messageCount := 1, testCount := 2 } false) failedPublish).world.trace
      = [(50, .start 1), (51, .data 1), (57, .stop 1), (63, .start 2), (64, .data 2)] ∧
    StepsSound 1
      (run pass (start { messageCount := 1, testCount := 2 } false) failedPublish).world :=
  ⟨by decide +kernel, stepsSound_of_uncheckedSucceed { messageCount := 1, testCount := 2 } false
    failedPublish (by decide +kernel)⟩

/-- With a negative count the round is counted and its stop is left out. -/
example : (run pass (start { messageCount := 1, testCount := -1 } false)
    (List.replicate 58 {})).world.trace = [(50, .start 1), (51, .data 1)] := by decide +kernel

/-- Every call fails, and the round is counted all the same. -/
theorem failed_round_counted : ¬StepsSound 1 (run pass
    (start { messageCount := 1, testCount := 1, loanMode := true } false)
    (List.replicate 58
      { startRet := 1, stopRet := 1, writer := { loanSample := fun _ ↦ 1 } })).world := by
  have hlog : (run pass (start { messageCount := 1, testCount := 1, loanMode := true } false)
      (List.replicate 58
        { startRet := 1, stopRet := 1, writer := { loanSample := fun _ ↦ 1 } })).world.log
      = [(50, .control { testId := 1, start := true, expectedEntities := 1, loan := true } 1),
        (51, .data 1 [.loanSample 0 1]), (57, .control { testId := 1 } 1)] := by
    decide +kernel
  intro h
  obtain ⟨⟨t, msg, hmem, -⟩, -, -⟩ := h.counted 1 (by decide) (by decide +kernel)
  rw [hlog] at hmem
  simp [RETCODE_OK] at hmem

end PubTest

end IndraDds
