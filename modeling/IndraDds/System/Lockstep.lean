import IndraDds.Publisher.Trace
import IndraDds.System.Loss

/-!
# The test in lockstep

The run that the test is designed for: the two cycles alternate, both endpoints are matched, no call
fails, and what the publisher writes in a cycle has arrived before the subscriber's next one. A beat
is a cycle of the publisher, the deliveries, and a cycle of the subscriber.

At the end of a beat the subscriber has polled and drained everything, so its state is a function of
the state of the protocol, `Synced`: it is active exactly while the publisher is about to stream,
and it has measured the rounds that have been sent. One lemma a case of `Proto.Move` says so, and
after `13 N + 45` beats the protocol has finished.
-/

namespace IndraDds

open Transition Window

namespace Proto

/-- The number of rounds sent. -/
def sent (a : Proto) : ℕ := a.log.countP fun e ↦ e.2.isData

theorem sent_concat {a a' : Proto} {t : ℕ} {e : Act} (h : a'.log = a.log ++ [(t, e)]) :
    a'.sent = a.sent + if e.isData then 1 else 0 := by
  rw [sent, h, List.countP_append, List.countP_singleton, sent]

/-- A cycle makes at most one entry. -/
theorem Move.log_cases {N : ℕ} {m : Bool} {a a' : Proto} (h : Move N a m a') :
    a'.log = a.log ∨ ∃ e, a'.log = a.log ++ [(a.time, e)] := by
  cases h with
  | start => exact .inr ⟨_, rfl⟩
  | data => exact .inr ⟨_, rfl⟩
  | stop => exact .inr ⟨_, rfl⟩
  | _ => exact .inl rfl

theorem Move.sent_le {N : ℕ} {m : Bool} {a a' : Proto} (h : Move N a m a') :
    a'.sent ≤ a.sent + 1 := by
  obtain hlog | ⟨e, hlog⟩ := h.log_cases
  · rw [sent, hlog, sent]
    exact Nat.le_succ _
  · rw [sent_concat hlog]
    split_ifs
    · exact le_refl _
    · exact Nat.le_succ _

/-- The control messages so far. -/
def messages (n : ℕ) (loan : Bool) (a : Proto) : List TestControl :=
  (a.log.map Prod.snd).filterMap (Act.message n loan)

theorem drop_messages_concat {n : ℕ} {loan : Bool} {a a' : Proto} {t : ℕ} {e : Act}
    (h : a'.log = a.log ++ [(t, e)]) : (a'.messages n loan).drop (a.messages n loan).length
      = (e.message n loan).toList := by
  have hmessages : a'.messages n loan = a.messages n loan ++ (e.message n loan).toList := by
    rw [messages, h, List.map_append, List.filterMap_append, messages, List.map_singleton]
    cases he : e.message n loan <;> simp [he]
  rw [hmessages, List.drop_left]

theorem drop_messages_of_log {n : ℕ} {loan : Bool} {a a' : Proto} (h : a'.log = a.log) :
    (a'.messages n loan).drop (a.messages n loan).length = [] := by
  rw [messages, messages, h, List.drop_length]

end Proto

namespace Sys

variable {c : Setup} {N n first k : ℕ} {s : Sys} {a : Proto} {b : Mailbox.Box TestControl ℤ}
  {ls : List Label}

/-! ## The publisher of a schedule -/

/-- The protocol that the publisher follows. -/
def protocol (N : ℕ) (ls : List Label) : Proto :=
  run (Proto.step N) {} ((pubAnswers ls).map PubAnswers.matched)

@[simp] theorem protocol_nil (N : ℕ) : protocol N [] = {} := rfl

@[simp] theorem protocol_subCycle (N : ℕ) (elapsed : ℚ) : protocol N [.subCycle elapsed] = {} := rfl

section Publisher

variable (h : c.Runs N n) (hok : ∀ io ∈ pubAnswers ls, io.Succeeds)

include h hok

theorem follows_run : ∃ p, (runOf c ls).pub = .ret p ∧
    PubTest.Follows N n c.mode p (protocol N ls) := by
  obtain ⟨p, hp⟩ : ∃ p, run PubTest.pass (PubTest.start c.pubConfig c.reset) (pubAnswers ls)
      = .ret p :=
    PubTest.run_returns h.rounds_pos h.testCount h.messageCount
      (.inr fun io hio ↦ (hok io hio).write)
  refine ⟨p, ?_, PubTest.run_follows h.rounds_pos h.testCount h.messageCount hp⟩
  rw [pub_run, hp]

theorem control_run : (runOf c ls).control = (protocol N ls).messages n c.pubConfig.loanMode := by
  obtain ⟨p, hp, hfollows⟩ := follows_run h hok
  have hrun := (pub_run c ls).symm.trans hp
  rw [control, hp, Outcome.world_ret,
    PubTest.controlSent_run h.rounds_pos h.testCount h.messageCount hok hrun, PubTest.trace,
    hfollows.log, Proto.messages]

theorem length_data_run : (runOf c ls).data.length = n * (protocol N ls).sent := by
  obtain ⟨p, hp, hfollows⟩ := follows_run h hok
  have hstreams : (runOf c ls).pub.world.record.Streams c.mode n := by
    rw [pub_run]
    exact PubTest.run_streams h.rounds_pos h.testCount h.messageCount hok
  rw [hp] at hstreams
  rw [data, Proto.sent, ← hfollows.dataCount_eq, hp]
  exact (congrArg List.length hstreams.published).trans (length_segment _ _ _)

end Publisher

/-! ## The invariant -/

/-- The data reader holds the samples from number `first` on, the control reader the messages from
number `k` on while the subscriber runs, and the subscriber is where the protocol `a` says. -/
structure Synced (c : Setup) (n first k : ℕ) (a : Proto) (s : Sys) : Prop where
  stocked : s.Stocked c n first
  polled_le : k ≤ s.controlDelivered
  unread : s.sub.world.exec.currentState = .EXECUTION →
    s.sub.world.subControl.reader.samples.map Sample.data = s.delivered.drop k
  started : a.phase = .streaming →
    s.sub.world.testActive = true ∧ s.sub.world.currentTestId = a.round + 1
  waiting : a.phase ≠ .streaming → s.sub.world.testActive = false
  measured : s.sub.world.measured.map Measurement.testId = rounds a.sent
  results : s.sub.world.testValidation.tests = List.replicate a.sent .VALID
  total : s.sub.world.totalLostSamples = 0

/-- At the end of a beat nothing is on its way and nothing is left in the readers. -/
structure Rest (c : Setup) (n : ℕ) (a : Proto) (s : Sys) : Prop where
  synced : s.Synced c n s.dataDelivered s.controlDelivered a
  control : s.controlDelivered = s.control.length
  data : s.dataDelivered = s.data.length

/-! ## Arrivals -/

theorem Synced.pubCycle (h : s.Synced c n first k a) (htracks : s.Tracks c b) (io : PubAnswers) :
    (s.step (.pubCycle io)).Synced c n first k a := by
  have hdelivered : (s.step (.pubCycle io)).delivered = s.delivered := by
    rw [← (htracks.pubCycle io).messages, htracks.messages]
  refine ⟨h.stocked.pubCycle io, h.polled_le, ?_, h.started, h.waiting, h.measured, h.results,
    h.total⟩
  rw [hdelivered]
  exact h.unread

theorem Synced.deliverControl (h : s.Synced c n first k a) (htracks : s.Tracks c b) :
    s.deliverControl.Synced c n first k a := by
  have hstocked := h.stocked.deliverControl
  rw [Sys.deliverControl] at hstocked ⊢
  cases hmsg : s.control[s.controlDelivered]? with
  | none => exact h
  | some msg =>
    simp only [hmsg] at hstocked
    refine ⟨hstocked, Nat.le_succ_of_le h.polled_le, ?_, ?_, ?_, ?_, ?_, ?_⟩
    · simp only [Outcome.world_map]
      intro hrun
      have hlen : k ≤ s.delivered.length := by
        rw [delivered, List.length_take, Nat.min_eq_left htracks.delivered_le]
        exact h.polled_le
      change (s.sub.world.subControl.reader.receive _ _).samples.map Sample.data
        = (s.control.take (s.controlDelivered + 1)).drop k
      rw [DataReader.receive, htracks.refines.history, List.take_add_one, hmsg,
        Option.toList_some, ← delivered, List.drop_append_of_le_length hlen, ← h.unread hrun]
      exact List.map_append
    all_goals simp only [Outcome.world_map]
    · exact h.started
    · exact h.waiting
    · exact h.measured
    · exact h.results
    · exact h.total

theorem Synced.deliverData (h : s.Synced c n first k a) (hdata : s.Streamed c n)
    (hhistory : c.history = .keepAll ∨ c.history = .keepLast 1)
    (hroom : s.data.length - first ≤ n) : s.deliverData.Synced c n first k a := by
  obtain ⟨first', hstocked, hfirst⟩ := h.stocked.deliverData hdata hhistory
  rw [Sys.deliverData] at hstocked ⊢
  cases hx : s.data[s.dataDelivered]? with
  | none => exact h
  | some x =>
    obtain ⟨hlt, -⟩ := List.getElem?_eq_some_iff.mp hx
    simp only [hx] at hstocked
    obtain rfl := hfirst (by have := h.stocked.first_le; omega)
    refine ⟨hstocked, h.polled_le, ?_, ?_, ?_, ?_, ?_, ?_⟩
    all_goals simp only [Outcome.world_map]
    · exact h.unread
    · exact h.started
    · exact h.waiting
    · exact h.measured
    · exact h.results
    · exact h.total

/-! ## The cycle of the subscriber -/

theorem Synced.running (h : s.Synced c n first k a) (htracks : s.Tracks c b)
    (hN : c.subConfig.testCount = N) (hlt : a.sent < N) :
    s.sub.world.exec.currentState = .EXECUTION := by
  have hlen : s.sub.world.measured.length = a.sent := by
    rw [← length_rounds a.sent, ← h.measured, List.length_map]
  rw [htracks.refines.running, htracks.maxTest, hN, hlen]
  refine if_neg fun hall ↦ ?_
  omega

/-- Everything delivered has been polled after a cycle. -/
theorem drop_delivered (s : Sys) : s.delivered.drop s.controlDelivered = [] := by
  rw [List.drop_eq_nil_iff, delivered, List.length_take]
  exact Nat.min_le_left _ _

variable {a' : Proto} {elapsed : ℚ}

/-- The cycle of a subscriber that has ended. -/
theorem Synced.ended (h : s.Synced c n first k a) (htracks : s.Tracks c b)
    (hrun : s.sub.world.exec.currentState ≠ .EXECUTION) (hactive : a.phase ≠ .streaming)
    (hphase : a'.phase ≠ .streaming) (hsent : a'.sent = a.sent) :
    (s.step (.subCycle elapsed)).Synced c n first s.controlDelivered a' := by
  rw [step_subCycle_of_ended htracks.sub hrun]
  refine ⟨h.stocked, le_refl _, fun hrun' ↦ absurd hrun' hrun, fun hp ↦ absurd hp hphase,
    fun _ ↦ h.waiting hactive, ?_, ?_, h.total⟩
  · rw [hsent]
    exact h.measured
  · rw [hsent]
    exact h.results

/-- Nothing to poll and no round active. -/
theorem Synced.idle (h : s.Synced c n first k a) (htracks : s.Tracks c b)
    (hnew : s.delivered.drop k = []) (hactive : a.phase ≠ .streaming)
    (hphase : a'.phase ≠ .streaming) (hsent : a'.sent = a.sent) :
    (s.step (.subCycle elapsed)).Synced c n first s.controlDelivered a' := by
  by_cases hrun : s.sub.world.exec.currentState = .EXECUTION
  · obtain ⟨t, ht, hcycles, -⟩ := htracks.subPass hrun elapsed
    have hunread := h.unread hrun
    rw [hnew, List.map_eq_nil_iff] at hunread
    cases hcycles with
    | adopt x hlast =>
      rw [hunread] at hlast
      exact absurd hlast (by simp)
    | measure t m hnil hactive' hn ht =>
      rw [h.waiting hactive] at hactive'
      exact absurd hactive' (by simp)
    | idle hnil hidle =>
      refine ⟨h.stocked.subCycle (by rw [ht]; rfl), le_refl _, fun _ ↦ ?_,
        fun hp ↦ absurd hp hphase, fun _ ↦ ?_, ?_, ?_, ?_⟩
      · rw [ht]
        exact (congrArg _ hunread).trans (drop_delivered s).symm
      all_goals rw [ht]
      · exact hidle
      · rw [hsent]
        exact h.measured
      · rw [hsent]
        exact h.results
      · exact h.total
  · exact h.ended htracks hrun hactive hphase hsent

/-- A message to poll. -/
theorem Synced.adopt (h : s.Synced c n first k a) (htracks : s.Tracks c b) {msg : TestControl}
    (hnew : s.delivered.drop k = [msg]) (hrun : s.sub.world.exec.currentState = .EXECUTION)
    (hstart : a'.phase = .streaming → msg.start = true ∧ msg.testId = a'.round + 1)
    (hstop : a'.phase ≠ .streaming → msg.start = false) (hsent : a'.sent = a.sent) :
    (s.step (.subCycle elapsed)).Synced c n first s.controlDelivered a' := by
  obtain ⟨t, ht, hcycles, -⟩ := htracks.subPass hrun elapsed
  have hunread := h.unread hrun
  rw [hnew] at hunread
  cases hcycles with
  | idle hnil =>
    rw [hnil] at hunread
    exact absurd hunread (by simp)
  | measure t m hnil =>
    rw [hnil] at hunread
    exact absurd hunread (by simp)
  | adopt x hlast =>
    obtain rfl : x.data = msg := by
      have hmap := congrArg List.getLast? hunread
      rw [List.getLast?_map, hlast] at hmap
      exact Option.some.inj hmap
    refine ⟨h.stocked.subCycle (by rw [ht]; rfl), le_refl _, fun _ ↦ ?_, ?_, ?_, ?_, ?_, ?_⟩
    · rw [ht]
      exact (drop_delivered s).symm
    all_goals rw [ht]
    · exact hstart
    · exact hstop
    · rw [hsent]
      exact h.measured
    · rw [hsent]
      exact h.results
    · exact h.total

/-- Nothing to poll, a round active, and its samples in the reader. -/
theorem Synced.measure (h : s.Synced c n first k a) (htracks : s.Tracks c b)
    (hcount : c.pubConfig.messageCount = n) (hnew : s.delivered.drop k = [])
    (hrun : s.sub.world.exec.currentState = .EXECUTION) (hactive : a.phase = .streaming)
    (hround : a.sent = a.round) (hsupply : s.dataDelivered - first = n)
    (hphase : a'.phase ≠ .streaming) (hsent : a'.sent = a.sent + 1) :
    (s.step (.subCycle elapsed)).Synced c n s.dataDelivered s.controlDelivered a' := by
  obtain ⟨hactive', hid⟩ := h.started hactive
  have hunread := h.unread hrun
  rw [hnew, List.map_eq_nil_iff] at hunread
  obtain ⟨t, m, hm⟩ := htracks.measuring hrun hunread hactive' elapsed
  obtain ⟨hmode, hexpected⟩ := htracks.settings hactive'
  have htakes : c.takes n n = n := (c.takes_eq_iff n n).mpr (by split_ifs <;> rfl)
  have hreceived : s.sub.world.received = n := by
    rw [h.stocked.received hmode (hexpected.trans hcount), hsupply, htakes]
  have hstocked := h.stocked.measure htracks hcount hm
  rw [hsupply, htakes, show first + n = s.dataDelivered by
    have := h.stocked.first_le; omega] at hstocked
  obtain rfl := hm.expected_eq htracks hcount
  refine ⟨hstocked, le_refl _, fun _ ↦ ?_, fun hp ↦ absurd hp hphase, fun _ ↦ ?_, ?_, ?_, ?_⟩
  · rw [hm.after]
    change t.subControl.reader.samples.map _ = _
    rw [hm.measured.subControl, hunread]
    exact (drop_delivered s).symm
  all_goals rw [hm.after, Outcome.world_ret]
  · exact hm.measured.testActive
  · change t.measured.map _ = _
    rw [hm.measured.measured, List.map_append, h.measured, hsent, rounds_succ, hround, ← hid]
    rfl
  · change t.testValidation.tests = _
    rw [hm.measured.testValidation, hreceived, if_pos rfl, hsent, List.replicate_succ', ← h.results]
    rfl
  · change t.totalLostSamples = 0
    rw [hm.measured.totalLostSamples, h.total, hreceived]
    omega

/-! ## Beats -/

/-- The cycle of the subscriber keeps up with a cycle of the protocol. -/
theorem Synced.follow {loan : Bool} (h : s.Synced c n first k a) (htracks : s.Tracks c b)
    (hcount : c.pubConfig.messageCount = n) (hN : c.subConfig.testCount = N)
    (hvalid : a.Valid N) (hmove : Proto.Move N a true a')
    (hround : a.sent = a.round + a.underway.countP Act.isData)
    (hnew : s.delivered.drop k = (a'.messages n loan).drop (a.messages n loan).length)
    (hfirst : first = n * a.sent) (hdata : s.dataDelivered = n * a'.sent) :
    (s.step (.subCycle elapsed)).Synced c n s.dataDelivered s.controlDelivered a' := by
  -- outside of the data step the reader stays as it was
  have hquiet : a'.sent = a.sent → s.dataDelivered = first := by
    intro hsent
    rw [hdata, hsent, hfirst]
  have hidle : a'.log = a.log → a.phase ≠ .streaming → a'.phase ≠ .streaming →
      (s.step (.subCycle elapsed)).Synced c n s.dataDelivered s.controlDelivered a' := by
    intro hlog hactive hphase
    have hsent : a'.sent = a.sent := by rw [Proto.sent, hlog, Proto.sent]
    rw [hquiet hsent]
    exact h.idle htracks (hnew.trans (Proto.drop_messages_of_log hlog)) hactive hphase hsent
  have hentry : ∀ t e, a'.log = a.log ++ [(t, e)] →
      s.delivered.drop k = (e.message n loan).toList ∧
        a'.sent = a.sent + if e.isData then 1 else 0 :=
    fun t e hlog ↦ ⟨hnew.trans (Proto.drop_messages_concat hlog), Proto.sent_concat hlog⟩
  cases hmove with
  | idle hp => exact hidle rfl (by simp [hp]) (by simp [hp])
  | warming hp => exact hidle rfl (by simp [hp]) (by simp)
  | drain hp => exact hidle rfl (by simp [hp]) (by simp)
  | cool hp => exact hidle rfl (by simp [hp]) (by simp)
  | start hp hw =>
    rw [Proto.underway_of_armed hp] at hround
    have hrun := h.running htracks hN (hround ▸ hp.round_lt hvalid)
    obtain ⟨hmsg, hsent⟩ := hentry a.time (.start (a.round + 1)) rfl
    rw [hquiet hsent]
    exact h.adopt htracks hmsg hrun (fun _ ↦ ⟨rfl, rfl⟩) (fun hp' ↦ absurd rfl hp') hsent
  | data hp =>
    rw [Proto.underway, hp] at hround
    rw [Proto.Valid, hp] at hvalid
    have hrun := h.running htracks hN (hround ▸ hvalid.1)
    obtain ⟨hmsg, hsent⟩ := hentry a.time (.data (a.round + 1)) rfl
    have hsupply : s.dataDelivered - first = n := by
      rw [hdata, hsent, hfirst]
      change n * (a.sent + 1) - n * a.sent = n
      rw [Nat.mul_succ, Nat.add_sub_cancel_left]
    exact h.measure htracks hcount hmsg hrun hp hround hsupply (by simp) hsent
  | stop hp =>
    have hactive : a.phase ≠ .streaming := by simp [hp]
    obtain ⟨hmsg, hsent⟩ := hentry a.time (.stop (a.round + 1)) rfl
    rw [hquiet hsent]
    have hphase : (if N ≤ a.round + 1 then Phase.finished else .cooling 0) ≠ .streaming := by
      split_ifs <;> simp
    by_cases hrun : s.sub.world.exec.currentState = .EXECUTION
    · exact h.adopt htracks hmsg hrun (fun hp' ↦ absurd hp' hphase) (fun _ ↦ rfl) hsent
    · exact h.ended htracks hrun hactive hphase hsent

end Sys

/-- A delivery, on either topic. -/
def Label.isDelivery : Label → Bool
  | .deliverControl => true
  | .deliverData => true
  | _ => false

def Label.isSubCycle : Label → Bool
  | .subCycle _ => true
  | _ => false

namespace Sys

/-- A cycle of the publisher, deliveries, and a cycle of the subscriber. -/
structure Beat where
  io : PubAnswers := {}
  deliveries : List Label := []
  elapsed : ℚ := 0

namespace Beat

def labels (beat : Beat) : List Label :=
  .pubCycle beat.io :: (beat.deliveries ++ [.subCycle beat.elapsed])

/-- Both endpoints are matched, no call fails, and nothing but deliveries happens in between. -/
structure Perfect (beat : Beat) : Prop where
  matched : beat.io.matched = true
  succeeds : beat.io.Succeeds
  deliveries : ∀ l ∈ beat.deliveries, l.isDelivery = true

end Beat

/-- A cycle of the subscriber finds everything delivered. -/
def Flushed (s : Sys) (l : Label) : Prop :=
  l.isSubCycle = true → s.controlDelivered = s.control.length ∧ s.dataDelivered = s.data.length

instance (s : Sys) (l : Label) : Decidable (s.Flushed l) := inferInstanceAs (Decidable (_ → _))

@[simp] theorem pubAnswers_append (ls ls' : List Label) :
    pubAnswers (ls ++ ls') = pubAnswers ls ++ pubAnswers ls' := List.filterMap_append

theorem pubAnswers_deliveries {ds : List Label} (h : ∀ l ∈ ds, l.isDelivery = true) :
    pubAnswers ds = [] := by
  rw [pubAnswers, List.filterMap_eq_nil_iff]
  intro l hl
  have hdelivery := h l hl
  cases l with
  | deliverControl => rfl
  | deliverData => rfl
  | _ => exact absurd hdelivery (by simp [Label.isDelivery])

theorem pubAnswers_beat {beat : Beat} (h : beat.Perfect) : pubAnswers beat.labels = [beat.io] := by
  have hds := pubAnswers_deliveries h.deliveries
  change beat.io :: pubAnswers (beat.deliveries ++ [.subCycle beat.elapsed]) = [beat.io]
  rw [pubAnswers_append, hds]
  rfl

/-- The deliveries of a beat do not disturb the subscriber. -/
theorem Synced.deliveries {ds : List Label} (h : (runOf c ls).Synced c n first k a)
    (hruns : c.Runs N n) (hok : ∀ io ∈ pubAnswers ls, io.Succeeds)
    (hroom : (runOf c ls).data.length - first ≤ n) (hds : ∀ l ∈ ds, l.isDelivery = true) :
    (runOf c (ls ++ ds)).Synced c n first k a := by
  induction ds using List.reverseRecOn with
  | nil =>
    rw [List.append_nil]
    exact h
  | append_singleton ds l ih =>
    have hbefore : ∀ l ∈ ds, l.isDelivery = true := fun l hl ↦ hds l (List.mem_append_left _ hl)
    have hlast := hds l (List.mem_append_right _ (List.mem_singleton_self l))
    have hanswers : pubAnswers (ls ++ ds) = pubAnswers ls := by
      rw [pubAnswers_append, pubAnswers_deliveries hbefore, List.append_nil]
    have hsynced := ih hbefore
    rw [← List.append_assoc, runOf_concat]
    cases l with
    | deliverControl => exact hsynced.deliverControl (tracks_run c (ls ++ ds))
    | deliverData =>
      refine hsynced.deliverData (streamed_run hruns (hanswers ▸ hok)) hruns.history ?_
      have hdata : (runOf c (ls ++ ds)).data = (runOf c ls).data := by
        rw [data, pub_run, hanswers, data, pub_run]
      rwa [hdata]
    | _ => exact absurd hlast (by simp [Label.isDelivery])

section Arrivals

variable {io : PubAnswers} {ds : List Label}

theorem pubAnswers_arrivals (hds : ∀ l ∈ ds, l.isDelivery = true) :
    pubAnswers (ls ++ [.pubCycle io] ++ ds) = pubAnswers ls ++ [io] := by
  rw [pubAnswers_append, pubAnswers_append, pubAnswers_deliveries hds, List.append_nil]
  rfl

theorem succeeds_arrivals (hok : ∀ io ∈ pubAnswers ls, io.Succeeds) (hio : io.Succeeds)
    (hds : ∀ l ∈ ds, l.isDelivery = true) :
    ∀ io' ∈ pubAnswers (ls ++ [.pubCycle io] ++ ds), io'.Succeeds := by
  intro io' hmem
  rw [pubAnswers_arrivals hds, List.mem_append, List.mem_singleton] at hmem
  rcases hmem with hmem | rfl
  · exact hok io' hmem
  · exact hio

theorem protocol_arrivals (hm : io.matched = true) (hds : ∀ l ∈ ds, l.isDelivery = true) :
    protocol N (ls ++ [.pubCycle io] ++ ds) = (protocol N ls).step N true := by
  rw [protocol, pubAnswers_arrivals hds, List.map_append, List.map_singleton, hm, run_concat,
    protocol]

/-- The cycle of the publisher and what arrives after it. -/
theorem Rest.arrivals (h : (runOf c ls).Rest c n (protocol N ls)) (hruns : c.Runs N n)
    (hok : ∀ io ∈ pubAnswers ls, io.Succeeds) (hm : io.matched = true) (hio : io.Succeeds)
    (hds : ∀ l ∈ ds, l.isDelivery = true) :
    (runOf c (ls ++ [.pubCycle io] ++ ds)).Synced c n (runOf c ls).dataDelivered
      (runOf c ls).controlDelivered (protocol N ls) := by
  have hcycle : (runOf c (ls ++ [.pubCycle io])).Synced c n (runOf c ls).dataDelivered
      (runOf c ls).controlDelivered (protocol N ls) := by
    rw [runOf_concat]
    exact h.synced.pubCycle (tracks_run c ls) io
  have hnone : ∀ l ∈ ([] : List Label), l.isDelivery = true := (by simp)
  have hok' := succeeds_arrivals hok hio hnone
  have hprotocol : protocol N (ls ++ [.pubCycle io] ++ []) = _ := protocol_arrivals hm hnone
  rw [List.append_nil] at hok' hprotocol
  refine hcycle.deliveries hruns hok' ?_ hds
  -- at most one round has been sent since
  have hsent := (Proto.step_move (Proto.valid_run hruns.rounds_pos
    ((pubAnswers ls).map PubAnswers.matched)) true).sent_le
  rw [length_data_run hruns hok', hprotocol, h.data, length_data_run hruns hok]
  calc n * ((protocol N ls).step N true).sent - n * (protocol N ls).sent
      ≤ n * ((protocol N ls).sent + 1) - n * (protocol N ls).sent :=
        Nat.sub_le_sub_right (Nat.mul_le_mul_left n hsent) _
    _ = n := by rw [Nat.mul_succ, Nat.add_sub_cancel_left]

end Arrivals

theorem Beat.labels_split (beat : Beat) (ls : List Label) : ls ++ beat.labels
    = ls ++ [.pubCycle beat.io] ++ beat.deliveries ++ [.subCycle beat.elapsed] := by
  simp [Beat.labels]

theorem protocol_beat {beat : Beat} (h : beat.Perfect) :
    protocol N (ls ++ beat.labels) = (protocol N ls).step N true := by
  rw [protocol, pubAnswers_append, pubAnswers_beat h, List.map_append, List.map_singleton,
    h.matched, run_concat, protocol]

/-- **A beat** leads from rest to rest. -/
theorem Rest.beat (h : (runOf c ls).Rest c n (protocol N ls)) (hruns : c.Runs N n)
    (hN : c.subConfig.testCount = N) (hok : ∀ io ∈ pubAnswers ls, io.Succeeds) {beat : Beat}
    (hbeat : beat.Perfect) (hflushed : Along step Flushed (runOf c ls) beat.labels) :
    (runOf c (ls ++ beat.labels)).Rest c n (protocol N (ls ++ beat.labels)) := by
  have hsynced := h.arrivals hruns hok hbeat.matched hbeat.succeeds hbeat.deliveries
  have hok' := succeeds_arrivals hok hbeat.succeeds hbeat.deliveries
  have hprotocol : protocol N (ls ++ [.pubCycle beat.io] ++ beat.deliveries) = _ :=
    protocol_arrivals hbeat.matched hbeat.deliveries
  have hcontrol := control_run hruns hok'
  have hdata := length_data_run hruns hok'
  have htracks := tracks_run c (ls ++ [.pubCycle beat.io] ++ beat.deliveries)
  rw [hprotocol] at hcontrol hdata
  obtain ⟨hcontrolAll, hdataAll⟩ :=
    along_iff.mp hflushed (.pubCycle beat.io :: beat.deliveries) (.subCycle beat.elapsed) [] rfl rfl
  rw [← runOf_append, List.append_cons] at hcontrolAll hdataAll
  rw [protocol_beat hbeat, beat.labels_split ls, runOf_concat]
  have hnew : (runOf c (ls ++ [.pubCycle beat.io] ++ beat.deliveries)).delivered.drop
        (runOf c ls).controlDelivered
      = (((protocol N ls).step N true).messages n c.pubConfig.loanMode).drop
        ((protocol N ls).messages n c.pubConfig.loanMode).length := by
    rw [delivered, hcontrolAll, List.take_length, hcontrol, h.control, control_run hruns hok]
  have hfirst : (runOf c ls).dataDelivered = n * (protocol N ls).sent := by
    rw [h.data, length_data_run hruns hok]
  exact ⟨hsynced.follow htracks hruns.messageCount hN (Proto.valid_run hruns.rounds_pos _)
    (Proto.step_move (Proto.valid_run hruns.rounds_pos _) true)
    (Proto.countP_log_run hruns.rounds_pos _) hnew hfirst (hdataAll.trans hdata),
    hcontrolAll, hdataAll⟩

/-! ## Runs -/

theorem rest_start (h : c.Runs N n) : (runOf c []).Rest c n (protocol N []) := by
  have hstocked : (start c).Stocked c n 0 :=
    ⟨rfl, le_refl 0, Nat.zero_le _, rfl, fun _ _ ↦ Nat.zero_le n⟩
  have hok : ∀ io ∈ pubAnswers [], io.Succeeds := fun _ hio ↦ absurd hio List.not_mem_nil
  refine ⟨⟨hstocked, le_refl 0, fun _ ↦ rfl, by simp, fun _ ↦ rfl, rfl, rfl, rfl⟩, ?_, ?_⟩
  · rw [control_run h hok]
    rfl
  · rw [length_data_run h hok]
    rfl

/-- Before the first beat a cycle of the subscriber finds nothing. -/
theorem rest_subCycle (h : c.Runs N n) (elapsed : ℚ) :
    (runOf c [.subCycle elapsed]).Rest c n (protocol N [.subCycle elapsed]) := by
  have hrest := rest_start h
  exact ⟨hrest.synced.idle (tracks_start c) rfl (by simp) (by simp) rfl, hrest.control, hrest.data⟩

/-- The steps of a sequence of beats. -/
def beatLabels (beats : List Beat) : List Label := beats.flatMap Beat.labels

@[simp] theorem beatLabels_cons (beat : Beat) (beats : List Beat) :
    beatLabels (beat :: beats) = beat.labels ++ beatLabels beats := rfl

theorem pubAnswers_beats {beats : List Beat} (h : ∀ beat ∈ beats, beat.Perfect) :
    pubAnswers (beatLabels beats) = beats.map Beat.io := by
  induction beats with
  | nil => rfl
  | cons beat beats ih =>
    obtain ⟨hbeat, hbeats⟩ := List.forall_mem_cons.mp h
    rw [beatLabels_cons, pubAnswers_append, pubAnswers_beat hbeat, ih hbeats]
    rfl

theorem succeeds_beats {beats : List Beat} (hok : ∀ io ∈ pubAnswers ls, io.Succeeds)
    (h : ∀ beat ∈ beats, beat.Perfect) :
    ∀ io ∈ pubAnswers (ls ++ beatLabels beats), io.Succeeds := by
  intro io hio
  rw [pubAnswers_append, pubAnswers_beats h, List.mem_append, List.mem_map] at hio
  obtain hio | ⟨beat, hbeat, rfl⟩ := hio
  · exact hok io hio
  · exact (h beat hbeat).succeeds

theorem Rest.beats {beats : List Beat} (h : (runOf c ls).Rest c n (protocol N ls))
    (hruns : c.Runs N n) (hN : c.subConfig.testCount = N) (hok : ∀ io ∈ pubAnswers ls, io.Succeeds)
    (hbeats : ∀ beat ∈ beats, beat.Perfect)
    (hflushed : Along step Flushed (runOf c ls) (beatLabels beats)) :
    (runOf c (ls ++ beatLabels beats)).Rest c n (protocol N (ls ++ beatLabels beats)) := by
  induction beats generalizing ls with
  | nil =>
    rw [beatLabels, List.flatMap_nil, List.append_nil]
    exact h
  | cons beat beats ih =>
    obtain ⟨hbeat, hrest⟩ := List.forall_mem_cons.mp hbeats
    rw [beatLabels_cons, along_append, ← runOf_append] at hflushed
    have hok' : ∀ io ∈ pubAnswers (ls ++ beat.labels), io.Succeeds := by
      rw [← List.append_nil beat.labels]
      exact succeeds_beats hok (List.forall_mem_singleton.mpr hbeat)
    rw [beatLabels_cons, ← List.append_assoc]
    exact ih (h.beat hruns hN hok hbeat hflushed.1) hok' hrest hflushed.2

/-! ## The report -/

/-- Both tests have ended, and every round of the report is valid. -/
structure PerfectReport (N : ℕ) (s : Sys) : Prop where
  publisher : ∃ p, s.pub = .ret p ∧ p.exec.currentState = .END
  subscriber : s.sub.world.exec.currentState = .END
  measured : s.sub.world.measured.map Measurement.testId = rounds N
  results : s.sub.world.testValidation.tests = List.replicate N .VALID
  total : s.sub.world.totalLostSamples = 0

theorem Rest.perfectReport (h : (runOf c ls).Rest c n (protocol N ls)) (hruns : c.Runs N n)
    (hN : c.subConfig.testCount = N) (hok : ∀ io ∈ pubAnswers ls, io.Succeeds)
    (hphase : (protocol N ls).phase = .finished) : (runOf c ls).PerfectReport N := by
  have hsent : (protocol N ls).sent = N := by
    have hvalid := Proto.valid_run hruns.rounds_pos ((pubAnswers ls).map PubAnswers.matched)
    have hcount := Proto.countP_log_run hruns.rounds_pos ((pubAnswers ls).map PubAnswers.matched)
    rw [← protocol] at hvalid hcount
    rw [Proto.Valid, hphase] at hvalid
    rw [Proto.underway, hphase] at hcount
    exact hcount.trans hvalid
  obtain ⟨p, hp, hfollows⟩ := follows_run hruns hok
  obtain ⟨-, -, -, -, -, hmeasured, hresults, htotal⟩ := h.synced
  rw [hsent] at hmeasured hresults
  have hcomplete := (tracks_run c ls).complete_of_measured hruns.rounds_pos hN hmeasured
  refine ⟨⟨p, hp, ?_⟩, hcomplete.ended, hmeasured, hresults, htotal⟩
  rw [hfollows.running, if_pos hphase]

/-- The protocol needs as many cycles as the claimed length of the run, when none is blocked. -/
theorem protocol_finished {beats : List Beat} (hN : 1 ≤ N) (hlen : beats.length = 13 * N + 45)
    (hbeats : ∀ beat ∈ beats, beat.Perfect) (hnone : pubAnswers ls = []) :
    (protocol N (ls ++ beatLabels beats)).phase = .finished := by
  rw [protocol, pubAnswers_append, hnone, pubAnswers_beats hbeats, List.nil_append]
  have hblocked : ((beats.map Beat.io).map PubAnswers.matched).countP (!·) = 0 := by
    rw [List.countP_eq_zero]
    intro m hm
    rw [List.map_map, List.mem_map] at hm
    obtain ⟨beat, hbeat, rfl⟩ := hm
    rw [Function.comp_apply, (hbeats beat hbeat).matched]
    exact Bool.false_ne_true
  refine Proto.finished_of_length hN ?_
  rw [hblocked, List.length_map, List.length_map, hlen, add_zero]

/-- Once it has ended, the subscriber adds nothing to its report. -/
theorem PerfectReport.subCycle (h : (runOf c ls).PerfectReport N) (elapsed : ℚ) :
    (runOf c (ls ++ [.subCycle elapsed])).PerfectReport N := by
  have hrun : (runOf c ls).sub.world.exec.currentState ≠ .EXECUTION := by
    rw [h.subscriber]
    simp
  rw [runOf_concat, step_subCycle_of_ended (tracks_run c ls).sub hrun]
  exact h

/-- **A perfect channel gives a perfect report**, whichever side makes the first cycle. -/
theorem lockstep_perfect (c : Setup) (N n : ℕ) (h : c.Runs N n) (hN : c.subConfig.testCount = N)
    (beats : List Beat) (hlen : beats.length = 13 * N + 45)
    (hbeats : ∀ beat ∈ beats, beat.Perfect) (elapsed : ℚ) :
    (Along step Flushed (start c) (beatLabels beats ++ [.subCycle elapsed]) →
      (runOf c (beatLabels beats ++ [.subCycle elapsed])).PerfectReport N) ∧
    (Along step Flushed (start c) (.subCycle elapsed :: beatLabels beats) →
      (runOf c (.subCycle elapsed :: beatLabels beats)).PerfectReport N) := by
  have hok : ∀ ls : List Label, pubAnswers ls = [] → ∀ io ∈ pubAnswers ls, io.Succeeds := by
    intro ls hls
    rw [hls]
    simp
  constructor
  · intro hflushed
    obtain ⟨hflushed, -⟩ := along_concat.mp hflushed
    have hrest := (rest_start h).beats h hN (hok [] rfl) hbeats hflushed
    exact (hrest.perfectReport h hN (succeeds_beats (hok [] rfl) hbeats)
      (protocol_finished h.rounds_pos hlen hbeats rfl)).subCycle elapsed
  · intro hflushed
    have hrest := (rest_subCycle h elapsed).beats h hN (hok _ rfl) hbeats hflushed.2
    exact hrest.perfectReport h hN (succeeds_beats (hok _ rfl) hbeats)
      (protocol_finished h.rounds_pos hlen hbeats rfl)

/-- A beat in which a control message and a sample arrive, if there are any. -/
def oneBeat : Beat where
  deliveries := [.deliverControl, .deliverData]

theorem perfect_oneBeat : oneBeat.Perfect :=
  ⟨rfl, PubAnswers.succeeds_default true true 0, by decide⟩

/-- One round of one sample. -/
theorem oneRound_perfect :
    (runOf oneRound (beatLabels (List.replicate 58 oneBeat) ++ [.subCycle 0])).PerfectReport 1 :=
  (lockstep_perfect oneRound 1 1 oneRound_runs rfl (List.replicate 58 oneBeat) rfl
    (fun beat hbeat ↦ (List.eq_of_mem_replicate hbeat).symm ▸ perfect_oneBeat) 0).1
    (by decide +kernel)

end Sys

end IndraDds
