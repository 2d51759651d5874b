import IndraDds.System.Rounds

/-!
# What the subscriber counts

The composition, seen through the data topic, when no call fails. The samples sent are a segment
of the numbered stream of the publisher, and the data reader holds the last ones delivered,
`Stocked`: a full reader of depth one drops its oldest sample, and a measurement takes samples from
the front.

A measurement looks only at how many samples the reader holds. So a round is reported valid
exactly when there are enough of them at that moment, whenever its own samples arrive; and since
nothing empties the reader but a drain, samples that arrive late for one round are counted for a
later one.
-/

namespace IndraDds

open Transition Window

/-- The mode of a composition. -/
def Sys.Setup.mode (c : Sys.Setup) : ProcessType := ProcessType.ofLoan c.pubConfig.loanMode

/-- Sample number `i` of a run, as its reader sees it. -/
def receivedAt (mode : ProcessType) (n i : ℕ) : Sample AirEntity :=
  { data := (sampleAt mode n i).2, info := { sequenceNumber := i } }

/-! ## Counting a segment -/

theorem validIds_segment (mode : ProcessType) (n first len : ℕ) :
    validIds (segment (receivedAt mode n) first len)
      = (segment (sampleAt mode n) first len).map fun x ↦ x.2.id := by
  rw [validIds, List.filter_eq_self.mpr, Window.segment, List.map_map, Window.segment, List.map_map]
  · rfl
  · intro x hx
    obtain ⟨i, -, -, rfl⟩ := mem_segment.mp hx
    rfl

/-- Of a segment every sample counts, in the normal mode up to a period. -/
theorem card_validIds_segment {mode : ProcessType} {n first len : ℕ}
    (hlen : mode = .Normal → len ≤ n) :
    (validIds (segment (receivedAt mode n) first len)).toFinset.card = len := by
  rw [validIds_segment, List.toFinset_card_of_nodup, List.length_map, length_segment]
  cases mode with
  | Normal =>
    refine nodup_map_segment (n := n) (fun i j h ↦ ?_) (hlen rfl)
    exact Int.ofNat_inj.mp h
  | Loan =>
    -- distinct numbers are distinct modulo a number beyond them all
    refine nodup_map_segment (n := len) (fun i j h ↦ ?_) (le_refl _)
    rw [Int.ofNat_inj.mp h]

namespace Sys

/-! ## What the reader holds -/

variable {c : Setup} {n first : ℕ} {s : Sys} {b : Mailbox.Box TestControl ℤ}

/-- The samples sent are a segment of the stream. -/
def Streamed (c : Setup) (n : ℕ) (s : Sys) : Prop :=
  ∃ r, s.data = segment (sampleAt c.mode n) 0 (n * r)

theorem Streamed.eq_sampleAt (h : s.Streamed c n) {i : ℕ} {x : ℤ × AirEntity}
    (hx : s.data[i]? = some x) : x = sampleAt c.mode n i := by
  obtain ⟨r, hr⟩ := h
  obtain ⟨hlt, -⟩ := List.getElem?_eq_some_iff.mp hx
  rw [hr, length_segment] at hlt
  rw [hr, getElem?_segment hlt, Nat.zero_add] at hx
  exact (Option.some.inj hx).symm

/-- A test without samples sends none. -/
theorem Streamed.pos (h : s.Streamed c n) {i : ℕ} {x : ℤ × AirEntity} (hx : s.data[i]? = some x) :
    0 < n := by
  obtain ⟨r, hr⟩ := h
  obtain ⟨hlt, -⟩ := List.getElem?_eq_some_iff.mp hx
  rw [hr, length_segment] at hlt
  exact Nat.pos_of_mul_pos_right (Nat.zero_lt_of_lt hlt)

/-- The data reader holds the samples from number `first` to the last one delivered. -/
structure Stocked (c : Setup) (n first : ℕ) (s : Sys) : Prop where
  samples : s.sub.world.sub.reader.samples
    = segment (receivedAt c.mode n) first (s.dataDelivered - first)
  first_le : first ≤ s.dataDelivered
  delivered_le : s.dataDelivered ≤ s.data.length
  history : s.sub.world.sub.reader.history = c.history
  short : c.mode = .Normal → c.history = .keepLast 1 → s.dataDelivered - first ≤ n

/-- How many samples a measurement takes from a reader that holds `len`. -/
def Setup.takes (c : Setup) (n len : ℕ) : ℕ := if c.mode = .Loan then len else min n len

theorem Setup.takes_le (c : Setup) (n len : ℕ) : c.takes n len ≤ len := by
  rw [takes]
  split_ifs
  · exact le_refl _
  · exact min_le_right _ _

theorem Setup.mode_cases (c : Setup) : c.mode = .Normal ∨ c.mode = .Loan := by
  cases c.mode <;> simp

/-- An active subscriber runs in the mode of the publisher and expects its count. -/
theorem Tracks.settings (h : s.Tracks c b) (hactive : s.sub.world.testActive = true) :
    s.sub.world.processType = c.mode ∧
      s.sub.world.sub.expectedMessagesCycle = c.pubConfig.messageCount := by
  obtain ⟨msg, hmsg, hsets⟩ := h.refines.adopted hactive
  rw [h.messages] at hmsg
  obtain ⟨hcount, hloan⟩ := h.announces.settings msg (List.mem_of_mem_take hmsg) hsets.start
  rw [hsets.mode, hsets.expected, hcount, hloan]
  exact ⟨rfl, rfl⟩

/-- What a measurement takes, and what it leaves. -/
theorem Stocked.drain (h : s.Stocked c n first) (hmode : s.sub.world.processType = c.mode)
    (hn : s.sub.world.sub.expectedMessagesCycle = n) :
    s.sub.world.counted
        = segment (receivedAt c.mode n) first (c.takes n (s.dataDelivered - first)) ∧
      s.sub.world.uncounted
        = segment (receivedAt c.mode n) (first + c.takes n (s.dataDelivered - first))
          (s.dataDelivered - (first + c.takes n (s.dataDelivered - first))) := by
  rw [SubTest.counted, SubTest.uncounted, hmode, hn, toSizeT_natCast, h.samples, Setup.takes]
  obtain hm | hm := c.mode_cases
  · rw [hm, take_segment, drop_segment]
    refine ⟨rfl, ?_⟩
    rw [if_neg (by simp)]
    rcases Nat.le_total n (s.dataDelivered - first) with hle | hle
    · rw [min_eq_left hle, Nat.sub_sub]
    · rw [min_eq_right hle, Nat.sub_eq_zero_of_le hle, Nat.add_sub_of_le h.first_le, Nat.sub_self]
      rfl
  · rw [hm, if_pos rfl, Nat.add_sub_of_le h.first_le, Nat.sub_self]
    exact ⟨rfl, rfl⟩

theorem Stocked.received (h : s.Stocked c n first) (hmode : s.sub.world.processType = c.mode)
    (hn : s.sub.world.sub.expectedMessagesCycle = n) :
    s.sub.world.received = c.takes n (s.dataDelivered - first) := by
  rw [SubTest.received, (h.drain hmode hn).1]
  refine card_validIds_segment fun hm ↦ ?_
  rw [Setup.takes, hm, if_neg (by simp)]
  exact min_le_left _ _

/-! ## The steps -/

theorem Stocked.pubCycle (h : s.Stocked c n first) (io : PubAnswers) :
    (s.step (.pubCycle io)).Stocked c n first := by
  have hprefix : s.data <+: (s.step (.pubCycle io)).data :=
    (PubTest.pass_log_prefix s.pub io).flatMap _
  exact ⟨h.samples, h.first_le, h.delivered_le.trans hprefix.length_le, h.history, h.short⟩

/-- The next sample is stored behind the others, and pushes out the first when a round is full. -/
theorem Stocked.store (h : s.Stocked c n first) (hn : 0 < n)
    (hhistory : c.history = .keepAll ∨ c.history = .keepLast 1) :
    ∃ first', c.history.store (fun x : Sample AirEntity ↦ x.data.id)
        s.sub.world.sub.reader.samples (receivedAt c.mode n s.dataDelivered)
          = segment (receivedAt c.mode n) first' (s.dataDelivered + 1 - first') ∧
      first' ≤ s.dataDelivered + 1 ∧
      (c.mode = .Normal → c.history = .keepLast 1 → s.dataDelivered + 1 - first' ≤ n) ∧
      (s.dataDelivered - first < n → first' = first) := by
  obtain ⟨len, hlen⟩ : ∃ len, s.dataDelivered = first + len :=
    ⟨_, (Nat.add_sub_of_le h.first_le).symm⟩
  have hshort := h.short
  rw [h.samples, hlen, Nat.add_sub_cancel_left] at *
  -- where nothing is pushed out, the segment grows by one
  have happend : segment (receivedAt c.mode n) first len ++ [receivedAt c.mode n (first + len)]
      = segment (receivedAt c.mode n) first (first + len + 1 - first) := by
    rw [← segment_concat]
    congr 1
    omega
  obtain hm | hm := c.mode_cases
  · obtain hh | hh := hhistory
    · refine ⟨first, ?_, by omega, fun _ hlast ↦ ?_, fun _ ↦ rfl⟩
      · rw [hh]
        exact happend
      · rw [hh] at hlast
        exact absurd hlast (by simp)
    · rw [hh, hm]
      obtain ⟨first', hstore, hle, hshort', hroom⟩ := store_segment_of_periodic
        (f := receivedAt .Normal n) (fun x ↦ x.data.id) (a := first)
        (fun i j ↦ Int.ofNat_inj) hn (hshort hm hh)
      exact ⟨first', hstore, hle, fun _ _ ↦ hshort', hroom⟩
  · refine ⟨first, ?_, by omega, fun hm' ↦ ?_, fun _ ↦ rfl⟩
    · rw [hm] at happend ⊢
      rw [← happend, ← segment_concat]
      exact store_segment_of_injective (f := receivedAt .Loan n) (fun x ↦ x.data.id)
        (fun i j ↦ Int.ofNat_inj.mp) hhistory
    · rw [hm] at hm'
      exact absurd hm' (by simp)

theorem Stocked.deliverData (h : s.Stocked c n first) (hdata : s.Streamed c n)
    (hhistory : c.history = .keepAll ∨ c.history = .keepLast 1) :
    ∃ first', s.deliverData.Stocked c n first' ∧
      (s.dataDelivered - first < n → first' = first) := by
  rw [Sys.deliverData]
  cases hx : s.data[s.dataDelivered]? with
  | none => exact ⟨first, h, fun _ ↦ rfl⟩
  | some x =>
    obtain ⟨hlt, -⟩ := List.getElem?_eq_some_iff.mp hx
    obtain rfl := hdata.eq_sampleAt hx
    obtain ⟨first', hstore, hle, hshort, hroom⟩ := h.store (hdata.pos hx) hhistory
    refine ⟨first', ⟨?_, hle, hlt, ?_, hshort⟩, hroom⟩
    · rw [Outcome.world_map, ← hstore, ← h.history]
      rfl
    · rw [Outcome.world_map]
      exact h.history

theorem Stocked.deliverControl (h : s.Stocked c n first) : s.deliverControl.Stocked c n first := by
  rw [Sys.deliverControl]
  cases s.control[s.controlDelivered]? with
  | none => exact h
  | some msg =>
    refine ⟨?_, h.first_le, h.delivered_le, ?_, h.short⟩
    · rw [Outcome.world_map]
      exact h.samples
    · rw [Outcome.world_map]
      exact h.history

/-- A cycle of the subscriber that does not drain. -/
theorem Stocked.subCycle (h : s.Stocked c n first) {elapsed : ℚ}
    (hreader : (s.step (.subCycle elapsed)).sub.world.sub.reader = s.sub.world.sub.reader) :
    (s.step (.subCycle elapsed)).Stocked c n first := by
  refine ⟨?_, h.first_le, h.delivered_le, ?_, h.short⟩
  · rw [hreader]
    exact h.samples
  · rw [hreader]
    exact h.history

theorem Stocked.measure (h : s.Stocked c n first) (htracks : s.Tracks c b)
    (hcount : c.pubConfig.messageCount = n) {l : Label} {t : FastSubTest} {m : ℕ}
    (hm : s.Measuring l t m) :
    (s.step l).Stocked c n (first + c.takes n (s.dataDelivered - first)) := by
  obtain ⟨hmode, hexpected⟩ := htracks.settings hm.active
  obtain ⟨-, hrest⟩ := h.drain hmode (hexpected.trans hcount)
  obtain ⟨elapsed, rfl⟩ := hm.cycle
  have htakes := c.takes_le n (s.dataDelivered - first)
  have hfirst := h.first_le
  refine ⟨?_, ?_, h.delivered_le, ?_, fun hnormal hlast ↦ ?_⟩
  · rw [hm.after]
    exact (congrArg DataReader.samples hm.measured.reader).trans hrest
  · change _ ≤ s.dataDelivered
    omega
  · rw [hm.after]
    exact (congrArg DataReader.history hm.measured.reader).trans h.history
  · change s.dataDelivered - _ ≤ n
    have := h.short hnormal hlast
    omega

theorem Stocked.step (h : s.Stocked c n first) (htracks : s.Tracks c b) (hdata : s.Streamed c n)
    (hcount : c.pubConfig.messageCount = n)
    (hhistory : c.history = .keepAll ∨ c.history = .keepLast 1) (l : Label) :
    ∃ first', (s.step l).Stocked c n first' := by
  cases l with
  | pubCycle io => exact ⟨first, h.pubCycle io⟩
  | deliverData =>
    obtain ⟨first', hfirst', -⟩ := h.deliverData hdata hhistory
    exact ⟨first', hfirst'⟩
  | deliverControl => exact ⟨first, h.deliverControl⟩
  | subCycle elapsed =>
    obtain ⟨-, hreader⟩ | ⟨t, m, hm⟩ := htracks.cycle_effect elapsed
    · exact ⟨first, h.subCycle hreader⟩
    · exact ⟨_, h.measure htracks hcount hm⟩

end Sys

/-! ## Runs without failures -/

namespace Sys

/-- What the runs without failures are about: a test of `N` rounds of `n` samples, and a data reader
that keeps everything or the newest sample of each key. -/
structure Setup.Runs (c : Setup) (N n : ℕ) : Prop where
  rounds_pos : 1 ≤ N
  testCount : c.pubConfig.testCount = N
  messageCount : c.pubConfig.messageCount = n
  history : c.history = .keepAll ∨ c.history = .keepLast 1

variable {c : Setup} {N n : ℕ} {ls : List Label}

/-- What no failure in a schedule says about a part of it. -/
theorem succeeds_of_append {ls ls' : List Label}
    (hok : ∀ io ∈ pubAnswers (ls ++ ls'), io.Succeeds) : ∀ io ∈ pubAnswers ls, io.Succeeds := by
  intro io hio
  rw [pubAnswers, List.filterMap_append] at hok
  exact hok io (List.mem_append_left _ hio)

theorem streamed_run (h : c.Runs N n) (hok : ∀ io ∈ pubAnswers ls, io.Succeeds) :
    (runOf c ls).Streamed c n := by
  rw [Streamed, data, pub_run]
  exact ⟨_, (PubTest.run_streams h.rounds_pos h.testCount h.messageCount hok).published⟩

theorem stocked_run (h : c.Runs N n) (hok : ∀ io ∈ pubAnswers ls, io.Succeeds) :
    ∃ first, (runOf c ls).Stocked c n first := by
  induction ls using List.reverseRecOn with
  | nil => exact ⟨0, rfl, le_refl 0, Nat.zero_le _, rfl, fun _ _ ↦ Nat.zero_le n⟩
  | append_singleton ls l ih =>
    have hbefore := succeeds_of_append hok
    obtain ⟨first, hfirst⟩ := ih hbefore
    rw [runOf_concat]
    exact hfirst.step (tracks_run c ls) (streamed_run h hbefore) h.messageCount h.history l

/-! ## False losses -/

/-- No round has been reported with a loss. -/
structure NoLoss (s : Sys) : Prop where
  valid : ∀ r ∈ s.sub.world.testValidation.tests, r = .VALID
  lost : ∀ m ∈ s.sub.world.measured, m.lostSamples = 0
  total : s.sub.world.totalLostSamples = 0

theorem noLoss_iff_lists (s : Sys) : s.NoLoss ↔
    (∀ r ∈ s.sub.world.testValidation.tests, r = .VALID) ∧
      (∀ i ∈ s.sub.world.measured.map Measurement.lostSamples, i = 0) ∧
        s.sub.world.totalLostSamples = 0 := by
  rw [List.forall_mem_map]
  exact ⟨fun h ↦ ⟨h.valid, h.lost, h.total⟩, fun h ↦ ⟨h.1, h.2.1, h.2.2⟩⟩

/-- If the step measures, the data reader holds the samples that the measurement waits for: as many
as a round has, in the normal mode at least. -/
def Supplied (c : Setup) (n : ℕ) (s : Sys) (l : Label) : Prop :=
  s.measures l →
    if c.mode = .Loan then s.sub.world.sub.reader.samples.length = n
    else n ≤ s.sub.world.sub.reader.samples.length

instance (c : Setup) (n : ℕ) (s : Sys) (l : Label) : Decidable (s.Supplied c n l) :=
  inferInstanceAs (Decidable (_ → _))

theorem Setup.takes_eq_iff (c : Setup) (n len : ℕ) :
    c.takes n len = n ↔ if c.mode = .Loan then len = n else n ≤ len := by
  rw [takes]
  split_ifs
  · rfl
  · exact min_eq_left_iff

variable {s : Sys} {b : Mailbox.Box TestControl ℤ} {first : ℕ}

/-- A measurement waits for the samples of a round. -/
theorem Measuring.expected_eq {l : Label} {t : FastSubTest} {m : ℕ} (hm : s.Measuring l t m)
    (htracks : s.Tracks c b) (hcount : c.pubConfig.messageCount = n) : m = n :=
  Int.ofNat_inj.mp (hm.expected.symm.trans ((htracks.settings hm.active).2.trans hcount))

theorem Stocked.received_eq_iff (h : s.Stocked c n first) (htracks : s.Tracks c b)
    (hcount : c.pubConfig.messageCount = n) {l : Label} {t : FastSubTest} {m : ℕ}
    (hm : s.Measuring l t m) : s.sub.world.received = n ↔ s.Supplied c n l := by
  obtain ⟨hmode, hexpected⟩ := htracks.settings hm.active
  rw [h.received hmode (hexpected.trans hcount), Setup.takes_eq_iff, Supplied, h.samples,
    length_segment]
  exact ⟨fun hsupplied _ ↦ hsupplied, fun hsupplied ↦ hsupplied hm.measures⟩

theorem NoLoss.step_iff (h : s.Stocked c n first) (htracks : s.Tracks c b)
    (hcount : c.pubConfig.messageCount = n) (l : Label) :
    (s.step l).NoLoss ↔ s.NoLoss ∧ s.Supplied c n l := by
  obtain hsame | ⟨t, m, hm⟩ := htracks.effect l
  · have hsupplied : s.Supplied c n l := fun hmeasures ↦ absurd hmeasures hsame.not_measures
    rw [and_iff_left hsupplied]
    constructor
    · rintro ⟨hvalid, hlost, htotal⟩
      rw [hsame.testValidation] at hvalid
      rw [hsame.measured] at hlost
      rw [hsame.totalLostSamples] at htotal
      exact ⟨hvalid, hlost, htotal⟩
    · rintro ⟨hvalid, hlost, htotal⟩
      rw [← hsame.testValidation] at hvalid
      rw [← hsame.measured] at hlost
      rw [← hsame.totalLostSamples] at htotal
      exact ⟨hvalid, hlost, htotal⟩
  · obtain rfl := hm.expected_eq htracks hcount
    rw [← h.received_eq_iff htracks hcount hm]
    have hvalid : (s.step l).sub.world.testValidation.tests = s.sub.world.testValidation.tests ++
        [if s.sub.world.received = m then .VALID else .INVALID] := by
      rw [hm.after]
      exact congrArg TestValidation.tests hm.measured.testValidation
    have hlost : (s.step l).sub.world.measured.map Measurement.lostSamples
        = s.sub.world.measured.map Measurement.lostSamples ++ [m - (s.sub.world.received : ℤ)] := by
      rw [hm.after, Outcome.world_ret, show t.tick.measured = _ from hm.measured.measured,
        List.map_append]
      rfl
    have htotal : (s.step l).sub.world.totalLostSamples
        = s.sub.world.totalLostSamples + (m - s.sub.world.received) := by
      rw [hm.after]
      exact hm.measured.totalLostSamples
    simp only [noLoss_iff_lists, hvalid, hlost, htotal, List.forall_mem_append,
      List.forall_mem_singleton]
    by_cases hr : s.sub.world.received = m
    · simp [hr]
    · simp [hr]

/-- **No false loss.** Every round measured is valid, and nothing is lost, exactly when every
measurement finds the samples it waits for. -/
theorem noLoss_iff (c : Setup) (N n : ℕ) (h : c.Runs N n) (ls : List Label)
    (hok : ∀ io ∈ pubAnswers ls, io.Succeeds) :
    (runOf c ls).NoLoss ↔ Along step (Supplied c n) (start c) ls := by
  induction ls using List.reverseRecOn with
  | nil =>
    exact ⟨fun _ ↦ trivial, fun _ ↦ ⟨fun _ hr ↦ absurd hr List.not_mem_nil,
      fun _ hm ↦ absurd hm List.not_mem_nil, rfl⟩⟩
  | append_singleton ls l ih =>
    have hbefore := succeeds_of_append hok
    obtain ⟨first, hfirst⟩ := stocked_run h hbefore
    rw [along_concat, ← ih hbefore, runOf_concat]
    exact NoLoss.step_iff hfirst (tracks_run c ls) h.messageCount l

theorem oneRound_runs : oneRound.Runs 1 1 := ⟨le_refl 1, rfl, rfl, .inr rfl⟩

/-- A schedule in which every pass of the publisher finds both endpoints matched and no failure. -/
theorem succeeds_of_replicate {ls : List Label} {k : ℕ} (h : pubAnswers ls = List.replicate k {}) :
    ∀ io ∈ pubAnswers ls, io.Succeeds := by
  intro io hio
  rw [h] at hio
  rw [List.eq_of_mem_replicate hio]
  exact PubAnswers.succeeds_default true true 0

/-- The samples arrive between the cycle that adopts the start and the next. -/
theorem oneRound_noLoss : (runOf oneRound (List.replicate 51 (.pubCycle {}) ++
    [.deliverControl, .subCycle 0, .pubCycle {}, .deliverData, .subCycle 0])).NoLoss :=
  (noLoss_iff oneRound 1 1 oneRound_runs _ (succeeds_of_replicate (k := 52) rfl)).mpr
    (by decide +kernel)

/-- The subscriber makes its second cycle before the samples are sent. -/
theorem round_reported_lost : ¬∀ (c : Setup) (N n : ℕ) (ls : List Label), c.Runs N n →
    (∀ io ∈ pubAnswers ls, io.Succeeds) → (runOf c ls).NoLoss := by
  intro h
  have hloss := h oneRound 1 1
    (List.replicate 51 (.pubCycle {}) ++ [.deliverControl, .subCycle 0, .subCycle 0])
    oneRound_runs (succeeds_of_replicate (k := 51) rfl)
  exact absurd hloss.total (by decide +kernel)

end Sys

end IndraDds
