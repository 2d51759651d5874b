import IndraDds.System.Loss

/-!
# Which round a counted sample belongs to

The samples of a run do not say which round they belong to, and `reset_samples` clears the ids of
the subscriber but not its reader. So a measurement counts whatever has been delivered since the
one before, and is a measurement of its own round only if nothing has arrived late or early.

`Owned` says so in terms of how many samples have been delivered and how many of them the reader
still holds, and `isolated_iff` that nothing less will do.
-/

namespace IndraDds

open Transition Window

theorem round_sampleAt_eq_iff {mode : ProcessType} {n : ℕ} (hn : 1 ≤ n) (i : ℕ) (k : ℤ) :
    (sampleAt mode n i).1 = k ↔ (k - 1) * n ≤ i ∧ (i : ℤ) < k * n := by
  have hdiv : ((i : ℤ) / n = k - 1) ↔ (k - 1) * n ≤ i ∧ (i : ℤ) < (k - 1) * n + n :=
    Int.ediv_eq_iff_of_pos (Int.natCast_pos.mpr hn)
  have hmul : (k - 1) * n + n = k * n := by ring
  rw [hmul] at hdiv
  rw [← hdiv, sampleAt, Int.natCast_div, eq_sub_iff_add_eq]

theorem forall_segment_round_iff {mode : ProcessType} {n first len : ℕ} (hn : 1 ≤ n) (k : ℤ) :
    (∀ i, first ≤ i → i < first + len → (sampleAt mode n i).1 = k) ↔
      len = 0 ∨ (k - 1) * n ≤ first ∧ (first + len : ℤ) ≤ k * n := by
  simp only [round_sampleAt_eq_iff hn]
  constructor
  · intro h
    rcases Nat.eq_zero_or_pos len with hlen | hlen
    · exact .inl hlen
    · have hfirst := (h first (le_refl _) (by omega)).1
      have hlast := (h (first + len - 1) (by omega) (by omega)).2
      exact .inr ⟨hfirst, by omega⟩
  · rintro (rfl | ⟨hfirst, hlast⟩) i hi hi'
    · omega
    · omega

theorem countP_segment_round (mode : ProcessType) {n : ℕ} (hn : 1 ≤ n) (j : ℕ) :
    (segment (sampleAt mode n) 0 (n * (j + 1))).countP (fun x ↦ x.1 = (j + 1 : ℤ)) = n := by
  rw [Nat.mul_succ, segment_append, List.countP_append, Nat.zero_add]
  have hbefore : (segment (sampleAt mode n) 0 (n * j)).countP (fun x ↦ x.1 = (j + 1 : ℤ)) = 0 := by
    rw [List.countP_eq_zero]
    intro x hx
    obtain ⟨i, -, hi, rfl⟩ := mem_segment.mp hx
    rw [decide_eq_true_iff, round_sampleAt_eq_iff hn]
    rintro ⟨hle, -⟩
    have hcast : ((n * j : ℕ) : ℤ) = (j + 1 - 1 : ℤ) * n := by push_cast; ring
    omega
  have hown : (segment (sampleAt mode n) (n * j) n).countP (fun x ↦ x.1 = (j + 1 : ℤ))
      = (segment (sampleAt mode n) (n * j) n).length := by
    rw [List.countP_eq_length]
    intro x hx
    obtain ⟨i, hi, hi', rfl⟩ := mem_segment.mp hx
    rw [decide_eq_true_iff, round_sampleAt_eq_iff hn]
    have hcast : ((n * j : ℕ) : ℤ) = (j + 1 - 1 : ℤ) * n := by push_cast; ring
    have hcast' : ((n * j + n : ℕ) : ℤ) = (j + 1 : ℤ) * n := by push_cast; ring
    omega
  rw [hbefore, hown, length_segment, Nat.zero_add]

namespace Sys

/-- How many samples of round `k` have been delivered. -/
def arrived (s : Sys) (k : ℤ) : ℕ := (s.data.take s.dataDelivered).countP fun x ↦ x.1 = k

/-- If the step measures, every sample it takes was sent in the round measured, and the round is
valid only if all its samples have arrived. -/
def Isolated (n : ℕ) (s : Sys) (l : Label) : Prop :=
  s.measures l →
    (∀ x ∈ s.sub.world.taken,
      s.data[x.info.sequenceNumber]? = some (s.sub.world.currentTestId, x.data)) ∧
    ∀ m, (s.step l).sub.world.measured = s.sub.world.measured ++ [m] → m.result = true →
      s.arrived m.testId = n

/-- If the step measures round `k`, the data reader is empty, or the samples delivered end within
round `k` and those before the ones in the reader fill the rounds before. -/
def Owned (n : ℕ) (s : Sys) (l : Label) : Prop :=
  s.measures l →
    s.sub.world.sub.reader.samples = [] ∨
      (s.sub.world.currentTestId - 1) * n + s.sub.world.sub.reader.samples.length
          ≤ (s.dataDelivered : ℤ) ∧
        (s.dataDelivered : ℤ) ≤ s.sub.world.currentTestId * n

instance (n : ℕ) (s : Sys) (l : Label) : Decidable (s.Owned n l) :=
  inferInstanceAs (Decidable (_ → _))

variable {c : Setup} {N n first : ℕ} {s : Sys} {b : Mailbox.Box TestControl ℤ} {l : Label}
  {ls : List Label} {t : FastSubTest} {m : ℕ}

theorem Stocked.takes_eq (h : s.Stocked c n first) (hlast : c.history = .keepLast 1) :
    c.takes n (s.dataDelivered - first) = s.dataDelivered - first := by
  obtain hm | hm := c.mode_cases
  · rw [Setup.takes, hm, if_neg (by simp)]
    exact min_eq_right (h.short hm hlast)
  · rw [Setup.takes, hm, if_pos rfl]

theorem Stocked.taken (h : s.Stocked c n first) (htracks : s.Tracks c b)
    (hcount : c.pubConfig.messageCount = n) (hlast : c.history = .keepLast 1)
    (hm : s.Measuring l t m) : s.sub.world.taken
      = segment (receivedAt c.mode n) first (s.dataDelivered - first) := by
  obtain ⟨hmode, hexpected⟩ := htracks.settings hm.active
  have hn := hexpected.trans hcount
  rw [SubTest.taken_eq_counted hn, (h.drain hmode hn).1, h.takes_eq hlast]

theorem Stocked.sent_iff (h : s.Stocked c n first) (hdata : s.Streamed c n) (k : ℤ) :
    (∀ x ∈ segment (receivedAt c.mode n) first (s.dataDelivered - first),
        s.data[x.info.sequenceNumber]? = some (k, x.data)) ↔
      ∀ i, first ≤ i → i < first + (s.dataDelivered - first) → (sampleAt c.mode n i).1 = k := by
  have hsent : ∀ i, i < first + (s.dataDelivered - first) →
      s.data[i]? = some (sampleAt c.mode n i) := by
    intro i hi
    have hlt : i < s.data.length := by
      have := h.delivered_le
      have := h.first_le
      omega
    have hx := List.getElem?_eq_getElem hlt
    rw [hx, hdata.eq_sampleAt hx]
  constructor
  · intro hall i hi hi'
    have hx := hall (receivedAt c.mode n i) (mem_segment.mpr ⟨i, hi, hi', rfl⟩)
    rw [show (receivedAt c.mode n i).info.sequenceNumber = i from rfl, hsent i hi'] at hx
    rw [Option.some.inj hx]
  · intro hall x hx
    obtain ⟨i, hi, hi', rfl⟩ := mem_segment.mp hx
    rw [show (receivedAt c.mode n i).info.sequenceNumber = i from rfl, hsent i hi',
      ← hall i hi hi']
    rfl

/-- A valid round whose samples are its own has all of them. -/
theorem Stocked.arrived_of_valid (h : s.Stocked c n first) (hdata : s.Streamed c n) (hn : 1 ≤ n)
    (hfull : s.dataDelivered - first = n) {k : ℤ} (hfirst : (k - 1) * n ≤ first)
    (hdelivered : (s.dataDelivered : ℤ) ≤ k * n) : s.arrived k = n := by
  have hle := h.first_le
  have hcast : (first : ℤ) + n = s.dataDelivered := by omega
  have hmul : (k - 1) * n + n = k * n := by ring
  have hD : (s.dataDelivered : ℤ) = k * n := by omega
  obtain ⟨j, rfl⟩ : ∃ j : ℕ, k = j + 1 := by
    have hpos : 0 < k * n := by omega
    have hk : 0 < k := by
      by_contra hneg
      have := Int.mul_le_mul_of_nonneg_right (Int.not_lt.mp hneg) (Int.natCast_nonneg n)
      omega
    exact ⟨(k - 1).toNat, by omega⟩
  obtain ⟨r, hr⟩ := hdata
  have htake : s.data.take s.dataDelivered = segment (sampleAt c.mode n) 0 (n * (j + 1)) := by
    have hnat : s.dataDelivered = n * (j + 1) := by
      rw [← Int.ofNat_inj, hD]
      push_cast
      ring
    have hdel := h.delivered_le
    rw [hr, length_segment] at hdel
    rw [hr, take_segment, Nat.min_eq_left hdel, hnat]
  rw [arrived, htake, countP_segment_round c.mode hn]

theorem Stocked.isolated_iff (h : s.Stocked c n first) (htracks : s.Tracks c b)
    (hdata : s.Streamed c n) (hn : 1 ≤ n) (hcount : c.pubConfig.messageCount = n)
    (hlast : c.history = .keepLast 1) (l : Label) : s.Isolated n l ↔ s.Owned n l := by
  obtain hsame | ⟨t, m, hm⟩ := htracks.effect l
  · exact ⟨fun _ hmeasures ↦ absurd hmeasures hsame.not_measures,
      fun _ hmeasures ↦ absurd hmeasures hsame.not_measures⟩
  · obtain ⟨hmode, hexpected⟩ := htracks.settings hm.active
    have hreceived := h.received hmode (hexpected.trans hcount)
    rw [h.takes_eq hlast] at hreceived
    have hfirst := h.first_le
    have hown : s.Owned n l ↔ s.dataDelivered - first = 0 ∨
        (s.sub.world.currentTestId - 1) * n ≤ first ∧
          (first + (s.dataDelivered - first : ℕ) : ℤ) ≤ s.sub.world.currentTestId * n := by
      rw [Owned, h.samples, length_segment, ← List.length_eq_zero_iff, length_segment]
      constructor
      · intro howned
        have := howned hm.measures
        omega
      · intro howned _
        omega
    have hsent : (∀ x ∈ s.sub.world.taken,
        s.data[x.info.sequenceNumber]? = some (s.sub.world.currentTestId, x.data)) ↔
          s.dataDelivered - first = 0 ∨ (s.sub.world.currentTestId - 1) * n ≤ first ∧
            (first + (s.dataDelivered - first : ℕ) : ℤ) ≤ s.sub.world.currentTestId * n := by
      rw [h.taken htracks hcount hlast hm, h.sent_iff hdata, forall_segment_round_iff hn]
    rw [hown, ← hsent]
    refine ⟨fun hisolated ↦ (hisolated hm.measures).1, fun hall _ ↦ ⟨hall, fun r hr hvalid ↦ ?_⟩⟩
    rw [hm.after, Outcome.world_ret, show t.tick.measured = _ from hm.measured.measured,
      List.append_cancel_left_eq, List.singleton_inj] at hr
    obtain rfl := hm.expected_eq htracks hcount
    rw [← hr, decide_eq_true_iff, hreceived] at hvalid
    rw [← hr]
    change s.arrived s.sub.world.currentTestId = m
    -- a valid round counted something, so its samples are its own
    obtain hempty | ⟨hlow, hhigh⟩ := hsent.mp hall
    · omega
    · exact h.arrived_of_valid hdata hn hvalid hlow (by omega)

/-- **Round isolation**, exactly. -/
theorem isolated_iff_owned (c : Setup) (N n : ℕ) (hn : 1 ≤ n) (h : c.Runs N n)
    (hlast : c.history = .keepLast 1) (ls : List Label) (hok : ∀ io ∈ pubAnswers ls, io.Succeeds) :
    Along step (Isolated n) (start c) ls ↔ Along step (Owned n) (start c) ls := by
  refine along_congr fun pre l post hls ↦ ?_
  have hbefore : ∀ io ∈ pubAnswers pre, io.Succeeds := by
    rw [hls] at hok
    exact succeeds_of_append hok
  obtain ⟨first, hfirst⟩ := stocked_run h hbefore
  exact hfirst.isolated_iff (tracks_run c pre) (streamed_run h hbefore) hn h.messageCount hlast l

/-- A test of two rounds of one sample on both sides. -/
def twoRounds : Setup where
  pubConfig := { messageCount := 1, testCount := 2 }
  subConfig := { messageCount := 1, testCount := 2 }

theorem twoRounds_runs : twoRounds.Runs 2 1 := ⟨le_add_self, rfl, rfl, .inr rfl⟩

theorem twoRounds_isolated : Along step (Isolated 1) (start twoRounds)
    (List.replicate 51 (.pubCycle {}) ++
      [.deliverControl, .subCycle 0, .pubCycle {}, .deliverData, .subCycle 0] ++
      List.replicate 12 (.pubCycle {}) ++
      [.deliverControl, .deliverControl, .subCycle 0, .pubCycle {}, .deliverData, .subCycle 0]) :=
  (isolated_iff_owned twoRounds 2 1 (le_refl 1) twoRounds_runs rfl _
    (succeeds_of_replicate (k := 65) rfl)).mpr (by decide +kernel)

/-- The sample of the first round arrives after the measurement of its round, and is counted as the
sample of the second. -/
theorem late_sample_counted : ¬∀ (c : Setup) (N n : ℕ) (ls : List Label), 1 ≤ n → c.Runs N n →
    c.history = .keepLast 1 → (∀ io ∈ pubAnswers ls, io.Succeeds) →
    Along step (Isolated n) (start c) ls := by
  intro h
  have hisolated := h twoRounds 2 1
    (List.replicate 51 (.pubCycle {}) ++ [.deliverControl, .subCycle 0, .subCycle 0] ++
      List.replicate 13 (.pubCycle {}) ++
      [.deliverData, .deliverControl, .deliverControl, .subCycle 0] ++ [.subCycle 0])
    (le_refl 1) twoRounds_runs rfl (succeeds_of_replicate (k := 64) rfl)
  rw [along_concat] at hisolated
  have hsent := (hisolated.2 (by decide +kernel)).1 (receivedAt .Normal 1 0) (by decide +kernel)
  exact absurd hsent (by decide +kernel)

end Sys

end IndraDds
