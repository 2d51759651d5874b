import IndraDds.Publisher.Refinement
import Mathlib.Data.Finset.Card
import Mathlib.Data.Finset.Dedup
import Mathlib.Tactic.Ring

/-!
# The samples of a run

What the publisher puts on the data topic when every call succeeds. The normal mode numbers the
samples of a round by `current_entity_id`, which every stop sets back to zero. The loan mode
numbers them by `FastPub::current_id`, which nothing sets back, so the rounds of a loan run have
disjoint ids. The two agree when there is one round or none of them has a sample, and only then.

The stream of a run is the segment of one numbered stream, `sampleAt`; readers of the data topic
are analysed in terms of it.
-/

namespace IndraDds

open Transition Window

/-! ## The samples of an event -/

/-- The samples an event puts on the data topic, with the round they belong to. -/
def PubEvent.samples : PubEvent → List (ℤ × AirEntity)
  | control _ _ => []
  | data round calls => (accepted calls).map fun entity ↦ (round, entity)

def PubEvent.isData : PubEvent → Bool
  | control _ _ => false
  | data _ _ => true

theorem PubEvent.isData_act (e : PubEvent) : e.act.isData = e.isData := by
  cases e with
  | control msg ret =>
    rw [act]
    split_ifs <;> rfl
  | data round calls => rfl

theorem PubEvent.eq_data_of_act {e : PubEvent} {k : ℤ} (h : e.act = .data k) :
    ∃ calls, e = .data k calls := by
  cases e with
  | control msg ret =>
    rw [act] at h
    split_ifs at h
  | data round calls =>
    obtain rfl := Act.data.inj h
    exact ⟨calls, rfl⟩

/-- The samples of a log, in order. -/
def published (log : List (ℕ × PubEvent)) : List (ℤ × AirEntity) :=
  log.flatMap fun e ↦ e.2.samples

/-- The rounds a log has sent data for. -/
def dataCount (log : List (ℕ × PubEvent)) : ℕ := log.countP fun e ↦ e.2.isData

@[simp] theorem published_concat (log : List (ℕ × PubEvent)) (e : ℕ × PubEvent) :
    published (log ++ [e]) = published log ++ e.2.samples := by
  rw [published, List.flatMap_append, List.flatMap_singleton, published]

theorem mem_published {log : List (ℕ × PubEvent)} {x : ℤ × AirEntity} :
    x ∈ published log ↔ ∃ t calls, (t, .data x.1 calls) ∈ log ∧ x.2 ∈ accepted calls := by
  rw [published, List.mem_flatMap]
  constructor
  · rintro ⟨⟨t, e⟩, he, hx⟩
    cases e with
    | control msg ret => exact absurd hx List.not_mem_nil
    | data round calls =>
      obtain ⟨entity, hentity, rfl⟩ := List.mem_map.mp hx
      exact ⟨t, calls, he, hentity⟩
  · rintro ⟨t, calls, he, hx⟩
    exact ⟨_, he, List.mem_map_of_mem hx⟩

@[simp] theorem dataCount_concat (log : List (ℕ × PubEvent)) (e : ℕ × PubEvent) :
    dataCount (log ++ [e]) = dataCount log + if e.2.isData then 1 else 0 := by
  rw [dataCount, List.countP_append, List.countP_singleton, dataCount]

/-- The `i`-th sample of a run with `n` samples a round. -/
def sampleAt (mode : ProcessType) (n i : ℕ) : ℤ × AirEntity :=
  ((i / n : ℕ) + 1, { id := if mode = .Loan then i else (i % n : ℕ) })

/-- The ids of the entities `first`, `first + 1`, … -/
def entitiesFrom (first : ℤ) (n : ℕ) : List AirEntity :=
  (List.range n).map fun i : ℕ ↦ { id := first + i }

theorem entitiesFrom_succ (first : ℤ) (n : ℕ) :
    entitiesFrom first (n + 1) = { id := first } :: entitiesFrom (first + 1) n := by
  rw [entitiesFrom, List.range_succ_eq_map, List.map_cons, List.map_map, entitiesFrom]
  refine congrArg₂ _ (by simp) (List.map_congr_left fun i _ ↦ ?_)
  simp only [Function.comp, Nat.cast_succ]
  congr 1
  ring

/-- A round of the run, as a segment of the stream. -/
theorem segment_sampleAt (mode : ProcessType) (n k : ℕ) :
    segment (sampleAt mode n) (n * k) n
      = (entitiesFrom (if mode = .Loan then n * k else 0 : ℕ) n).map
        fun entity ↦ ((k + 1 : ℤ), entity) := by
  rw [Window.segment, List.range'_eq_map_range, List.map_map, entitiesFrom, List.map_map]
  refine List.map_congr_left fun i hi ↦ ?_
  rw [List.mem_range] at hi
  have hdiv : (n * k + i) / n = k := by
    rw [Nat.mul_add_div (by omega), Nat.div_eq_of_lt hi, Nat.add_zero]
  have hmod : (n * k + i) % n = i := by
    rw [Nat.mul_add_mod, Nat.mod_eq_of_lt hi]
  simp only [Function.comp, sampleAt, hdiv, hmod]
  cases mode <;> simp

/-! ## The write phases -/

namespace PubTest

theorem accepted_normalLoop {a : WriterAnswers} (h : ∀ i, a.write i = RETCODE_OK) (k i : ℕ)
    (p : PubTest) : accepted (normalLoop a k i p).2.2 = entitiesFrom p.currentEntityId k := by
  induction k generalizing i p with
  | zero => rfl
  | succ k ih =>
    rw [entitiesFrom_succ, normalLoop, FastPub.publish, h, decide_eq_true rfl, if_pos rfl]
    exact congrArg (_ :: ·) (ih _ _)

end PubTest

theorem FastPub.publishLoan_succeeds {a : WriterAnswers} (hl : ∀ i, a.loanSample i = RETCODE_OK)
    (hw : ∀ i, a.write i = RETCODE_OK) (count : ℕ) (p : FastPub) :
    accepted (p.publishLoan a count).2.2 = entitiesFrom p.currentId count ∧
      (p.publishLoan a count).2.1 = { p with currentId := p.currentId + count } := by
  rw [publishLoan]
  generalize 0 = i
  induction count generalizing i p with
  | zero => exact ⟨rfl, by rw [publishLoanLoop, Nat.cast_zero, add_zero]⟩
  | succ k ih =>
    obtain ⟨haccepted, hpub⟩ := ih { p with currentId := p.currentId + 1 } (i + 1)
    rw [publishLoanLoop, if_neg (not_not.mpr (hl i)), if_neg (not_not.mpr (hw i))]
    constructor
    · rw [entitiesFrom_succ, ← haccepted, hl, hw]
      rfl
    · rw [hpub]
      simp only [Nat.cast_succ]
      congr 1
      ring

namespace PubTest

/-- A write phase in which every call succeeds. -/
theorem stream_succeeds {p s : PubTest} {io : PubAnswers} (hok : io.Succeeds)
    (hs : p.stream io = .ret s) : ∃ calls,
      s.log = p.log ++ [(p.exec.currentCycle, .data (p.currentTest + 1) calls)] ∧
        accepted calls = entitiesFrom
          (if p.processType = .Loan then p.pub.currentId else p.currentEntityId)
          (toSizeT p.pub.messagesPerCycle) ∧
        s.pub.currentId = if p.processType = .Loan
          then p.pub.currentId + toSizeT p.pub.messagesPerCycle else p.pub.currentId := by
  obtain hmode | hmode := p.processType.normal_or_loan
  · obtain ⟨entities, id, hloop⟩ := normalLoop_frame io.writer (toSizeT p.pub.messagesPerCycle) 0 p
    rw [stream_normal hmode, streamNormal, if_pos (normalLoop_succeeds hok.write _ _ _)] at hs
    obtain rfl := Outcome.ret.inj hs
    refine ⟨(normalLoop io.writer (toSizeT p.pub.messagesPerCycle) 0 p).2.2, ?_, ?_, ?_⟩
    · rw [hloop]
      rfl
    · rw [accepted_normalLoop hok.write, hmode]
      rfl
    · rw [hloop, hmode]
      rfl
  · obtain ⟨haccepted, hpub⟩ := FastPub.publishLoan_succeeds hok.loan hok.write
      (toSizeT p.pub.messagesPerCycle) p.pub
    rw [stream_loan hmode, streamLoan] at hs
    obtain rfl := Outcome.ret.inj hs
    refine ⟨_, rfl, ?_, ?_⟩
    · rw [haccepted, hmode]
      rfl
    · rw [hmode, if_pos rfl]
      exact congrArg FastPub.currentId hpub

/-! ## The stream of a run -/

/-- The record of a run without failures: the stream so far, and the counter of the loan mode. -/
structure Record.Streams (mode : ProcessType) (n : ℕ) (r : Record) : Prop where
  published : published r.log = segment (sampleAt mode n) 0 (n * dataCount r.log)
  currentId : r.pub.currentId = if mode = .Loan then (n * dataCount r.log : ℕ) else 0
  round : ∀ t k calls, (t, .data k calls) ∈ r.log →
    accepted calls = entitiesFrom (if mode = .Loan then n * (k - 1) else 0) n

theorem Follows.dataCount_eq {N n : ℕ} {mode : ProcessType} {p : PubTest} {a : Proto}
    (h : Follows N n mode p a) : dataCount p.log = a.log.countP fun e ↦ e.2.isData := by
  rw [← h.log, List.countP_map, dataCount]
  exact List.countP_congr fun e _ ↦ by rw [← e.2.isData_act]; rfl

variable {config : MainTestConfig} {reset : Bool} {N n : ℕ}

theorem Record.Streams.control {mode : ProcessType} {r s : Record} (h : r.Streams mode n) {t : ℕ}
    {msg : TestControl} {ret : ReturnCode} (hlog : s.log = r.log ++ [(t, .control msg ret)])
    (hpub : s.pub = r.pub) : s.Streams mode n where
  published := by
    simp only [hlog, published_concat, dataCount_concat, PubEvent.samples, PubEvent.isData,
      List.append_nil, Bool.false_eq_true, if_false, Nat.add_zero]
    exact h.published
  currentId := by
    simp only [hlog, hpub, dataCount_concat, PubEvent.isData, Bool.false_eq_true, if_false,
      Nat.add_zero]
    exact h.currentId
  round := by
    intro t' k calls hmem
    rw [hlog, List.mem_append, List.mem_singleton] at hmem
    rcases hmem with hmem | hmem
    · exact h.round t' k calls hmem
    · exact absurd hmem (by simp)

/-- One more round is sent. -/
theorem Record.Streams.data {mode : ProcessType} {r s : Record} (h : r.Streams mode n) {t k : ℕ}
    {calls : List WriterCall} (hk : dataCount r.log = k)
    (hlog : s.log = r.log ++ [(t, .data (k + 1) calls)])
    (hcalls : accepted calls = entitiesFrom (if mode = .Loan then r.pub.currentId else 0) n)
    (hid : s.pub.currentId = if mode = .Loan then r.pub.currentId + n else r.pub.currentId) :
    s.Streams mode n where
  published := by
    have hsamples : (PubEvent.data (k + 1) calls).samples
        = segment (sampleAt mode n) (n * k) n := by
      rw [PubEvent.samples, hcalls, segment_sampleAt, h.currentId, hk]
      cases mode <;> rfl
    rw [hlog, published_concat, dataCount_concat, h.published, hk, hsamples]
    simp only [PubEvent.isData, if_true, Nat.mul_add, Nat.mul_one, segment_append, Nat.zero_add]
  currentId := by
    rw [hid, hlog, dataCount_concat, h.currentId, hk]
    cases mode with
    | Normal => rfl
    | Loan => simp [PubEvent.isData, Nat.mul_add]
  round := by
    intro t' k' calls' hmem
    rw [hlog, List.mem_append, List.mem_singleton] at hmem
    rcases hmem with hmem | hmem
    · exact h.round t' k' calls' hmem
    · obtain ⟨-, hk', rfl⟩ : t' = t ∧ k' = k + 1 ∧ calls' = calls := by simpa using hmem
      rw [hcalls, h.currentId, hk, hk']
      cases mode <;> simp

theorem run_streams (hpos : 1 ≤ N) (hN : config.testCount = N) (hn : config.messageCount = n)
    {ios : List PubAnswers} (hok : ∀ io ∈ ios, io.Succeeds) :
    (run pass (start config reset) ios).world.record.Streams
      (ProcessType.ofLoan config.loanMode) n := by
  revert hok
  refine publisher_induction hpos hN hn reset
    (P := fun ios o ↦ (∀ io ∈ ios, io.Succeeds) → o.world.record.Streams _ n) ?_ ?_ ?_ ios
  · intro _
    exact ⟨rfl, by cases config.loanMode <;> rfl, by simp⟩
  · intro ios io p o ih hrun hfollows hpasses hok
    have hbefore : p.record.Streams _ n := ih fun io hio ↦ hok io (List.mem_append_left _ hio)
    have hio : io.Succeeds := hok io (List.mem_append_right _ (List.mem_singleton_self io))
    cases hpasses with
    | wait q h =>
      rw [Outcome.world_ret, h]
      exact hbefore
    | start q hp hw hm h =>
      rw [Outcome.world_ret, h]
      exact hbefore.control rfl rfl
    | stream q s hp hm hs h =>
      have hflags := hfollows.flags
      rw [hp] at hflags
      obtain ⟨calls, hlog, hcalls, hid⟩ := stream_succeeds hio hs
      rw [hfollows.processType, hfollows.messagesPerCycle, toSizeT_natCast] at hcalls hid
      rw [hfollows.currentTest] at hlog
      rw [hflags.2.2.1] at hcalls
      rw [Outcome.world_ret, h]
      refine hbefore.data ?_ hlog hcalls hid
      exact hfollows.dataCount_eq.trans (Proto.countP_log_of_streaming hpos hp)
    | throw what q hp hs => exact absurd hio.write (stream_thrown hs).2
    | stop q hp h =>
      rw [Outcome.world_ret, h]
      exact hbefore.control rfl rfl
  · intro ios io what p ih hok
    exact ih fun io hio ↦ hok io (List.mem_append_left _ hio)

/-! ## The ids of the rounds -/

/-- The keys a log has written. -/
def writtenKeys (log : List (ℕ × PubEvent)) : Finset ℤ :=
  ((published log).map fun x ↦ x.2.id).toFinset

/-- In either mode every round of a run without failures writes the ids `0`, …, `n - 1`, and the
run no other key. -/
structure SameSamples (config : MainTestConfig) (n : ℕ) : Prop where
  ids : ∀ loan reset ios, (∀ io ∈ ios, PubAnswers.Succeeds io) → ∀ t k calls,
    (t, .data k calls) ∈ (run pass (start { config with loanMode := loan } reset) ios).world.log →
      (accepted calls).map AirEntity.id = (List.range n).map fun i : ℕ ↦ (i : ℤ)
  keys : ∀ loan reset ios, (∀ io ∈ ios, PubAnswers.Succeeds io) →
    (writtenKeys (run pass (start { config with loanMode := loan } reset) ios).world.log).card ≤ n

theorem map_id_entitiesFrom (first : ℤ) (n : ℕ) :
    (entitiesFrom first n).map AirEntity.id = (List.range n).map fun i : ℕ ↦ first + i := by
  rw [entitiesFrom, List.map_map]
  rfl

section Ids

variable (hpos : 1 ≤ N) (hN : config.testCount = N) (hn : config.messageCount = n)

include hpos hN hn

/-- The rounds in the log are rounds of the test. -/
theorem round_of_mem_log {ios : List PubAnswers} {p : PubTest}
    (h : run pass (start config reset) ios = .ret p) {t : ℕ} {e : PubEvent} (he : (t, e) ∈ p.log) :
    e.act ∈ Proto.acts N := by
  refine (Proto.log_prefix hpos (ios.map PubAnswers.matched)).subset ?_
  rw [← (run_follows hpos hN hn h).log, List.map_map]
  exact List.mem_map_of_mem (f := Prod.snd ∘ PubEvent.timedAct) he

/-- Every round is sent in some run without failures. -/
theorem exists_data {k : ℤ} (hk : 1 ≤ k) (hkN : k ≤ N) : ∃ ios : List PubAnswers,
    (∀ io ∈ ios, io.Succeeds) ∧
      ∃ t calls, (t, .data k calls) ∈ (run pass (start config reset) ios).world.log := by
  have hok : ∀ io ∈ List.replicate (13 * N + 45) ({} : PubAnswers), io.Succeeds := by
    intro io hio
    rw [List.eq_of_mem_replicate hio]
    exact PubAnswers.succeeds_default true true 0
  refine ⟨List.replicate (13 * N + 45) {}, hok, ?_⟩
  obtain ⟨p, hp⟩ : ∃ p, run pass (start config reset) (List.replicate (13 * N + 45) {}) = .ret p :=
    run_returns hpos hN hn (.inr fun io hio ↦ (hok io hio).write)
  have hfinished : (run (Proto.step N) {}
      ((List.replicate (13 * N + 45) {}).map PubAnswers.matched)).phase = .finished := by
    refine Proto.finished_of_length hpos ?_
    rw [List.map_replicate, List.countP_replicate, List.length_replicate]
    exact Nat.le_refl _
  have hmem : .data k ∈ (p.log.map PubEvent.timedAct).map Prod.snd := by
    rw [(run_follows hpos hN hn hp).log, Proto.log_run_of_finished hpos hfinished,
      Proto.mem_acts]
    exact ⟨hk, hkN⟩
  rw [List.map_map] at hmem
  obtain ⟨⟨t, e⟩, he, hact⟩ := List.mem_map.mp hmem
  obtain ⟨calls, rfl⟩ := PubEvent.eq_data_of_act hact
  rw [hp]
  exact ⟨t, calls, he⟩

theorem dataCount_le {ios : List PubAnswers} {p : PubTest}
    (h : run pass (start config reset) ios = .ret p) : dataCount p.log ≤ N := by
  have hle := (Proto.log_prefix hpos (ios.map PubAnswers.matched)).sublist.countP_le
    (p := Act.isData)
  rw [Proto.countP_acts, List.countP_map] at hle
  rw [(run_follows hpos hN hn h).dataCount_eq]
  exact hle

/-- The keys written, by position in the stream. -/
theorem writtenKeys_run {ios : List PubAnswers} (hok : ∀ io ∈ ios, io.Succeeds) :
    writtenKeys (run pass (start config reset) ios).world.log
      = ((List.range (n * dataCount (run pass (start config reset) ios).world.log)).map fun i ↦
          (sampleAt (ProcessType.ofLoan config.loanMode) n i).2.id).toFinset := by
  have h : published (run pass (start config reset) ios).world.log = segment _ 0 _ :=
    (run_streams hpos hN hn hok).published
  rw [writtenKeys, h, Window.segment, List.map_map, ← List.range_eq_range']
  rfl

/-- A run of the normal mode reuses the keys of its first round. -/
theorem card_writtenKeys_normal {ios : List PubAnswers} (hok : ∀ io ∈ ios, io.Succeeds)
    (hnormal : config.loanMode = false) :
    (writtenKeys (run pass (start config reset) ios).world.log).card ≤ n := by
  rw [writtenKeys_run hpos hN hn hok, hnormal]
  have hsub : ((List.range (n * dataCount (run pass (start config reset) ios).world.log)).map
      fun i ↦ (sampleAt .Normal n i).2.id).toFinset
        ⊆ ((List.range n).map fun i : ℕ ↦ (i : ℤ)).toFinset := by
    intro id hid
    rw [List.mem_toFinset, List.mem_map] at hid ⊢
    obtain ⟨i, hi, rfl⟩ := hid
    rw [List.mem_range] at hi
    have hpos : 0 < n := Nat.pos_of_mul_pos_right (Nat.zero_lt_of_lt hi)
    exact ⟨i % n, List.mem_range.mpr (Nat.mod_lt _ hpos), rfl⟩
  refine (Finset.card_le_card hsub).trans ((List.toFinset_card_le _).trans ?_)
  rw [List.length_map, List.length_range]

/-- A run of the loan mode writes as many keys as samples. -/
theorem card_writtenKeys_loan {ios : List PubAnswers} (hok : ∀ io ∈ ios, io.Succeeds)
    (hloan : config.loanMode = true) :
    (writtenKeys (run pass (start config reset) ios).world.log).card
      = n * dataCount (run pass (start config reset) ios).world.log := by
  rw [writtenKeys_run hpos hN hn hok, hloan, List.toFinset_card_of_nodup, List.length_map,
    List.length_range]
  refine List.nodup_range.map fun i j hij ↦ ?_
  exact Int.ofNat_inj.mp hij

/-- The second round of a loan run starts where the first ended. -/
theorem exists_second_round (reset : Bool) (hloan : config.loanMode = true) (htwo : 2 ≤ N) :
    ∃ ios : List PubAnswers, (∀ io ∈ ios, io.Succeeds) ∧ ∃ t calls,
      (t, .data 2 calls) ∈ (run pass (start config reset) ios).world.log ∧
        (accepted calls).map AirEntity.id = (List.range n).map fun i : ℕ ↦ (n + i : ℤ) := by
  obtain ⟨ios, hok, t, calls, hmem⟩ := exists_data hpos hN hn (k := 2) (by decide) (by omega)
  have hround := (run_streams hpos hN hn hok).round t 2 calls hmem
  refine ⟨ios, hok, t, calls, hmem, ?_⟩
  rw [hround, hloan, map_id_entitiesFrom]
  simp [ProcessType.ofLoan]

theorem ids_of_one_round (h : N = 1 ∨ n = 0) {ios : List PubAnswers}
    (hok : ∀ io ∈ ios, io.Succeeds) {t : ℕ} {k : ℤ} {calls : List WriterCall}
    (hmem : (t, .data k calls) ∈ (run pass (start config reset) ios).world.log) :
    (accepted calls).map AirEntity.id = (List.range n).map fun i : ℕ ↦ (i : ℤ) := by
  obtain ⟨p, hp⟩ : ∃ p, run pass (start config reset) ios = .ret p :=
    run_returns hpos hN hn (.inr fun io hio ↦ (hok io hio).write)
  rw [(run_streams hpos hN hn hok).round t k calls hmem, map_id_entitiesFrom]
  rw [hp] at hmem
  obtain ⟨hk, hkN⟩ : 1 ≤ k ∧ k ≤ N :=
    Proto.mem_acts.mp (round_of_mem_log hpos hN hn hp hmem)
  rcases h with rfl | rfl
  · obtain rfl : k = 1 := by omega
    simp
  · rfl

theorem card_writtenKeys_of_one_round (h : N = 1 ∨ n = 0) {ios : List PubAnswers}
    (hok : ∀ io ∈ ios, io.Succeeds) :
    (writtenKeys (run pass (start config reset) ios).world.log).card ≤ n := by
  cases hloan : config.loanMode with
  | false => exact card_writtenKeys_normal hpos hN hn hok hloan
  | true =>
    obtain ⟨p, hp⟩ : ∃ p, run pass (start config reset) ios = .ret p :=
      run_returns hpos hN hn (.inr fun io hio ↦ (hok io hio).write)
    have hle := dataCount_le hpos hN hn hp
    rw [card_writtenKeys_loan hpos hN hn hok hloan, hp]
    rcases h with rfl | rfl
    · exact (Nat.mul_le_mul_left n hle).trans (Nat.le_of_eq (Nat.mul_one n))
    · exact Nat.le_of_eq (Nat.zero_mul _)

end Ids

/-- Two rounds of one sample: the second loan carries the id `1`. -/
theorem loan_mode_does_not_restart :
    ¬SameSamples { messageCount := 1, testCount := 2, loanMode := true } 1 := by
  intro h
  have hids := h.ids true false (List.replicate 71 {}) (fun io hio ↦ ?_) 64 2
    [.loanSample 0 RETCODE_OK, .write (some 0) { id := 1 } RETCODE_OK] (by decide +kernel)
  · exact absurd hids (by decide)
  · rw [List.eq_of_mem_replicate hio]
    exact PubAnswers.succeeds_default true true 0

/-- **The ids of the two modes.** -/
theorem sameSamples_iff (config : MainTestConfig) (N n : ℕ) (hpos : 1 ≤ N)
    (hN : config.testCount = N) (hn : config.messageCount = n) :
    SameSamples config n ↔ N = 1 ∨ n = 0 := by
  have hN' : ∀ loan, ({ config with loanMode := loan } : MainTestConfig).testCount = N :=
    fun _ ↦ hN
  have hn' : ∀ loan, ({ config with loanMode := loan } : MainTestConfig).messageCount = n :=
    fun _ ↦ hn
  constructor
  · intro h
    by_contra hne
    rw [not_or] at hne
    obtain ⟨ios, hok, t, calls, hmem, hsecond⟩ :=
      exists_second_round hpos (hN' true) (hn' true) false rfl (by omega)
    have hfirst := (h.ids true false ios hok t 2 calls hmem).symm.trans hsecond
    have hzero := List.map_inj_left.mp hfirst 0 (List.mem_range.mpr (by omega))
    omega
  · intro h
    exact ⟨fun loan reset ios hok t k calls hmem ↦
        ids_of_one_round hpos (hN' loan) (hn' loan) h hok hmem,
      fun loan reset ios hok ↦ card_writtenKeys_of_one_round hpos (hN' loan) (hn' loan) h hok⟩

theorem sameSamples_of_one_round :
    SameSamples { messageCount := 3, testCount := 1 } 3 ↔ 1 = 1 ∨ 3 = 0 :=
  sameSamples_iff { messageCount := 3, testCount := 1 } 1 3 (by decide) rfl rfl

end PubTest

end IndraDds
