import IndraDds.Foundation.Transition
import Mathlib.Data.Int.Notation
import Mathlib.Data.List.Infix

/-!
# The protocol of the publisher

What the publisher is for, without its flags: it warms up for fifty matched cycles, and then runs
its rounds one after another. A round is announced in one matched cycle and streamed in the next
one that is matched; five cycles later it is about to be stopped, and five cycles after the stop
the next one is about to be announced. The environment is one bit a cycle, whether both endpoints
are matched.

`Move` lists what one cycle can do, and the invariants are proved against it. Two results come out:
the cycles done and the cycles left add up to `13 N + 45` plus the cycles lost to missing matches,
and the timed log of the protocol is a prefix of the rounds in order with the waiting times the
flags are there to enforce.
-/

namespace IndraDds

open Transition

/-! ## The machine -/

/-- A step of a round that the outside can see. -/
inductive Act where
  | start (k : ℤ)
  | data (k : ℤ)
  | stop (k : ℤ)
deriving DecidableEq, Repr

def Act.round : Act → ℤ
  | start k | data k | stop k => k

def Act.isStart : Act → Bool
  | start _ => true
  | _ => false

def Act.isData : Act → Bool
  | data _ => true
  | _ => false

/-- Where the protocol is at the end of a cycle. The counters of `draining` and `cooling` are the
cycles waited since the data and since the stop. -/
inductive Phase where
  | announcing
  | streaming
  | draining (j : ℕ)
  | cooling (j : ℕ)
  | finished
deriving DecidableEq, Repr

/-- The state: the rounds done, the announcing cycles so far, the phase, the cycles done, and the
log. -/
structure Proto where
  round : ℕ := 0
  warm : ℕ := 0
  phase : Phase := .announcing
  time : ℕ := 0
  log : List (ℕ × Act) := []
deriving DecidableEq, Repr

namespace Proto

def act (a : Proto) (e : Act) : Proto := { a with log := a.log ++ [(a.time, e)] }

/-- A cycle in which the next announcement is due. -/
def announce (a : Proto) (matched : Bool) : Proto :=
  if !matched then { a with phase := .announcing }
  else if a.warm < 50 then { a with phase := .announcing, warm := a.warm + 1 }
  else { a.act (.start (a.round + 1)) with phase := .streaming, warm := a.warm + 1 }

/-- The cycle that stops a round, the last one if `N` are done. -/
def stopRound (N : ℕ) (a : Proto) : Proto :=
  { a.act (.stop (a.round + 1)) with
    round := a.round + 1
    phase := if N ≤ a.round + 1 then .finished else .cooling 0 }

def cycle (N : ℕ) (a : Proto) (matched : Bool) : Proto :=
  match a.phase with
  | .announcing => a.announce matched
  | .streaming => if matched then { a.act (.data (a.round + 1)) with phase := .draining 0 } else a
  | .draining j => if j < 5 then { a with phase := .draining (j + 1) } else a.stopRound N
  | .cooling j => if j < 5 then { a with phase := .cooling (j + 1) } else a.announce matched
  | .finished => a

/-- One cycle; nothing happens once the protocol has finished. -/
def step (N : ℕ) (a : Proto) (matched : Bool) : Proto :=
  if a.phase = .finished then a else { a.cycle N matched with time := a.time + 1 }

/-- The next announcement is due in this cycle. -/
def Armed (a : Proto) : Prop := a.phase = .announcing ∨ a.phase = .cooling 5

theorem Armed.ne_finished {a : Proto} (h : a.Armed) : a.phase ≠ .finished := by
  rcases h with h | h
  · rw [h]
    simp
  · rw [h]
    simp

theorem Armed.ne_draining {a : Proto} (h : a.Armed) (j : ℕ) : a.phase ≠ .draining j := by
  rcases h with h | h
  · rw [h]
    simp
  · rw [h]
    simp

/-- The cycle is lost to a missing match. -/
def blocked (a : Proto) (matched : Bool) : Bool :=
  !matched && (a.phase = .announcing || a.phase = .streaming || a.phase = .cooling 5)

/-- The phases that occur, and what is known in each. -/
def Valid (N : ℕ) (a : Proto) : Prop :=
  match a.phase with
  | .announcing => a.round < N
  | .streaming => a.round < N ∧ 50 ≤ a.warm
  | .draining j => a.round < N ∧ 50 ≤ a.warm ∧ j ≤ 5
  | .cooling j => a.round < N ∧ 50 ≤ a.warm ∧ j ≤ 5
  | .finished => a.round = N

/-! ## What one cycle does -/

/-- The moves of the protocol. -/
inductive Move (N : ℕ) (a : Proto) : Bool → Proto → Prop where
  | idle {m : Bool} (h : a.phase = .finished) : Move N a m a
  | unannounced (h : a.Armed) : Move N a false { a with phase := .announcing, time := a.time + 1 }
  | warming (h : a.phase = .announcing) (hw : a.warm < 50) :
      Move N a true { a with phase := .announcing, warm := a.warm + 1, time := a.time + 1 }
  | start (h : a.Armed) (hw : 50 ≤ a.warm) : Move N a true
      { a.act (.start (a.round + 1)) with
        phase := .streaming, warm := a.warm + 1, time := a.time + 1 }
  | unsent (h : a.phase = .streaming) : Move N a false { a with time := a.time + 1 }
  | data (h : a.phase = .streaming) : Move N a true
      { a.act (.data (a.round + 1)) with phase := .draining 0, time := a.time + 1 }
  | drain {m : Bool} {j : ℕ} (h : a.phase = .draining j) (hj : j < 5) :
      Move N a m { a with phase := .draining (j + 1), time := a.time + 1 }
  | stop {m : Bool} (h : a.phase = .draining 5) : Move N a m
      { a.act (.stop (a.round + 1)) with
        round := a.round + 1
        phase := if N ≤ a.round + 1 then .finished else .cooling 0
        time := a.time + 1 }
  | cool {m : Bool} {j : ℕ} (h : a.phase = .cooling j) (hj : j < 5) :
      Move N a m { a with phase := .cooling (j + 1), time := a.time + 1 }

/-- **Inversion.** A cycle of a valid protocol is one of the moves. -/
theorem step_move {N : ℕ} {a : Proto} (h : a.Valid N) (m : Bool) : Move N a m (a.step N m) := by
  cases hp : a.phase with
  | announcing =>
    rw [step, if_neg (by simp [hp]), cycle, hp]
    cases m with
    | false => exact .unannounced (.inl hp)
    | true =>
      by_cases hw : a.warm < 50
      · simp only [announce, hw, Bool.not_true, Bool.false_eq_true, if_true, if_false]
        exact .warming hp hw
      · simp only [announce, hw, Bool.not_true, Bool.false_eq_true, if_false]
        exact .start (.inl hp) (by omega)
  | streaming =>
    rw [step, if_neg (by simp [hp]), cycle, hp]
    cases m with
    | false => exact .unsent hp
    | true => exact .data hp
  | draining j =>
    rw [step, if_neg (by simp [hp]), cycle, hp]
    rw [Valid, hp] at h
    by_cases hj : j < 5
    · simp only [hj, if_true]
      exact .drain hp hj
    · obtain rfl : j = 5 := by omega
      exact .stop hp
  | cooling j =>
    rw [step, if_neg (by simp [hp]), cycle, hp]
    rw [Valid, hp] at h
    by_cases hj : j < 5
    · simp only [hj, if_true]
      exact .cool hp hj
    · obtain rfl : j = 5 := by omega
      cases m with
      | false => exact .unannounced (.inr hp)
      | true =>
        simp only [announce, show ¬a.warm < 50 by omega, Bool.not_true, Bool.false_eq_true,
          if_false, Nat.lt_irrefl]
        exact .start (.inr hp) h.2.1
  | finished =>
    rw [step, if_pos hp]
    exact .idle hp

theorem Armed.round_lt {N : ℕ} {a : Proto} (h : a.Armed) (hv : a.Valid N) : a.round < N := by
  rcases h with h | h
  · rwa [Valid, h] at hv
  · rw [Valid, h] at hv
    exact hv.1

theorem valid_step {N : ℕ} {a : Proto} (h : a.Valid N) (m : Bool) : (a.step N m).Valid N := by
  have hmove := step_move h m
  generalize a.step N m = b at hmove ⊢
  cases hmove with
  | idle => exact h
  | unannounced ha => exact ha.round_lt h
  | warming hp => rwa [Valid, hp] at h
  | start ha hw => exact ⟨ha.round_lt h, Nat.le_succ_of_le hw⟩
  | unsent hp =>
    rw [Valid, hp] at h
    simp only [Valid, hp]
    exact h
  | data hp =>
    rw [Valid, hp] at h
    exact ⟨h.1, h.2, Nat.zero_le 5⟩
  | drain hp hj =>
    rw [Valid, hp] at h
    exact ⟨h.1, h.2.1, hj⟩
  | stop hp =>
    rw [Valid, hp] at h
    by_cases hN : N ≤ a.round + 1
    · simp only [Valid, if_pos hN]
      omega
    · simp only [Valid, if_neg hN]
      exact ⟨by omega, h.2.1, Nat.zero_le 5⟩
  | cool hp hj =>
    rw [Valid, hp] at h
    exact ⟨h.1, h.2.1, hj⟩

theorem valid_run {N : ℕ} (hN : 1 ≤ N) (ms : List Bool) : (run (step N) {} ms).Valid N :=
  run_invariant (I := Valid N) (by simp only [Valid]; omega) (fun _ m h ↦ valid_step h m) ms

/-! ## The length of a run -/

/-- The cycles still to go if no match goes missing. -/
def remaining (N : ℕ) (a : Proto) : ℕ :=
  match a.phase with
  | .announcing => 50 - a.warm + 8 + 13 * (N - a.round - 1)
  | .streaming => 7 + 13 * (N - a.round - 1)
  | .draining j => 6 - j + 13 * (N - a.round - 1)
  | .cooling j => 5 - j + 8 + 13 * (N - a.round - 1)
  | .finished => 0

/-- A cycle is either lost or one of those to go. -/
theorem remaining_step {N : ℕ} {a : Proto} (h : a.Valid N) (hp : a.phase ≠ .finished) (m : Bool) :
    (a.step N m).time + (a.step N m).remaining N
      = a.time + a.remaining N + if a.blocked m then 1 else 0 := by
  have hmove := step_move h m
  generalize a.step N m = b at hmove ⊢
  cases hmove with
  | idle hf => exact absurd hf hp
  | unannounced ha =>
    rcases ha with ha | ha
    · simp only [remaining, blocked, ha, Bool.not_false, decide_true, Bool.true_or, Bool.true_and,
        if_true]
      omega
    · rw [Valid, ha] at h
      simp only [remaining, blocked, ha, Bool.not_false, decide_true, Bool.or_true, Bool.true_and,
        if_true]
      omega
  | warming ha hw =>
    simp only [remaining, blocked, ha, Bool.not_true, Bool.false_and, Bool.false_eq_true, if_false]
    omega
  | start ha hw =>
    rcases ha with ha | ha <;>
    · simp only [remaining, blocked, ha, act, Bool.not_true, Bool.false_and, Bool.false_eq_true,
        if_false]
      omega
  | unsent ha =>
    simp only [remaining, blocked, ha, Bool.not_false, decide_true, Bool.or_true, Bool.true_or,
      Bool.true_and, if_true]
    omega
  | data ha =>
    simp only [remaining, blocked, ha, act, Bool.not_true, Bool.false_and, Bool.false_eq_true,
      if_false]
    omega
  | drain ha hj =>
    simp [remaining, blocked, ha]
    omega
  | stop ha =>
    rw [Valid, ha] at h
    by_cases hN : N ≤ a.round + 1
    · simp [remaining, blocked, ha, hN]
      omega
    · simp [remaining, blocked, ha, hN]
      omega
  | cool ha hj =>
    have hne : ¬_ = 5 := Nat.ne_of_lt hj
    simp [remaining, blocked, ha, hne]
    omega

theorem blocked_of_finished {a : Proto} (h : a.phase = .finished) (m : Bool) :
    a.blocked m = false := by
  simp [blocked, h]

/-- **The length law.** -/
theorem time_add_remaining {N : ℕ} (hN : 1 ≤ N) (ms : List Bool) :
    (run (step N) {} ms).time + (run (step N) {} ms).remaining N
      = 13 * N + 45 + visits (step N) blocked {} ms := by
  induction ms using List.reverseRecOn with
  | nil =>
    simp only [run_nil, visits_nil, remaining]
    omega
  | append_singleton ms m ih =>
    rw [run_concat, visits_concat]
    by_cases hp : (run (step N) {} ms).phase = .finished
    · rw [step, if_pos hp, ih, blocked_of_finished hp]
      rfl
    · rw [remaining_step (valid_run hN ms) hp, ih, Nat.add_assoc]

theorem remaining_eq_zero_iff {N : ℕ} {a : Proto} (h : a.Valid N) :
    a.remaining N = 0 ↔ a.phase = .finished := by
  cases hp : a.phase with
  | draining j =>
    rw [Valid, hp] at h
    simp only [remaining, hp, reduceCtorEq, iff_false]
    omega
  | _ => simp [remaining, hp]

/-! ## The order of the log -/

/-- The acts of the first `r` rounds, in order. -/
def acts (r : ℕ) : List Act :=
  (List.range r).flatMap fun i : ℕ ↦ [.start (i + 1), .data (i + 1), .stop (i + 1)]

theorem acts_succ (r : ℕ) :
    acts (r + 1) = acts r ++ [.start (r + 1), .data (r + 1), .stop (r + 1)] := by
  rw [acts, List.range_succ, List.flatMap_append, List.flatMap_singleton, acts]

theorem acts_prefix {r s : ℕ} (h : r ≤ s) : acts r <+: acts s := by
  induction s, h using Nat.le_induction with
  | base => exact List.prefix_rfl
  | succ s _ ih =>
    rw [acts_succ]
    exact ih.trans (List.prefix_append _ _)

/-- What the phase says about the round under way. -/
def underway (a : Proto) : List Act :=
  match a.phase with
  | .streaming => [.start (a.round + 1)]
  | .draining _ => [.start (a.round + 1), .data (a.round + 1)]
  | _ => []

@[simp] theorem log_act (a : Proto) (e : Act) : (a.act e).log = a.log ++ [(a.time, e)] := rfl

theorem underway_of_armed {a : Proto} (h : a.Armed) : a.underway = [] := by
  rcases h with h | h <;> rw [underway, h]

/-- **The order law.** -/
theorem Move.log {N : ℕ} {m : Bool} {a b : Proto} (hmove : Move N a m b)
    (hlog : a.log.map Prod.snd = acts a.round ++ a.underway) :
    b.log.map Prod.snd = acts b.round ++ b.underway := by
  cases hmove with
  | idle => exact hlog
  | unannounced h =>
    rw [underway_of_armed h] at hlog
    exact hlog
  | warming h =>
    rw [underway, h] at hlog
    exact hlog
  | start h =>
    rw [underway_of_armed h, List.append_nil] at hlog
    simp only [log_act, List.map_append, hlog]
    rfl
  | unsent h =>
    rw [underway, h] at hlog ⊢
    exact hlog
  | data h =>
    rw [underway, h] at hlog
    simp only [log_act, List.map_append, hlog, List.append_assoc]
    rfl
  | drain h =>
    rw [underway, h] at hlog
    exact hlog
  | stop h =>
    rw [underway, h] at hlog
    have hnone : ∀ b : Proto, b.phase = (if N ≤ a.round + 1 then .finished else .cooling 0) →
        b.underway = [] := by
      intro b hb
      rw [underway, hb]
      split_ifs <;> rfl
    rw [hnone _ rfl, List.append_nil]
    simp only [log_act, List.map_append, hlog, acts_succ, List.append_assoc]
    rfl
  | cool h =>
    rw [underway, h] at hlog
    exact hlog

theorem log_run {N : ℕ} (hN : 1 ≤ N) (ms : List Bool) :
    (run (step N) {} ms).log.map Prod.snd
      = acts (run (step N) {} ms).round ++ (run (step N) {} ms).underway := by
  induction ms using List.reverseRecOn with
  | nil => rfl
  | append_singleton ms m ih =>
    rw [run_concat]
    exact (step_move (valid_run hN ms) m).log ih

theorem acts_append_underway_prefix {N : ℕ} {a : Proto} (h : a.Valid N) :
    acts a.round ++ a.underway <+: acts N := by
  have hlt : a.round < N → acts (a.round + 1) <+: acts N := acts_prefix
  cases hp : a.phase with
  | announcing =>
    rw [Valid, hp] at h
    rw [underway, hp, List.append_nil]
    exact acts_prefix (Nat.le_of_lt h)
  | streaming =>
    rw [Valid, hp] at h
    refine List.IsPrefix.trans ?_ (hlt h.1)
    rw [acts_succ, underway, hp, List.prefix_append_right_inj]
    exact ⟨[.data _, .stop _], rfl⟩
  | draining j =>
    rw [Valid, hp] at h
    refine List.IsPrefix.trans ?_ (hlt h.1)
    rw [acts_succ, underway, hp, List.prefix_append_right_inj]
    exact ⟨[.stop _], rfl⟩
  | cooling j =>
    rw [Valid, hp] at h
    rw [underway, hp, List.append_nil]
    exact acts_prefix (Nat.le_of_lt h.1)
  | finished =>
    rw [Valid, hp] at h
    rw [underway, hp, List.append_nil, h]

theorem log_prefix {N : ℕ} (hN : 1 ≤ N) (ms : List Bool) :
    (run (step N) {} ms).log.map Prod.snd <+: acts N := by
  rw [log_run hN]
  exact acts_append_underway_prefix (valid_run hN ms)

/-! ## The times of the log -/

/-- What the schedule `ms` says about the log: the protocol has run all of it or has finished, and
starts and data happen in matched cycles, the starts after the warm-up. -/
structure Timed (ms : List Bool) (a : Proto) : Prop where
  le : a.time ≤ ms.length
  eq : a.phase ≠ .finished → a.time = ms.length
  past : ∀ t e, (t, e) ∈ a.log → t < a.time
  warm : a.warm ≤ ms.count true
  start : ∀ t k, (t, .start k) ∈ a.log → ms[t]? = some true ∧ 50 ≤ (ms.take t).count true
  data : ∀ t k, (t, .data k) ∈ a.log → ms[t]? = some true

/-- A cycle without a log entry keeps the laws if it keeps the counters. -/
theorem Timed.quiet {ms : List Bool} {a b : Proto} (h : Timed ms a) (hp : a.phase ≠ .finished)
    (m : Bool) (hlog : b.log = a.log) (htime : b.time = a.time + 1)
    (hwarm : b.warm = a.warm ∨ m = true ∧ b.warm = a.warm + 1) : Timed (ms ++ [m]) b where
  le := by
    rw [htime, List.length_append, List.length_singleton]
    exact Nat.succ_le_succ h.le
  eq := by
    intro _
    rw [htime, h.eq hp, List.length_append, List.length_singleton]
  past := by
    intro t e hmem
    rw [hlog] at hmem
    rw [htime]
    exact Nat.lt_succ_of_lt (h.past t e hmem)
  warm := by
    rw [List.count_append, List.count_singleton]
    have := h.warm
    rcases hwarm with hwarm | ⟨rfl, hwarm⟩
    · omega
    · simp only [beq_self_eq_true, if_true]
      omega
  start := by
    intro t k hmem
    rw [hlog] at hmem
    obtain ⟨hm, hc⟩ := h.start t k hmem
    have hlt : t < ms.length := Nat.lt_of_lt_of_le (h.past t _ hmem) h.le
    rw [List.getElem?_append_left hlt, List.take_append_of_le_length (Nat.le_of_lt hlt)]
    exact ⟨hm, hc⟩
  data := by
    intro t k hmem
    rw [hlog] at hmem
    have hlt : t < ms.length := Nat.lt_of_lt_of_le (h.past t _ hmem) h.le
    rw [List.getElem?_append_left hlt]
    exact h.data t k hmem

/-- An entry made in this cycle keeps the laws if it keeps its own. -/
theorem Timed.entry {ms : List Bool} {a b : Proto} {e : Act} (h : Timed ms b)
    (ht : b.time = a.time + 1)
    (hstart : ∀ k, e = .start k → ms[a.time]? = some true ∧ 50 ≤ (ms.take a.time).count true)
    (hdata : ∀ k, e = .data k → ms[a.time]? = some true) :
    Timed ms { b with log := b.log ++ [(a.time, e)] } := by
  have hmem : ∀ t e', (t, e') ∈ b.log ++ [(a.time, e)] →
      (t, e') ∈ b.log ∨ t = a.time ∧ e' = e := by
    intro t e' he
    rwa [List.mem_append, List.mem_singleton, Prod.mk.injEq] at he
  refine ⟨h.le, h.eq, ?_, h.warm, ?_, ?_⟩
  · intro t e' he
    rcases hmem t e' he with he | ⟨rfl, -⟩
    · exact h.past t e' he
    · exact ht ▸ Nat.lt_succ_self a.time
  · intro t k he
    rcases hmem t _ he with he | ⟨rfl, heq⟩
    · exact h.start t k he
    · exact hstart k heq.symm
  · intro t k he
    rcases hmem t _ he with he | ⟨rfl, heq⟩
    · exact h.data t k he
    · exact hdata k heq.symm

theorem Timed.move {N : ℕ} {ms : List Bool} {m : Bool} {a b : Proto} (htimed : Timed ms a)
    (hmove : Move N a m b) : Timed (ms ++ [m]) b := by
  -- the schedule position of the new cycle
  have hpos : a.phase ≠ .finished → a.time = ms.length := htimed.eq
  have hnow : ∀ m' : Bool, a.phase ≠ .finished → (ms ++ [m'])[a.time]? = some m' := by
    intro m' hp
    rw [hpos hp, List.getElem?_concat_length]
  have hbefore : a.phase ≠ .finished → (ms ++ [m]).take a.time = ms := by
    intro hp
    rw [hpos hp, List.take_left]
  cases hmove with
  | idle h =>
    refine ⟨?_, fun hp ↦ absurd h hp, htimed.past, ?_, ?_, ?_⟩
    · rw [List.length_append]
      exact Nat.le_add_right_of_le htimed.le
    · rw [List.count_append]
      exact Nat.le_add_right_of_le htimed.warm
    · intro t k he
      have hlt' := Nat.lt_of_lt_of_le (htimed.past t _ he) htimed.le
      rw [List.getElem?_append_left hlt', List.take_append_of_le_length (Nat.le_of_lt hlt')]
      exact htimed.start t k he
    · intro t k he
      rw [List.getElem?_append_left (Nat.lt_of_lt_of_le (htimed.past t _ he) htimed.le)]
      exact htimed.data t k he
  | unannounced h => exact htimed.quiet (by rcases h with h | h <;> simp [h]) _ rfl rfl (.inl rfl)
  | warming h => exact htimed.quiet (by simp [h]) _ rfl rfl (.inr ⟨rfl, rfl⟩)
  | start h hw =>
    have hp : a.phase ≠ .finished := by rcases h with h | h <;> simp [h]
    have hq := htimed.quiet (b := { a with
      phase := .streaming, warm := a.warm + 1, time := a.time + 1 }) hp true rfl rfl
      (.inr ⟨rfl, rfl⟩)
    refine hq.entry (a := a) rfl (fun k _ ↦ ⟨hnow true hp, ?_⟩) (by simp)
    rw [hbefore hp]
    exact Nat.le_trans hw htimed.warm
  | unsent h => exact htimed.quiet (by simp [h]) _ rfl rfl (.inl rfl)
  | data h =>
    have hp : a.phase ≠ .finished := by simp [h]
    have hq := htimed.quiet (b := { a with phase := .draining 0, time := a.time + 1 }) hp true rfl
      rfl (.inl rfl)
    exact hq.entry (a := a) rfl (by simp) fun k _ ↦ hnow true hp
  | drain h => exact htimed.quiet (by simp [h]) _ rfl rfl (.inl rfl)
  | stop h =>
    have hp : a.phase ≠ .finished := by simp [h]
    have hq := htimed.quiet (b := { a with
      round := a.round + 1
      phase := if N ≤ a.round + 1 then .finished else .cooling 0
      time := a.time + 1 }) hp m rfl rfl (.inl rfl)
    exact hq.entry (a := a) rfl (by simp) (by simp)
  | cool h => exact htimed.quiet (by simp [h]) _ rfl rfl (.inl rfl)

theorem timed_run {N : ℕ} (hN : 1 ≤ N) (ms : List Bool) : Timed ms (run (step N) {} ms) := by
  induction ms using List.reverseRecOn with
  | nil => exact ⟨Nat.le_refl 0, fun _ ↦ rfl, by simp, Nat.le_refl 0, by simp, by simp⟩
  | append_singleton ms m ih =>
    rw [run_concat]
    exact ih.move (step_move (valid_run hN ms) m)

/-- The protocol finishes if the schedule is long enough to make up for its missing matches. -/
theorem finished_of_length {N : ℕ} (hN : 1 ≤ N) {ms : List Bool}
    (h : 13 * N + 45 + ms.countP (!·) ≤ ms.length) : (run (step N) {} ms).phase = .finished := by
  by_contra hp
  have htime := time_add_remaining hN ms
  have hpos : (run (step N) {} ms).remaining N ≠ 0 :=
    (remaining_eq_zero_iff (valid_run hN ms)).not.mpr hp
  have hlost : visits (step N) blocked {} ms ≤ ms.countP (!·) :=
    visits_le_countP (fun a m hb ↦ by rw [blocked, Bool.and_eq_true] at hb; exact hb.1) _ _
  rw [(timed_run hN ms).eq hp] at htime
  omega

/-- The waiting times: a stop comes six cycles after the data of its round, and the start of the
next round six cycles after that at the earliest. -/
structure Spaced (a : Proto) : Prop where
  past : ∀ t e, (t, e) ∈ a.log → t < a.time
  stop : ∀ t k, (t, .stop k) ∈ a.log → ∃ t', t = t' + 6 ∧ (t', .data k) ∈ a.log
  data : ∀ t k, (t, .data k) ∈ a.log → (t + 6, .stop k) ∈ a.log ∨
    k = a.round + 1 ∧ ∃ j, a.phase = .draining j ∧ a.time = t + 1 + j
  next : ∀ t t' k, (t, .stop k) ∈ a.log → (t', .start (k + 1)) ∈ a.log → t + 6 ≤ t'
  known : ∀ t, ∀ k : ℤ, (t, .start k) ∈ a.log → k ≤ a.round + 1
  done : ∀ t, ∀ k : ℤ, (t, .stop k) ∈ a.log → k ≤ a.round
  last : a.phase = .finished → ∀ t, (t, .stop a.round) ∈ a.log → a.time = t + 1
  draining : ∀ j, a.phase = .draining j → ∃ t, (t, .data (a.round + 1)) ∈ a.log ∧
    a.time = t + 1 + j
  cooling : ∀ j, a.phase = .cooling j → ∀ t k, (t, .stop k) ∈ a.log → t + 1 + j ≤ a.time
  announcing : a.phase = .announcing → ∀ t k, (t, .stop k) ∈ a.log → t + 6 ≤ a.time

theorem mem_log_act {a : Proto} {e e' : Act} {t : ℕ} :
    (t, e') ∈ (a.act e).log ↔ (t, e') ∈ a.log ∨ t = a.time ∧ e' = e := by
  rw [log_act, List.mem_append, List.mem_singleton, Prod.mk.injEq]

namespace Spaced

variable {a b : Proto}

/-- When an announcement is due, every stop is six cycles back. -/
theorem armed (h : a.Spaced) (ha : a.Armed) {t : ℕ} {k : ℤ} (he : (t, .stop k) ∈ a.log) :
    t + 6 ≤ a.time := by
  rcases ha with ha | ha
  · exact h.announcing ha t k he
  · exact h.cooling 5 ha t k he

/-- A cycle without a log entry counts the waiting on, or leaves it when it is over. -/
theorem quiet (h : a.Spaced) (hlog : b.log = a.log) (hround : b.round = a.round)
    (htime : b.time = a.time + 1) (hp : b.phase ≠ .finished)
    (hdrain : ∀ i, a.phase = .draining i → b.phase = .draining (i + 1))
    (hdraining : ∀ j, b.phase = .draining j → ∃ i, a.phase = .draining i ∧ j = i + 1)
    (hcooling : ∀ j, b.phase = .cooling j → ∃ i, a.phase = .cooling i ∧ j = i + 1)
    (hannouncing : b.phase = .announcing → a.Armed) : b.Spaced where
  past t e he := by
    rw [hlog] at he
    rw [htime]
    exact Nat.lt_succ_of_lt (h.past t e he)
  stop t k he := by
    rw [hlog] at he ⊢
    exact h.stop t k he
  data t k he := by
    rw [hlog] at he ⊢
    rw [hround, htime]
    obtain hstop | ⟨hk, i, hi, ht⟩ := h.data t k he
    · exact .inl hstop
    · exact .inr ⟨hk, i + 1, hdrain i hi, congrArg (· + 1) ht⟩
  next t t' k he he' := by
    rw [hlog] at he he'
    exact h.next t t' k he he'
  known t k he := by
    rw [hlog] at he
    rw [hround]
    exact h.known t k he
  done t k he := by
    rw [hlog] at he
    rw [hround]
    exact h.done t k he
  last hfinished := absurd hfinished hp
  draining j hj := by
    obtain ⟨i, hi, rfl⟩ := hdraining j hj
    obtain ⟨t, hdata, ht⟩ := h.draining i hi
    rw [hlog, hround, htime]
    exact ⟨t, hdata, congrArg (· + 1) ht⟩
  cooling j hj t k he := by
    obtain ⟨i, hi, rfl⟩ := hcooling j hj
    rw [hlog] at he
    rw [htime]
    exact Nat.succ_le_succ (h.cooling i hi t k he)
  announcing hphase t k he := by
    rw [hlog] at he
    rw [htime]
    exact Nat.le_succ_of_le (h.armed (hannouncing hphase) he)

theorem past_act {e : Act} (h : a.Spaced) (hlog : b.log = (a.act e).log)
    (htime : b.time = a.time + 1) (t : ℕ) (e' : Act) (he : (t, e') ∈ b.log) : t < b.time := by
  rw [hlog, mem_log_act] at he
  rw [htime]
  rcases he with he | ⟨rfl, -⟩
  · exact Nat.lt_succ_of_lt (h.past t e' he)
  · exact Nat.lt_succ_self _

/-- The start of the next round. -/
theorem started (h : a.Spaced) (ha : a.Armed) (hlog : b.log = (a.act (.start (a.round + 1))).log)
    (hround : b.round = a.round) (htime : b.time = a.time + 1) (hp : b.phase = .streaming) :
    b.Spaced := by
  have hdata : ∀ t k, (t, .data k) ∈ b.log ↔ (t, .data k) ∈ a.log := by
    simp [hlog]
  have hstop : ∀ t k, (t, .stop k) ∈ b.log ↔ (t, .stop k) ∈ a.log := by
    simp [hlog]
  refine ⟨?_, ?_, ?_, ?_, ?_, ?_, by simp [hp], by simp [hp], by simp [hp], by simp [hp]⟩
  · exact h.past_act hlog htime
  · intro t k he
    obtain ⟨t', ht, hmem⟩ := h.stop t k ((hstop t k).mp he)
    exact ⟨t', ht, (hdata t' k).mpr hmem⟩
  · intro t k he
    obtain hmem | ⟨-, i, hi, -⟩ := h.data t k ((hdata t k).mp he)
    · exact .inl ((hstop _ k).mpr hmem)
    · -- no round waits for its stop when a start is due
      exact absurd hi (ha.ne_draining i)
  · intro t t' k he he'
    rw [hlog, mem_log_act] at he'
    rcases he' with he' | ⟨rfl, -⟩
    · exact h.next t t' k ((hstop t k).mp he) he'
    · exact h.armed ha ((hstop t k).mp he)
  · intro t k he
    rw [hlog, mem_log_act] at he
    rw [hround]
    rcases he with he | ⟨-, heq⟩
    · exact h.known t k he
    · exact Int.le_of_eq (Act.start.inj heq)
  · intro t k he
    rw [hround]
    exact h.done t k ((hstop t k).mp he)

/-- The data of a round. -/
theorem sent (h : a.Spaced) (ha : a.phase = .streaming)
    (hlog : b.log = (a.act (.data (a.round + 1))).log) (hround : b.round = a.round)
    (htime : b.time = a.time + 1) (hp : b.phase = .draining 0) : b.Spaced := by
  have hstart : ∀ t k, (t, .start k) ∈ b.log ↔ (t, .start k) ∈ a.log := by
    simp [hlog]
  have hstop : ∀ t k, (t, .stop k) ∈ b.log ↔ (t, .stop k) ∈ a.log := by
    simp [hlog]
  refine ⟨?_, ?_, ?_, ?_, ?_, ?_, by simp [hp], ?_, by simp [hp], by simp [hp]⟩
  · exact h.past_act hlog htime
  · intro t k he
    obtain ⟨t', ht, hmem⟩ := h.stop t k ((hstop t k).mp he)
    exact ⟨t', ht, by rw [hlog, mem_log_act]; exact .inl hmem⟩
  · intro t k he
    rw [hlog, mem_log_act] at he
    rcases he with he | ⟨rfl, heq⟩
    · obtain hmem | ⟨-, i, hi, -⟩ := h.data t k he
      · exact .inl ((hstop _ k).mpr hmem)
      · exact absurd (ha.symm.trans hi) (by simp)
    · rw [hround]
      exact .inr ⟨Act.data.inj heq, 0, hp, htime⟩
  · intro t t' k he he'
    exact h.next t t' k ((hstop t k).mp he) ((hstart t' _).mp he')
  · intro t k he
    rw [hround]
    exact h.known t k ((hstart t k).mp he)
  · intro t k he
    rw [hround]
    exact h.done t k ((hstop t k).mp he)
  · intro j hj
    obtain rfl := Phase.draining.inj (hp.symm.trans hj)
    rw [hround]
    exact ⟨a.time, by rw [hlog, mem_log_act]; exact .inr ⟨rfl, rfl⟩, htime⟩

/-- The stop of a round, six cycles after its data. -/
theorem stopped (h : a.Spaced) (ha : a.phase = .draining 5)
    (hlog : b.log = (a.act (.stop (a.round + 1))).log) (hround : b.round = a.round + 1)
    (htime : b.time = a.time + 1) (hp : b.phase = .finished ∨ b.phase = .cooling 0) :
    b.Spaced := by
  have hstart : ∀ t k, (t, .start k) ∈ b.log ↔ (t, .start k) ∈ a.log := by
    simp [hlog]
  have hdata : ∀ t k, (t, .data k) ∈ b.log ↔ (t, .data k) ∈ a.log := by
    simp [hlog]
  have hstop : ∀ (t : ℕ) (k : ℤ), (t, .stop k) ∈ b.log ↔
      (t, .stop k) ∈ a.log ∨ t = a.time ∧ k = a.round + 1 := by
    simp [hlog]
  have hcast : (b.round : ℤ) = a.round + 1 := by omega
  refine ⟨?_, ?_, ?_, ?_, ?_, ?_, ?_, ?_, ?_, ?_⟩
  · exact h.past_act hlog htime
  · intro t k he
    rcases (hstop t k).mp he with he | ⟨rfl, rfl⟩
    · obtain ⟨t', ht, hmem⟩ := h.stop t k he
      exact ⟨t', ht, (hdata t' k).mpr hmem⟩
    · obtain ⟨t', hmem, ht⟩ := h.draining 5 ha
      exact ⟨t', ht, (hdata t' _).mpr hmem⟩
  · intro t k he
    refine .inl ((hstop _ k).mpr ?_)
    obtain hmem | ⟨hk, i, hi, ht⟩ := h.data t k ((hdata t k).mp he)
    · exact .inl hmem
    · obtain rfl := Phase.draining.inj (ha.symm.trans hi)
      exact .inr ⟨ht.symm, hk⟩
  · intro t t' k he he'
    have hstarted := (hstart t' _).mp he'
    rcases (hstop t k).mp he with he | ⟨-, rfl⟩
    · exact h.next t t' k he hstarted
    · -- the round after this one has not been announced
      have hknown := h.known t' _ hstarted
      omega
  · intro t k he
    have hknown := h.known t k ((hstart t k).mp he)
    omega
  · intro t k he
    rcases (hstop t k).mp he with he | ⟨-, rfl⟩
    · have hdone := h.done t k he
      omega
    · exact Int.le_of_eq hcast.symm
  · intro _ t he
    rcases (hstop t _).mp he with he | ⟨rfl, -⟩
    · have hdone := h.done t _ he
      omega
    · exact htime
  · intro j hj
    rcases hp with hp | hp
    · exact absurd (hp.symm.trans hj) (by simp)
    · exact absurd (hp.symm.trans hj) (by simp)
  · intro j hj t k he
    obtain rfl : 0 = j := by
      rcases hp with hp | hp
      · exact absurd (hp.symm.trans hj) (by simp)
      · exact Phase.cooling.inj (hp.symm.trans hj)
    rw [htime]
    rcases (hstop t k).mp he with he | ⟨rfl, -⟩
    · exact Nat.le_succ_of_le (h.past t _ he)
    · exact Nat.le_refl _
  · intro hannouncing
    rcases hp with hp | hp
    · exact absurd (hp.symm.trans hannouncing) (by simp)
    · exact absurd (hp.symm.trans hannouncing) (by simp)

theorem move {N : ℕ} {m : Bool} (h : a.Spaced) (hmove : Move N a m b) : b.Spaced := by
  cases hmove with
  | idle => exact h
  | unannounced ha =>
    exact h.quiet rfl rfl rfl (by simp) (fun i hi ↦ absurd hi (ha.ne_draining i)) (by simp)
      (by simp) fun _ ↦ ha
  | warming ha =>
    exact h.quiet rfl rfl rfl (by simp) (by simp [ha]) (by simp) (by simp) fun _ ↦ .inl ha
  | start ha => exact h.started ha rfl rfl rfl rfl
  | unsent ha =>
    exact h.quiet rfl rfl rfl (by simp [ha]) (by simp [ha]) (by simp [ha]) (by simp [ha])
      (by simp [ha])
  | data ha => exact h.sent ha rfl rfl rfl rfl
  | drain ha =>
    exact h.quiet rfl rfl rfl (by simp) (by simp [ha]) (by simp [ha]) (by simp) (by simp)
  | stop ha =>
    refine h.stopped ha rfl rfl rfl ?_
    split_ifs
    · exact .inl rfl
    · exact .inr rfl
  | cool ha =>
    exact h.quiet rfl rfl rfl (by simp) (by simp [ha]) (by simp) (by simp [ha]) (by simp)

end Spaced

theorem spaced_run {N : ℕ} (hN : 1 ≤ N) (ms : List Bool) : Spaced (run (step N) {} ms) := by
  induction ms using List.reverseRecOn with
  | nil => constructor <;> simp
  | append_singleton ms m ih =>
    rw [run_concat]
    exact ih.move (step_move (valid_run hN ms) m)

theorem countP_acts (r : ℕ) : (acts r).countP Act.isData = r := by
  induction r with
  | zero => rfl
  | succ r ih =>
    rw [acts_succ, List.countP_append, ih]
    rfl

/-- The data steps in the log. -/
theorem countP_log_run {N : ℕ} (hN : 1 ≤ N) (ms : List Bool) :
    (run (step N) {} ms).log.countP (fun e ↦ e.2.isData)
      = (run (step N) {} ms).round + (run (step N) {} ms).underway.countP Act.isData := by
  have hlog := congrArg (List.countP Act.isData) (log_run hN ms)
  rw [List.countP_map, List.countP_append, countP_acts] at hlog
  exact hlog

theorem countP_log_of_streaming {N : ℕ} (hN : 1 ≤ N) {ms : List Bool}
    (h : (run (step N) {} ms).phase = .streaming) :
    (run (step N) {} ms).log.countP (fun e ↦ e.2.isData) = (run (step N) {} ms).round := by
  rw [countP_log_run hN, underway, h]
  rfl

theorem countP_log_of_draining {N j : ℕ} (hN : 1 ≤ N) {ms : List Bool}
    (h : (run (step N) {} ms).phase = .draining j) :
    (run (step N) {} ms).log.countP (fun e ↦ e.2.isData) = (run (step N) {} ms).round + 1 := by
  rw [countP_log_run hN, underway, h]
  rfl

theorem mem_acts {r : ℕ} {x : Act} : x ∈ acts r ↔ 1 ≤ x.round ∧ x.round ≤ r := by
  simp only [acts, List.mem_flatMap, List.mem_range, List.mem_cons, List.not_mem_nil, or_false]
  constructor
  · rintro ⟨i, hi, rfl | rfl | rfl⟩ <;> (rw [Act.round]; omega)
  · rintro ⟨h1, hr⟩
    have hround : ((x.round - 1).toNat : ℤ) + 1 = x.round := by omega
    refine ⟨(x.round - 1).toNat, by omega, ?_⟩
    rw [hround]
    rcases x with k | k | k <;> simp [Act.round]

/-- No data without a start. -/
theorem start_of_data {a : Proto} {k : ℤ} (h : .data k ∈ acts a.round ++ a.underway) :
    .start k ∈ acts a.round ++ a.underway := by
  rw [List.mem_append] at h ⊢
  rcases h with h | h
  · exact .inl ((mem_acts (x := .start k)).mpr ((mem_acts (x := .data k)).mp h))
  · refine .inr ?_
    cases hp : a.phase with
    | draining j =>
      rw [underway, hp] at h ⊢
      simp only [List.mem_cons, reduceCtorEq, Act.data.injEq, List.not_mem_nil, or_false,
        false_or] at h
      rw [h]
      exact List.mem_cons_self
    | _ =>
      rw [underway, hp] at h
      simp at h

theorem log_run_of_finished {N : ℕ} (hN : 1 ≤ N) {ms : List Bool}
    (h : (run (step N) {} ms).phase = .finished) :
    (run (step N) {} ms).log.map Prod.snd = acts N := by
  have hv := valid_run hN ms
  rw [Valid, h] at hv
  rw [log_run hN, underway, h, hv, List.append_nil]

/-- The protocol finishes with the stop of the last round. -/
theorem finished_iff {N : ℕ} (hN : 1 ≤ N) (ms : List Bool) :
    (run (step N) {} ms).phase = .finished ↔ ∃ t, (t, .stop N) ∈ (run (step N) {} ms).log := by
  have hv := valid_run hN ms
  have hlog := log_run hN ms
  have hdone := (spaced_run hN ms).done
  generalize run (step N) {} ms = a at hv hlog hdone ⊢
  constructor
  · intro hp
    rw [Valid, hp] at hv
    rw [underway, hp, List.append_nil, hv] at hlog
    have hmem : .stop N ∈ a.log.map Prod.snd := by
      rw [hlog, mem_acts, Act.round]
      omega
    obtain ⟨⟨t, e⟩, ht, rfl⟩ := List.mem_map.mp hmem
    exact ⟨t, ht⟩
  · rintro ⟨t, ht⟩
    have hle := hdone t N ht
    cases hp : a.phase with
    | finished => rfl
    | _ =>
      rw [Valid, hp] at hv
      omega

/-- The stop of a round has come, once the schedule reaches its cycle. -/
theorem stop_of_data {N : ℕ} (hN : 1 ≤ N) {ms : List Bool} {t : ℕ} {k : ℤ}
    (hmem : (t, .data k) ∈ (run (step N) {} ms).log) (hlen : t + 6 < ms.length) :
    (t + 6, .stop k) ∈ (run (step N) {} ms).log := by
  obtain hstop | ⟨-, j, hj, htime⟩ := (spaced_run hN ms).data t k hmem
  · exact hstop
  · have hv := valid_run hN ms
    rw [Valid, hj] at hv
    rw [(timed_run hN ms).eq (by rw [hj]; simp)] at htime
    omega

/-- Nothing follows the cycle of the last stop. -/
theorem time_of_last_stop {N : ℕ} (hN : 1 ≤ N) {ms : List Bool} {t : ℕ}
    (hmem : (t, .stop N) ∈ (run (step N) {} ms).log) : (run (step N) {} ms).time = t + 1 := by
  have hfinished := (finished_iff hN ms).mpr ⟨t, hmem⟩
  have hv := valid_run hN ms
  rw [Valid, hfinished] at hv
  refine (spaced_run hN ms).last hfinished t ?_
  rw [hv]
  exact hmem

end Proto

end IndraDds
