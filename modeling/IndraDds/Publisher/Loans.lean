import IndraDds.Foundation.Loans
import IndraDds.Publisher.Samples

/-!
# The loans of the publisher

`FastPub::publish_loan` asks the writer for a buffer, writes a fresh id into it and publishes it,
`count` times over. It gives up when no buffer is to be had, in which case no id is used, or when
the write is rejected, in which case the id is gone and the buffer is handed back.

`publishLoanLoop_eq` says all of this about one call. What the call wrote before it gave up, how its
loans were settled and which ids it used are read off the calls it lists.
-/

namespace IndraDds

open Loans

/-! ## Reading the record of a write phase -/

/-- The sample a call tried to put on the wire. -/
def WriterCall.attemptedSample : WriterCall → Option AirEntity
  | .write _ entity _ => some entity
  | _ => none

def attempted (calls : List WriterCall) : List AirEntity :=
  calls.filterMap WriterCall.attemptedSample

/-- `loan_sample` or `write` did not succeed. -/
def WriterCall.Failed : WriterCall → Prop
  | .loanSample _ ret => ret ≠ RETCODE_OK
  | .write _ _ ret => ret ≠ RETCODE_OK
  | .discardLoan _ _ => False

/-- The effect of a call on the loans of the writer: an accepted write takes the buffer over, and
so does an attempt to discard it. -/
def WriterCall.loanAct : WriterCall → Loans.Act ℕ
  | .loanSample buffer ret => if ret = RETCODE_OK then .take buffer else .other
  | .write (some buffer) _ ret => if ret = RETCODE_OK then .settle buffer else .other
  | .write none _ _ => .other
  | .discardLoan buffer _ => .settle buffer

/-- The samples accepted are some of those attempted, in their order. -/
theorem accepted_sublist_attempted (calls : List WriterCall) :
    (accepted calls).Sublist (attempted calls) := by
  induction calls with
  | nil => exact .slnil
  | cons c calls ih =>
    rw [accepted, attempted, List.filterMap_cons, List.filterMap_cons]
    rcases c with ⟨b, ret⟩ | ⟨b, entity, ret⟩ | ⟨b, ret⟩
    · exact ih
    · by_cases h : ret = RETCODE_OK
      · simp only [WriterCall.acceptedSample, WriterCall.attemptedSample, if_pos h]
        exact ih.cons_cons entity
      · simp only [WriterCall.acceptedSample, WriterCall.attemptedSample, if_neg h]
        exact ih.cons entity
    · exact ih

theorem attempted_append (calls calls' : List WriterCall) :
    attempted (calls ++ calls') = attempted calls ++ attempted calls' :=
  List.filterMap_append

theorem entitiesFrom_append (first : ℤ) (m n : ℕ) :
    entitiesFrom first m ++ entitiesFrom (first + m) n = entitiesFrom first (m + n) := by
  induction m generalizing first with
  | zero => rw [Nat.cast_zero, add_zero, Nat.zero_add]; rfl
  | succ m ih =>
    rw [entitiesFrom_succ, List.cons_append, show first + ((m + 1 : ℕ) : ℤ) = first + 1 + m by
      push_cast; ring, ih, Nat.succ_add, entitiesFrom_succ]

theorem pairwise_entitiesFrom (first : ℤ) (n : ℕ) :
    (entitiesFrom first n).Pairwise fun e e' ↦ e.id < e'.id := by
  rw [entitiesFrom, List.pairwise_map]
  exact List.pairwise_lt_range.imp fun h ↦ by simpa using h

/-! ## One call -/

namespace FastPub

/-- The calls of `m` iterations in which everything succeeds, from iteration `i` and id `id` on. -/
def writtenCalls : (m i : ℕ) → (id : ℤ) → List WriterCall
  | 0, _, _ => []
  | m + 1, i, id =>
    .loanSample i RETCODE_OK :: .write (some i) { id := id } RETCODE_OK
      :: writtenCalls m (i + 1) (id + 1)

/-- The calls of the iteration in which `publish_loan` gives up, and the number of ids it uses. -/
inductive GivesUp (i : ℕ) (id : ℤ) : List WriterCall → ℕ → Prop
  | noBuffer {ret : ReturnCode} (h : ret ≠ RETCODE_OK) : GivesUp i id [.loanSample i ret] 0
  | rejected {ret : ReturnCode} (h : ret ≠ RETCODE_OK) (discarded : ReturnCode) :
    GivesUp i id [.loanSample i RETCODE_OK, .write (some i) { id := id } ret,
      .discardLoan i discarded] 1

/-- **What `publish_loan` does**: it writes the whole batch, or a part of it before it gives up. -/
theorem publishLoanLoop_eq (a : WriterAnswers) (k i : ℕ) (p : FastPub) :
    publishLoanLoop a k i p
        = (true, { p with currentId := p.currentId + k }, writtenCalls k i p.currentId)
      ∨ ∃ m last used, m < k ∧ GivesUp (i + m) (p.currentId + m) last used
        ∧ publishLoanLoop a k i p = (false, { p with currentId := p.currentId + m + used },
          writtenCalls m i p.currentId ++ last) := by
  induction k generalizing i p with
  | zero =>
    left
    rw [publishLoanLoop, writtenCalls, Nat.cast_zero, add_zero]
  | succ k ih =>
    rw [publishLoanLoop]
    by_cases hloan : a.loanSample i = RETCODE_OK
    · rw [if_neg (not_not.mpr hloan), hloan]
      by_cases hwrite : a.write i = RETCODE_OK
      · rw [if_neg (not_not.mpr hwrite), hwrite]
        rcases ih (i + 1) { p with currentId := p.currentId + 1 } with hall | hsome
        · left
          rw [hall]
          simp only [writtenCalls, Nat.cast_succ]
          congr 3
          ring
        · obtain ⟨m, last, used, hm, hlast, hloop⟩ := hsome
          right
          refine ⟨m + 1, last, used, by omega, ?_, ?_⟩
          · rw [show i + (m + 1) = i + 1 + m by omega,
              show p.currentId + ((m + 1 : ℕ) : ℤ) = p.currentId + 1 + m by push_cast; ring]
            exact hlast
          · rw [hloop]
            simp only [writtenCalls, Nat.cast_succ, List.cons_append, List.nil_append]
            congr 3
            ring
      · right
        rw [if_pos hwrite]
        refine ⟨0, _, 1, by omega, .rejected hwrite (a.discardLoan i), ?_⟩
        simp [writtenCalls]
    · right
      rw [if_pos hloan]
      refine ⟨0, _, 0, by omega, .noBuffer hloan, ?_⟩
      simp [writtenCalls]

/-! ### What the calls of an iteration amount to -/

theorem accepted_writtenCalls (m i : ℕ) (id : ℤ) :
    accepted (writtenCalls m i id) = entitiesFrom id m := by
  induction m generalizing i id with
  | zero => rfl
  | succ m ih =>
    rw [entitiesFrom_succ, ← ih (i + 1)]
    rfl

theorem attempted_writtenCalls (m i : ℕ) (id : ℤ) :
    attempted (writtenCalls m i id) = entitiesFrom id m := by
  induction m generalizing i id with
  | zero => rfl
  | succ m ih =>
    rw [entitiesFrom_succ, ← ih (i + 1)]
    rfl

theorem balanced_writtenCalls (m i : ℕ) (id : ℤ) :
    Balanced ((writtenCalls m i id).map WriterCall.loanAct) := by
  induction m generalizing i id with
  | zero => exact .nil
  | succ m ih => exact (Balanced.pair i).append (ih (i + 1) (id + 1))

theorem not_failed_writtenCalls {m i : ℕ} {id : ℤ} {c : WriterCall}
    (h : c ∈ writtenCalls m i id) : ¬c.Failed := by
  induction m generalizing i id with
  | zero => exact absurd h List.not_mem_nil
  | succ m ih =>
    rw [writtenCalls, List.mem_cons, List.mem_cons] at h
    rcases h with rfl | rfl | h
    · exact not_not.mpr rfl
    · exact not_not.mpr rfl
    · exact ih h

theorem count_take_writtenCalls (b m i : ℕ) (id : ℤ) :
    ((writtenCalls m i id).map WriterCall.loanAct).count (.take b)
      = if i ≤ b ∧ b < i + m then 1 else 0 := by
  induction m generalizing i id with
  | zero => rw [if_neg (by omega)]; rfl
  | succ m ih =>
    have hstep : (writtenCalls (m + 1) i id).map WriterCall.loanAct
        = .take i :: .settle i :: (writtenCalls m (i + 1) (id + 1)).map WriterCall.loanAct := rfl
    rw [hstep, List.count_cons, List.count_cons_of_ne (by simp), ih]
    simp only [beq_iff_eq, Loans.Act.take.injEq]
    split_ifs <;> omega

theorem GivesUp.accepted_eq {i used : ℕ} {id : ℤ} {last : List WriterCall}
    (h : GivesUp i id last used) : accepted last = [] := by
  rcases h with h | ⟨h, discarded⟩
  · rfl
  · simp [accepted, WriterCall.acceptedSample, h]

theorem GivesUp.attempted_eq {i used : ℕ} {id : ℤ} {last : List WriterCall}
    (h : GivesUp i id last used) : attempted last = entitiesFrom id used := by
  rcases h with h | ⟨h, discarded⟩
  · rfl
  · rw [entitiesFrom_succ]
    rfl

theorem GivesUp.balanced {i used : ℕ} {id : ℤ} {last : List WriterCall}
    (h : GivesUp i id last used) : Balanced (last.map WriterCall.loanAct) := by
  rcases h with h | ⟨h, discarded⟩
  · simp only [List.map_cons, List.map_nil, WriterCall.loanAct, if_neg h]
    exact .other .nil
  · simp only [List.map_cons, List.map_nil, WriterCall.loanAct, if_neg h, if_true]
    exact Balanced.loan i (List.forall_mem_singleton.mpr rfl) .nil

theorem GivesUp.count_take {i used : ℕ} {id : ℤ} {last : List WriterCall}
    (h : GivesUp i id last used) (b : ℕ) :
    (last.map WriterCall.loanAct).count (.take b) ≤ if b = i then 1 else 0 := by
  rcases h with h | ⟨h, discarded⟩
  · simp [WriterCall.loanAct, h]
  · by_cases hb : i = b <;> simp [WriterCall.loanAct, h, hb, Ne.symm]

/-- Behind a failed call comes nothing, or the attempt to discard the buffer it was about. -/
theorem GivesUp.stops {i used : ℕ} {id : ℤ} {last pre post : List WriterCall} {c : WriterCall}
    (h : GivesUp i id last used) (hlast : last = pre ++ c :: post) (hc : c.Failed) :
    post = [] ∨ ∃ b entity ret ret', c = .write (some b) entity ret
      ∧ post = [.discardLoan b ret'] := by
  rcases h with h | ⟨h, discarded⟩
  · left
    rcases pre with _ | ⟨x, pre⟩
    · exact (List.cons.inj hlast).2.symm
    · exact absurd (List.cons.inj hlast).2 (by simp)
  · rcases pre with _ | ⟨x, _ | ⟨y, pre⟩⟩
    · obtain ⟨rfl, -⟩ := List.cons.inj hlast
      exact absurd rfl hc
    · obtain ⟨-, htail⟩ := List.cons.inj hlast
      obtain ⟨rfl, hpost⟩ := List.cons.inj htail
      exact .inr ⟨i, { id := id }, _, discarded, rfl, hpost.symm⟩
    · left
      obtain ⟨-, htail⟩ := List.cons.inj (List.cons.inj hlast).2
      rcases pre with _ | ⟨z, pre⟩
      · exact (List.cons.inj htail).2.symm
      · exact absurd (List.cons.inj htail).2 (by simp)

/-- The calls of a batch that is given up, behind the first that failed. -/
theorem GivesUp.stops_behind {i used m first : ℕ} {id id' : ℤ} {last pre post : List WriterCall}
    {c : WriterCall} (h : GivesUp i id last used)
    (hcalls : writtenCalls m first id' ++ last = pre ++ c :: post) (hc : c.Failed) :
    post = [] ∨ ∃ b entity ret ret', c = .write (some b) entity ret
      ∧ post = [.discardLoan b ret'] := by
  rcases List.append_eq_append_iff.mp hcalls with ⟨mid, hmid, hpost⟩ | ⟨mid, hmid, hpost⟩
  · exact h.stops hpost hc
  · -- a call that failed is none of those that succeeded
    rcases mid with _ | ⟨c', mid⟩
    · have hfirst : last = [] ++ c :: post := hpost.symm
      exact h.stops hfirst hc
    · obtain ⟨rfl, -⟩ := List.cons.inj hpost
      have hmem : c ∈ writtenCalls m first id' := by
        rw [hmid]
        exact List.mem_append_right pre List.mem_cons_self
      exact absurd hc (not_failed_writtenCalls hmem)

/-! ### The laws of a call -/

/-- What one call of `publish_loan` keeps to, whatever the writer answers. -/
structure LoanPhase (a : WriterAnswers) (count : ℕ) (p : FastPub) : Prop where
  complete : (p.publishLoan a count).1 = true
    ↔ (accepted (p.publishLoan a count).2.2).length = count
  written : accepted (p.publishLoan a count).2.2 <+: entitiesFrom p.currentId count
  balanced : Balanced ((p.publishLoan a count).2.2.map WriterCall.loanAct)
  once : ∀ b, ((p.publishLoan a count).2.2.map WriterCall.loanAct).count (.take b) ≤ 1
  stops : ∀ pre c post, (p.publishLoan a count).2.2 = pre ++ c :: post → c.Failed →
    post = [] ∨ ∃ b entity ret ret', c = .write (some b) entity ret
      ∧ post = [.discardLoan b ret']

theorem length_entitiesFrom (first : ℤ) (n : ℕ) : (entitiesFrom first n).length = n := by
  rw [entitiesFrom, List.length_map, List.length_range]

theorem entitiesFrom_prefix (first : ℤ) {m n : ℕ} (h : m ≤ n) :
    entitiesFrom first m <+: entitiesFrom first n := by
  obtain ⟨k, rfl⟩ := Nat.exists_eq_add_of_le h
  exact ⟨_, entitiesFrom_append first m k⟩

theorem loanPhase (a : WriterAnswers) (count : ℕ) (p : FastPub) : LoanPhase a count p := by
  have hloop : p.publishLoan a count = publishLoanLoop a count 0 p := rfl
  rcases publishLoanLoop_eq a count 0 p with hall | ⟨m, last, used, hm, hlast, hsome⟩
  · have hr := hloop.trans hall
    refine ⟨?_, ?_, ?_, ?_, ?_⟩ <;> rw [hr]
    · simp [accepted_writtenCalls, length_entitiesFrom]
    · rw [accepted_writtenCalls]
    · exact balanced_writtenCalls _ _ _
    · intro b
      rw [count_take_writtenCalls]
      split_ifs <;> omega
    · intro pre c post hcalls hc
      have hsplit : writtenCalls count 0 p.currentId = pre ++ c :: post := hcalls
      have hmem : c ∈ writtenCalls count 0 p.currentId := by
        rw [hsplit]
        exact List.mem_append_right pre List.mem_cons_self
      exact absurd hc (not_failed_writtenCalls hmem)
  · have hr := hloop.trans hsome
    rw [Nat.zero_add] at hlast
    have haccepted : accepted (writtenCalls m 0 p.currentId ++ last)
        = entitiesFrom p.currentId m := by
      rw [accepted, List.filterMap_append]
      exact (congrArg₂ _ (accepted_writtenCalls m 0 _) hlast.accepted_eq).trans
        (List.append_nil _)
    refine ⟨?_, ?_, ?_, ?_, ?_⟩ <;> rw [hr]
    · rw [haccepted, length_entitiesFrom]
      exact iff_of_false Bool.false_ne_true (by omega)
    · rw [haccepted]
      exact entitiesFrom_prefix _ hm.le
    · rw [List.map_append]
      exact (balanced_writtenCalls _ _ _).append hlast.balanced
    · intro b
      have hblast := hlast.count_take b
      rw [List.map_append, List.count_append, count_take_writtenCalls]
      split_ifs at hblast ⊢ <;> omega
    · intro pre c post hcalls hc
      exact hlast.stops_behind hcalls hc

/-- No buffer is written or handed back twice. -/
theorem LoanPhase.settles_once {a : WriterAnswers} {count : ℕ} {p : FastPub}
    (h : LoanPhase a count p) (b : ℕ) :
    ((p.publishLoan a count).2.2.map WriterCall.loanAct).count (.settle b) ≤ 1 := by
  rw [h.balanced.count_eq]
  exact h.once b

/-! ## Any number of calls -/

/-- `publish_loan` called again and again, with the calls on the writer in order. -/
def publishLoans : List (WriterAnswers × ℕ) → FastPub → FastPub × List WriterCall
  | [], p => (p, [])
  | (a, count) :: phases, p =>
    let r := p.publishLoan a count
    let r' := publishLoans phases r.2.1
    (r'.1, r.2.2 ++ r'.2)

/-- A call uses up one id for each write it attempts. -/
theorem attempted_publishLoan (a : WriterAnswers) (count : ℕ) (p : FastPub) :
    ∃ n : ℕ, attempted (p.publishLoan a count).2.2 = entitiesFrom p.currentId n
      ∧ (p.publishLoan a count).2.1.currentId = p.currentId + n := by
  rw [publishLoan]
  rcases publishLoanLoop_eq a count 0 p with hall | ⟨m, last, used, -, hlast, hsome⟩
  · rw [hall]
    exact ⟨count, attempted_writtenCalls _ _ _, rfl⟩
  · rw [hsome]
    refine ⟨m + used, ?_, by push_cast; ring⟩
    rw [attempted_append, attempted_writtenCalls, hlast.attempted_eq, entitiesFrom_append]

theorem attempted_publishLoans (phases : List (WriterAnswers × ℕ)) (p : FastPub) :
    ∃ n : ℕ, attempted (publishLoans phases p).2 = entitiesFrom p.currentId n
      ∧ (publishLoans phases p).1.currentId = p.currentId + n := by
  induction phases generalizing p with
  | nil => exact ⟨0, rfl, by rw [publishLoans, Nat.cast_zero, add_zero]⟩
  | cons phase phases ih =>
    obtain ⟨a, count⟩ := phase
    obtain ⟨m, hm, hid⟩ := attempted_publishLoan a count p
    obtain ⟨n, hn, hid'⟩ := ih (p.publishLoan a count).2.1
    rw [publishLoans]
    refine ⟨m + n, ?_, ?_⟩
    · rw [attempted_append, hm, hn, hid, entitiesFrom_append]
    · rw [hid', hid]
      push_cast
      ring

/-- The ids of any number of calls: the attempted writes use consecutive ids, so the accepted ones
increase and skip the ids of the rejected ones only. -/
structure FreshIds (phases : List (WriterAnswers × ℕ)) (p : FastPub) : Prop where
  consecutive : attempted (publishLoans phases p).2
    = entitiesFrom p.currentId (attempted (publishLoans phases p).2).length
  next : (publishLoans phases p).1.currentId
    = p.currentId + (attempted (publishLoans phases p).2).length
  increasing : (accepted (publishLoans phases p).2).Pairwise fun e e' ↦ e.id < e'.id

theorem freshIds (phases : List (WriterAnswers × ℕ)) (p : FastPub) : FreshIds phases p := by
  obtain ⟨n, hn, hid⟩ := attempted_publishLoans phases p
  have hlen : (attempted (publishLoans phases p).2).length = n := by
    rw [hn, length_entitiesFrom]
  refine ⟨by rw [hlen, hn], by rw [hlen, hid], ?_⟩
  apply List.Pairwise.sublist (accepted_sublist_attempted _)
  rw [hn]
  exact pairwise_entitiesFrom _ n

/-- **Loans are balanced and ids are fresh**: for every call, and over any sequence of calls. -/
theorem publishLoan_sound (p : FastPub) :
    (∀ a count, LoanPhase a count p) ∧ ∀ phases, FreshIds phases p :=
  ⟨fun a count ↦ loanPhase a count p, fun phases ↦ freshIds phases p⟩

end FastPub

end IndraDds
