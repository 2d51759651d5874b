import IndraDds.Foundation.TakeLoop
import IndraDds.Vendor.FastSub

/-!
# The control subscribers

`FastSubControl` and `OpenSubControl` poll with the same loop: it takes one sample after the other,
passes over those without data, and overwrites the configuration it hands out with each message. So
the newest message wins, and it makes no difference whether a queue is polled at once or in two
parts.

`OpenSubControl` polls through `dr`, the narrowed reader, and narrows again when it is nil. Without
a reader to narrow it reports nothing and leaves everything as it was.
-/

namespace IndraDds

open TakeLoop

/-! ## `OpenSubControl` -/

/-- `OpenSubControl`. The object behind `reader_` and `dr` is one reader; `narrowed` says whether
`dr` refers to it. -/
structure OpenSubControl where
  reader : Option (DataReader TestControl) := none
  narrowed : Bool := false
  last : TestConfig := {}
  reader_of_narrowed : narrowed = true → reader.isSome = true := by decide

namespace OpenSubControl

/-- The reader the poll takes from: `dr`, or what `_narrow(reader_)` gives in its place. It gives
nil for nil, and for a reader of another type; `narrows` is its answer. -/
def typedReader (narrows : Bool) (o : OpenSubControl) : Option (DataReader TestControl) :=
  if o.narrowed || narrows then o.reader else none

/-- `OpenSubControl::poll_control`. -/
def pollControl (narrows : Bool) (o : OpenSubControl) (out : TestConfig) :
    PollResult OpenSubControl :=
  match o.typedReader narrows with
  | none => { applied := false, out := out, control := o }
  | some reader =>
    let p := pollLoop reader.samples { last := o.last, out := out }
    { applied := p.applied, out := p.out,
      control :=
        { reader := some (reader.withSamples []), narrowed := true, last := p.last,
          reader_of_narrowed := fun _ ↦ rfl } }

end OpenSubControl

/-! ## The loop -/

/-- The body of the loop `while (take_next_sample(sample, info) == RETCODE_OK)`. -/
def pollBody (p : PollState) (s : Sample TestControl) : PollState :=
  if !s.info.validData then p
  else { applied := true, last := .ofControl s.data, out := .ofControl s.data }

theorem overwrites_pollBody : Overwrites pollBody (fun s ↦ s.info.validData)
    fun s ↦ { applied := true, last := .ofControl s.data, out := .ofControl s.data } where
  skip p s h := by
    rw [pollBody, h]
    rfl
  write p s h := by
    rw [pollBody, h]
    rfl

theorem pollLoop_eq_foldl (queue : List (Sample TestControl)) (p : PollState) :
    pollLoop queue p = queue.foldl pollBody p := by
  induction queue generalizing p with
  | nil => rfl
  | cons s queue ih =>
    rw [pollLoop, ih, ih, List.foldl_cons, pollBody]
    split_ifs <;> rfl

/-- The loop ends with the queue empty. -/
theorem whileTake_pollBody {calls : ℕ} {queue : List (Sample TestControl)}
    (h : queue.length < calls) (p : PollState) :
    whileTake pollBody calls p queue = some (pollLoop queue p, []) := by
  rw [whileTake_eq pollBody h, pollLoop_eq_foldl]

/-! ## Polling -/

/-- What polling is for: `poll queue last out` is what a poll of `queue` leaves of `last_` and of
its argument, and of the queue. -/
structure LastValidWins
    (poll : List (Sample TestControl) → TestConfig → TestConfig →
      PollState × List (Sample TestControl)) : Prop where
  ends : ∀ queue last out calls, queue.length < calls →
    whileTake pollBody calls { last := last, out := out } queue = some (poll queue last out)
  empties : ∀ queue last out, (poll queue last out).2 = []
  applied_iff : ∀ queue last out,
    (poll queue last out).1.applied = true ↔ ∃ s ∈ queue, s.info.validData = true
  newest : ∀ queue last out msg, (messages queue).getLast? = some msg →
    (poll queue last out).1.out = .ofControl msg ∧ (poll queue last out).1.last = .ofControl msg
  silent : ∀ queue last out, messages queue = [] →
    (poll queue last out).1.out = out ∧ (poll queue last out).1.last = last
  split : ∀ q₁ q₂ last out out',
    (poll q₂ (poll q₁ last out).1.last out').1.last = (poll (q₁ ++ q₂) last out).1.last
      ∧ ((poll q₁ last out).1.applied || (poll q₂ (poll q₁ last out).1.last out').1.applied)
        = (poll (q₁ ++ q₂) last out).1.applied

theorem messages_ne_nil_iff (queue : List (Sample TestControl)) :
    messages queue ≠ [] ↔ ∃ s ∈ queue, s.info.validData = true := by
  rw [messages, ne_eq, List.map_eq_nil_iff, List.filter_eq_nil_iff]
  simp only [not_forall, not_not, exists_prop]

theorem pollLoop_silent {queue : List (Sample TestControl)} (h : messages queue = [])
    (p : PollState) : pollLoop queue p = p := by
  have hvalid : queue.filter (fun s ↦ s.info.validData) = [] := List.map_eq_nil_iff.mp h
  rw [pollLoop_eq_foldl, overwrites_pollBody.foldl_eq, hvalid]
  rfl

theorem pollLoop_newest {queue : List (Sample TestControl)} {msg : TestControl}
    (h : (messages queue).getLast? = some msg) (p : PollState) :
    pollLoop queue p = { applied := true, last := .ofControl msg, out := .ofControl msg } := by
  rw [messages, List.getLast?_map, Option.map_eq_some_iff] at h
  obtain ⟨s, hs, rfl⟩ := h
  rw [pollLoop_eq_foldl, overwrites_pollBody.foldl_eq, hs]
  rfl

theorem exists_newest {queue : List (Sample TestControl)} (h : messages queue ≠ []) :
    ∃ msg, (messages queue).getLast? = some msg :=
  ⟨_, List.getLast?_eq_getLast_of_ne_nil h⟩

/-- **The last valid sample wins**, for every poll that runs the loop. -/
theorem lastValidWins_of_eq {poll : List (Sample TestControl) → TestConfig → TestConfig →
      PollState × List (Sample TestControl)}
    (hpoll : ∀ queue last out,
      poll queue last out = (pollLoop queue { last := last, out := out }, [])) :
    LastValidWins poll where
  ends queue last out calls h := by rw [whileTake_pollBody h, hpoll]
  empties queue last out := by rw [hpoll]
  applied_iff queue last out := by
    rw [hpoll, ← messages_ne_nil_iff]
    by_cases h : messages queue = []
    · rw [pollLoop_silent h]
      exact iff_of_false Bool.false_ne_true (not_not.mpr h)
    · obtain ⟨msg, hmsg⟩ := exists_newest h
      rw [pollLoop_newest hmsg]
      exact iff_of_true rfl h
  newest queue last out msg h := by
    rw [hpoll, pollLoop_newest h]
    exact ⟨rfl, rfl⟩
  silent queue last out h := by
    rw [hpoll, pollLoop_silent h]
    exact ⟨rfl, rfl⟩
  split q₁ q₂ last out out' := by
    have happend : ∀ p, pollLoop (q₁ ++ q₂) p = pollLoop q₂ (pollLoop q₁ p) := fun p ↦ by
      rw [pollLoop_eq_foldl, pollLoop_eq_foldl, pollLoop_eq_foldl, List.foldl_append]
    simp only [hpoll, happend]
    by_cases h : messages q₂ = []
    · rw [pollLoop_silent h, pollLoop_silent h]
      exact ⟨rfl, Bool.or_false _⟩
    · obtain ⟨msg, hmsg⟩ := exists_newest h
      rw [pollLoop_newest hmsg, pollLoop_newest hmsg]
      exact ⟨rfl, Bool.or_true _⟩

/-- A poll of `FastSubControl` on a given queue and `last_`. -/
def FastSubControl.polling (c : FastSubControl) (queue : List (Sample TestControl))
    (last out : TestConfig) : PollState × List (Sample TestControl) :=
  let r := ({ reader := c.reader.withSamples queue, last := last } : FastSubControl).pollControl out
  ({ applied := r.applied, last := r.control.last, out := r.out }, r.control.reader.samples)

/-- `OpenSubControl` with another queue in its reader, if it has one. -/
def OpenSubControl.holding (o : OpenSubControl) (queue : List (Sample TestControl))
    (last : TestConfig) : OpenSubControl where
  reader := o.reader.map fun r ↦ r.withSamples queue
  narrowed := o.narrowed
  last := last
  reader_of_narrowed h := by
    rw [Option.isSome_map]
    exact o.reader_of_narrowed h

/-- A poll of `OpenSubControl` on a given queue and `last_`. -/
def OpenSubControl.polling (narrows : Bool) (o : OpenSubControl)
    (queue : List (Sample TestControl)) (last out : TestConfig) :
    PollState × List (Sample TestControl) :=
  let r := (o.holding queue last).pollControl narrows out
  ({ applied := r.applied, last := r.control.last, out := r.out },
    (r.control.reader.map DataReader.samples).getD queue)

theorem FastSubControl.polling_eq (c : FastSubControl) (queue : List (Sample TestControl))
    (last out : TestConfig) :
    c.polling queue last out = (pollLoop queue { last := last, out := out }, []) := rfl

theorem OpenSubControl.polling_eq {narrows : Bool} {o : OpenSubControl}
    {reader : DataReader TestControl} (h : o.typedReader narrows = some reader)
    (queue : List (Sample TestControl)) (last out : TestConfig) :
    o.polling narrows queue last out = (pollLoop queue { last := last, out := out }, []) := by
  have htyped : (o.holding queue last).typedReader narrows
      = (o.typedReader narrows).map fun r ↦ r.withSamples queue := by
    rw [typedReader, typedReader]
    by_cases hn : (o.narrowed || narrows) = true
    · rw [if_pos hn]
      exact if_pos hn
    · rw [if_neg hn]
      exact if_neg hn
  rw [h] at htyped
  rw [polling, pollControl, htyped]
  rfl

/-- **Polling is the same for both vendors**: the last valid sample wins, in one poll or in two. -/
theorem polls_lastValidWins (c : FastSubControl) (o : OpenSubControl) (narrows : Bool)
    {reader : DataReader TestControl} (h : o.typedReader narrows = some reader) :
    LastValidWins c.polling ∧ LastValidWins (o.polling narrows)
      ∧ c.polling = o.polling narrows := by
  refine ⟨lastValidWins_of_eq c.polling_eq, lastValidWins_of_eq (OpenSubControl.polling_eq h), ?_⟩
  funext queue last out
  rw [c.polling_eq, OpenSubControl.polling_eq h]

/-- An OpenDDS reader that has to be narrowed again. -/
theorem renarrowed_lastValidWins :
    LastValidWins (FastSubControl.polling { reader := {} })
      ∧ LastValidWins (OpenSubControl.polling true { reader := some {} })
      ∧ FastSubControl.polling { reader := {} }
        = OpenSubControl.polling true { reader := some {} } :=
  polls_lastValidWins { reader := {} } { reader := some {} } true rfl

end IndraDds
