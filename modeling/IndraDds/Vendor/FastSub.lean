import IndraDds.Vendor.Middleware
import Mathlib.Data.Finset.Card
import Mathlib.Data.Finset.Dedup

/-!
# The subscriber interfaces and their Fast DDS implementations

`ISub` is a virtual interface with two data members. An implementation is a type with access to
those members and its own versions of the calls; the members are what the test writes and reads
through the interface, and an implementation that declares members of the same names does not
change them.

`FastSub` drains its reader either sample by sample into preallocated slots, at most
`expected_messages_cycle` of them, or in loaned batches until nothing is left. A drain is recorded
in a `Drain`: the ids and the number of samples, as in the source, and besides those the samples
taken, the slots touched and the calls made on the reader.
-/

namespace IndraDds

/-! ## The interfaces -/

/-- The data members of `ISub`. -/
structure ISubBase where
  expectedMessagesCycle : ℤ := -1
  receivedIds : Finset ℤ := ∅
deriving DecidableEq

/-- What a drain returns: its verdict, the value left in `lost_samples`, and the object. -/
structure DrainResult (σ : Type) where
  result : Bool
  lostSamples : ℤ
  sub : σ

/-- An implementation of `ISub`. A drain takes the value of its reference argument `lost_samples`;
`run_with_loan` may throw. -/
class ISub (σ : Type) where
  base : σ → ISubBase
  withBase : σ → ISubBase → σ
  runWithoutLoan : σ → ℤ → DrainResult σ
  runWithLoan : σ → ℤ → Except String (DrainResult σ)
  resetSamples : σ → σ

/-- Storing through the interface, `sub->expected_messages_cycle = n`. -/
def ISub.setExpected {σ : Type} [ISub σ] (s : σ) (n : ℤ) : σ :=
  ISub.withBase s { ISub.base s with expectedMessagesCycle := n }

/-- `TestConfig`, what `poll_control` hands back. -/
structure TestConfig where
  testId : ℤ := 0
  expectedEntities : ℤ := 0
  loan : Bool := false
  active : Bool := false
deriving DecidableEq, Repr

/-- The result of a poll: whether a message was applied, the reference argument, the object. -/
structure PollResult (κ : Type) where
  applied : Bool
  out : TestConfig
  control : κ

/-- An implementation of `ISubControl`. -/
class ISubControl (κ : Type) where
  pollControl : κ → TestConfig → PollResult κ

/-! ## Preallocated slots -/

/-- A vector of which only the size and the capacity matter: `operator[]` is taken as total and
the indices it is called with are recorded. -/
structure Prealloc where
  size : ℕ := 0
  capacity : ℕ := 0
deriving DecidableEq, Repr

/-- `std::vector::reserve` changes the capacity only. -/
def Prealloc.reserve (v : Prealloc) (n : ℕ) : Prealloc := { v with capacity := max v.capacity n }

def Prealloc.resize (v : Prealloc) (n : ℕ) : Prealloc :=
  { size := n, capacity := max v.capacity n }

/-! ## Draining a reader -/

/-- A call on the data reader by the loan drain. -/
inductive ReaderCall where
  | take (length : ℕ)
  | noData
  | returnLoan (length : ℕ)
deriving DecidableEq, Repr

/-- The record of a drain. -/
structure Drain where
  receivedIds : Finset ℤ := ∅
  totalSamples : ℕ := 0
  taken : List (Sample AirEntity) := []
  accesses : List ℕ := []
  readerCalls : List ReaderCall := []
deriving DecidableEq

namespace Drain

/-- The slot `i` is handed to a take. -/
def touch (d : Drain) (i : ℕ) : Drain := { d with accesses := d.accesses ++ [i] }

def call (d : Drain) (c : ReaderCall) : Drain := { d with readerCalls := d.readerCalls ++ [c] }

/-- A taken sample is counted, and its id noted when it carries data. -/
def count (d : Drain) (s : Sample AirEntity) : Drain :=
  { d with
    receivedIds := if s.info.validData then insert s.data.id d.receivedIds else d.receivedIds
    totalSamples := d.totalSamples + 1
    taken := d.taken ++ [s] }

end Drain

/-- The loop `for (size_t i = 0; i < bound; i++)` over `take_next_sample`, at iteration `i` on a
reader that holds the given samples. The take that finds no data has been handed its slot too. -/
def drainLoop (bound : ℕ) : ℕ → List (Sample AirEntity) → Drain →
    Drain × List (Sample AirEntity)
  | i, [], d => (if i < bound then d.touch i else d, [])
  | i, s :: rest, d =>
    if i < bound then drainLoop bound (i + 1) rest ((d.touch i).count s) else (d, s :: rest)

/-- The loop `while (true)` over `take(data, info, 100)`. -/
def loanLoop (batch : ℕ → ℕ) (xs : List (Sample AirEntity)) (d : Drain) : Drain :=
  if _hxs : xs = [] then d.call .noData
  else
    let data := xs.take (takeLength batch 100 xs.length)
    let d := data.foldl Drain.count (d.call (.take data.length))
    loanLoop batch (xs.drop (takeLength batch 100 xs.length)) (d.call (.returnLoan data.length))
termination_by xs.length
decreasing_by
  have hpos := takeLength_pos batch 100 xs.length
  have hlen : 0 < xs.length := List.length_pos_iff.mpr _hxs
  rw [List.length_drop]
  omega

/-! ### What a drain takes

Both loops note the ids of a block of samples: a prefix of the reader for the plain loop, all of
it for the loan loop, however the middleware cuts it into batches. -/

/-- The ids of the samples that carry data. -/
def validIds (xs : List (Sample AirEntity)) : List ℤ :=
  (xs.filter fun s ↦ s.info.validData).map fun s ↦ s.data.id

@[simp] theorem validIds_nil : validIds [] = [] := rfl

theorem validIds_append (xs ys : List (Sample AirEntity)) :
    validIds (xs ++ ys) = validIds xs ++ validIds ys := by
  rw [validIds, List.filter_append, List.map_append, validIds, validIds]

namespace Drain

@[simp] theorem receivedIds_touch (d : Drain) (i : ℕ) : (d.touch i).receivedIds = d.receivedIds :=
  rfl

@[simp] theorem taken_touch (d : Drain) (i : ℕ) : (d.touch i).taken = d.taken := rfl

@[simp] theorem receivedIds_call (d : Drain) (c : ReaderCall) :
    (d.call c).receivedIds = d.receivedIds := rfl

@[simp] theorem taken_call (d : Drain) (c : ReaderCall) : (d.call c).taken = d.taken := rfl

@[simp] theorem taken_count (d : Drain) (s : Sample AirEntity) :
    (d.count s).taken = d.taken ++ [s] := rfl

theorem receivedIds_count (d : Drain) (s : Sample AirEntity) :
    (d.count s).receivedIds = d.receivedIds ∪ (validIds [s]).toFinset := by
  rw [count]
  cases hv : s.info.validData with
  | false => simp [validIds, hv]
  | true =>
    ext i
    simp [validIds, hv]

theorem taken_foldl_count (xs : List (Sample AirEntity)) (d : Drain) :
    (xs.foldl count d).taken = d.taken ++ xs := by
  induction xs generalizing d with
  | nil => simp
  | cons s xs ih => rw [List.foldl_cons, ih, taken_count, List.append_assoc, List.singleton_append]

theorem receivedIds_foldl_count (xs : List (Sample AirEntity)) (d : Drain) :
    (xs.foldl count d).receivedIds = d.receivedIds ∪ (validIds xs).toFinset := by
  induction xs generalizing d with
  | nil => simp
  | cons s xs ih =>
    rw [List.foldl_cons, ih, receivedIds_count, Finset.union_assoc, ← List.toFinset_append,
      ← validIds_append, List.singleton_append]

end Drain

/-- **The plain loop** takes the first `bound - i` samples and leaves the others. -/
theorem drainLoop_spec (bound i : ℕ) (xs : List (Sample AirEntity)) (d : Drain) :
    (drainLoop bound i xs d).1.receivedIds
        = d.receivedIds ∪ (validIds (xs.take (bound - i))).toFinset ∧
      (drainLoop bound i xs d).1.taken = d.taken ++ xs.take (bound - i) ∧
      (drainLoop bound i xs d).2 = xs.drop (bound - i) := by
  induction xs generalizing i d with
  | nil =>
    rw [drainLoop, List.take_nil, List.drop_nil, validIds_nil, List.toFinset_nil,
      Finset.union_empty, List.append_nil]
    by_cases h : i < bound
    · rw [if_pos h]
      exact ⟨rfl, rfl, rfl⟩
    · rw [if_neg h]
      exact ⟨rfl, rfl, rfl⟩
  | cons s xs ih =>
    rw [drainLoop]
    by_cases h : i < bound
    · obtain ⟨hids, htaken, hrest⟩ := ih (i + 1) ((d.touch i).count s)
      rw [if_pos h, hids, htaken, hrest, show bound - i = bound - (i + 1) + 1 by omega,
        List.take_succ_cons, List.drop_succ_cons]
      refine ⟨?_, ?_, rfl⟩
      · rw [Drain.receivedIds_count, Drain.receivedIds_touch, Finset.union_assoc,
          ← List.toFinset_append, ← validIds_append, List.singleton_append]
      · rw [Drain.taken_count, Drain.taken_touch, List.append_assoc, List.singleton_append]
    · rw [if_neg h, show bound - i = 0 by omega, List.take_zero, List.drop_zero, validIds_nil,
        List.toFinset_nil, Finset.union_empty, List.append_nil]
      exact ⟨rfl, rfl, rfl⟩

/-- **The loan loop** takes everything, however the middleware cuts it into batches. -/
theorem loanLoop_spec (batch : ℕ → ℕ) (xs : List (Sample AirEntity)) (d : Drain) :
    (loanLoop batch xs d).receivedIds = d.receivedIds ∪ (validIds xs).toFinset ∧
      (loanLoop batch xs d).taken = d.taken ++ xs := by
  induction xs, d using loanLoop.induct batch with
  | case1 d =>
    rw [loanLoop, dif_pos rfl, validIds_nil, List.toFinset_nil, Finset.union_empty,
      List.append_nil]
    exact ⟨rfl, rfl⟩
  | case2 xs d hxs data d' ih =>
    rw [loanLoop, dif_neg hxs, ih.1, ih.2]
    constructor
    · rw [Drain.receivedIds_call, Drain.receivedIds_foldl_count, Drain.receivedIds_call,
        Finset.union_assoc, ← List.toFinset_append, ← validIds_append, List.take_append_drop]
    · rw [Drain.taken_call, Drain.taken_foldl_count, Drain.taken_call, List.append_assoc,
        List.take_append_drop]

/-! ## `FastSub` -/

structure FastSub extends ISubBase where
  reader : DataReader AirEntity
  preAllocated : Prealloc := {}

namespace FastSub

/-- The preallocation at the end of a successful `FastSub::init`. -/
def init (f : FastSub) : FastSub := { f with preAllocated := f.preAllocated.reserve 1000 }

def resetSamples (f : FastSub) : FastSub := { f with receivedIds := ∅ }

/-- `received_ids.size() == expected_messages_cycle`, an unsigned comparison. -/
def allReceived (f : FastSub) : Bool := f.receivedIds.card = toSizeT f.expectedMessagesCycle

/-- The end of both drains. `lost_samples` is written only when something is missing. -/
def conclude (f : FastSub) (lostSamples : ℤ) : DrainResult FastSub where
  result := f.allReceived
  lostSamples :=
    if f.allReceived then lostSamples else f.expectedMessagesCycle - f.receivedIds.card
  sub := f

/-- The record of the plain drain, and what it leaves in the reader. -/
def plainDrain (f : FastSub) : Drain × List (Sample AirEntity) :=
  drainLoop (toSizeT f.expectedMessagesCycle) 0 f.reader.samples {}

/-- `FastSub::run_without_loan`. -/
def runWithoutLoan (f : FastSub) (lostSamples : ℤ) : DrainResult FastSub :=
  let r := f.plainDrain
  ({ f with receivedIds := r.1.receivedIds, reader := f.reader.withSamples r.2 } :
    FastSub).conclude lostSamples

/-- The record of the loan drain, which leaves nothing in the reader. -/
def loanDrain (f : FastSub) : Drain := loanLoop f.reader.batch f.reader.samples {}

/-- `FastSub::run_with_loan`. -/
def runWithLoan (f : FastSub) (lostSamples : ℤ) : DrainResult FastSub :=
  ({ f with receivedIds := f.loanDrain.receivedIds, reader := f.reader.withSamples [] } :
    FastSub).conclude lostSamples

/-! ### The drains of a subscriber that expects `n` samples -/

theorem allReceived_iff {f : FastSub} {n : ℕ} (hn : f.expectedMessagesCycle = n) :
    f.allReceived = true ↔ f.receivedIds.card = n := by
  rw [allReceived, hn, toSizeT_natCast, decide_eq_true_iff]

theorem result_conclude {f : FastSub} {n : ℕ} (hn : f.expectedMessagesCycle = n) (lost : ℤ) :
    (f.conclude lost).result = true ↔ f.receivedIds.card = n :=
  allReceived_iff hn

/-- With no loss recorded before, the loss is the difference, also when it is zero. -/
theorem lostSamples_conclude {f : FastSub} {n : ℕ} (hn : f.expectedMessagesCycle = n) :
    (f.conclude 0).lostSamples = n - f.receivedIds.card := by
  rw [conclude]
  by_cases h : f.allReceived = true
  · have hcard := (allReceived_iff hn).mp h
    simp only [h, if_true]
    omega
  · simp only [h, hn, Bool.false_eq_true, if_false]

theorem plainDrain_spec {f : FastSub} {n : ℕ} (hn : f.expectedMessagesCycle = n) :
    f.plainDrain.1.receivedIds = (validIds (f.reader.samples.take n)).toFinset ∧
      f.plainDrain.1.taken = f.reader.samples.take n ∧
      f.plainDrain.2 = f.reader.samples.drop n := by
  have h := drainLoop_spec n 0 f.reader.samples {}
  rw [Nat.sub_zero] at h
  rw [plainDrain, hn, toSizeT_natCast]
  simpa using h

theorem loanDrain_spec (f : FastSub) :
    f.loanDrain.receivedIds = (validIds f.reader.samples).toFinset ∧
      f.loanDrain.taken = f.reader.samples := by
  have h := loanLoop_spec f.reader.batch f.reader.samples {}
  rw [loanDrain]
  simpa using h

instance : ISub FastSub where
  base := FastSub.toISubBase
  withBase f b := { f with toISubBase := b }
  runWithoutLoan := runWithoutLoan
  runWithLoan f lost := .ok (f.runWithLoan lost)
  resetSamples := resetSamples

end FastSub

/-! ## `FastSubControl` -/

structure FastSubControl where
  reader : DataReader TestControl
  last : TestConfig := {}

/-- The conversion of a control message at the four assignments to `last_`. -/
def TestConfig.ofControl (ctrl : TestControl) : TestConfig where
  testId := ctrl.testId
  expectedEntities := ctrl.expectedEntities
  loan := ctrl.loan
  active := ctrl.start

/-- The variables of the loop in `poll_control`. -/
structure PollState where
  applied : Bool := false
  last : TestConfig
  out : TestConfig
deriving DecidableEq

/-- The loop of `poll_control` on the samples the reader holds. -/
def pollLoop : List (Sample TestControl) → PollState → PollState
  | [], p => p
  | s :: rest, p =>
    if !s.info.validData then pollLoop rest p
    else
      let last := TestConfig.ofControl s.data
      pollLoop rest { applied := true, last := last, out := last }

namespace FastSubControl

/-- `FastSubControl::poll_control`. -/
def pollControl (c : FastSubControl) (out : TestConfig) : PollResult FastSubControl :=
  let p := pollLoop c.reader.samples { last := c.last, out := out }
  { applied := p.applied, out := p.out,
    control := { c with reader := c.reader.withSamples [], last := p.last } }

instance : ISubControl FastSubControl where
  pollControl := pollControl

end FastSubControl

/-- The messages that a poll of these samples goes through. -/
def messages (xs : List (Sample TestControl)) : List TestControl :=
  (xs.filter fun s ↦ s.info.validData).map Sample.data

/-- **A poll** hands back the newest message, whatever its test id. -/
theorem pollLoop_eq (xs : List (Sample TestControl)) (p : PollState) :
    pollLoop xs p =
      match (messages xs).getLast? with
      | none => p
      | some msg => { applied := true, last := .ofControl msg, out := .ofControl msg } := by
  induction xs generalizing p with
  | nil => rfl
  | cons s xs ih =>
    rw [pollLoop, ih, ih]
    cases hvalid : s.info.validData with
    | false => simp [messages, hvalid]
    | true =>
      have hmessages : messages (s :: xs) = s.data :: messages xs := by simp [messages, hvalid]
      rw [hmessages, List.getLast?_cons]
      cases (messages xs).getLast? with
      | none => rfl
      | some msg => rfl

namespace FastSubControl

theorem pollControl_none {c : FastSubControl} (h : (messages c.reader.samples).getLast? = none)
    (out : TestConfig) : c.pollControl out
      = { applied := false, out := out,
          control := { c with reader := c.reader.withSamples [] } } := by
  rw [pollControl, pollLoop_eq, h]

theorem pollControl_some {c : FastSubControl} {msg : TestControl}
    (h : (messages c.reader.samples).getLast? = some msg) (out : TestConfig) : c.pollControl out
      = { applied := true, out := .ofControl msg,
          control := { reader := c.reader.withSamples [], last := .ofControl msg } } := by
  rw [pollControl, pollLoop_eq, h]

end FastSubControl

end IndraDds
