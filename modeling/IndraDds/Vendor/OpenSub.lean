import IndraDds.Vendor.FastSub
import IndraDds.Foundation.Transition

/-!
# The OpenDDS subscriber

`OpenSub` declares members `received_ids` and `expected_messages_cycle` of its own. They hide the
members of `ISub` inside its methods, but the test stores the expected count through the
interface, so the count the drain uses stays at its initial zero and the ids the interface exposes
stay empty. The loop itself is the one of `FastSub`.

The comparison of the two drains is therefore decided by the expected count alone: they agree for
zero and for no other count, whatever the reader holds.
-/

namespace IndraDds

open Transition

/-! ## `OpenSub` -/

/-- `OpenSub`. The two members that hide those of `ISub` are prefixed with `own`; `dr` is null
until `init` has narrowed the reader. -/
structure OpenSub extends ISubBase where
  dr : Option (DataReader AirEntity) := none
  ownReceivedIds : Finset ℤ := ∅
  ownExpectedMessagesCycle : ℤ := 0
  preAllocated : Prealloc := {}

namespace OpenSub

/-- What a successful `OpenSub::init` leaves. -/
def init (o : OpenSub) (reader : DataReader AirEntity) : OpenSub :=
  { o with dr := some reader, preAllocated := o.preAllocated.reserve 1000 }

def resetSamples (o : OpenSub) : OpenSub := { o with ownReceivedIds := ∅ }

def allReceived (o : OpenSub) : Bool :=
  o.ownReceivedIds.card = toSizeT o.ownExpectedMessagesCycle

/-- The evaluation at the end of the drain, which writes `lost_samples` either way. -/
def conclude (o : OpenSub) : DrainResult OpenSub where
  result := o.allReceived
  lostSamples :=
    if o.allReceived then 0 else o.ownExpectedMessagesCycle - o.ownReceivedIds.card
  sub := o

/-- The record of the drain of `reader`, and what it leaves there. -/
def plainDrain (o : OpenSub) (reader : DataReader AirEntity) : Drain × List (Sample AirEntity) :=
  drainLoop (toSizeT o.ownExpectedMessagesCycle) 0 reader.samples {}

/-- `OpenSub::run_without_loan`. -/
def runWithoutLoan (o : OpenSub) (_lostSamples : ℤ) : DrainResult OpenSub :=
  match o.dr with
  | none =>
    { result := false, lostSamples := o.ownExpectedMessagesCycle,
      sub := { o with ownReceivedIds := ∅ } }
  | some reader =>
    let r := o.plainDrain reader
    ({ o with
      ownReceivedIds := r.1.receivedIds
      dr := some (reader.withSamples r.2)
      preAllocated := o.preAllocated.resize (toSizeT o.ownExpectedMessagesCycle) } :
      OpenSub).conclude

instance : ISub OpenSub where
  base := OpenSub.toISubBase
  withBase o b := { o with toISubBase := b }
  runWithoutLoan := runWithoutLoan
  runWithLoan _ _ := .error "run with loan not implemented (OpenSub)"
  resetSamples := resetSamples

/-- The samples the next drain takes. -/
def takes (o : OpenSub) : List (Sample AirEntity) :=
  match o.dr with
  | none => []
  | some reader => (o.plainDrain reader).1.taken

end OpenSub

/-! ## Use through the interface -/

/-- A call the test makes on its subscriber through `ISub`. -/
inductive ISubCall where
  | setExpected (n : ℤ)
  | resetSamples
  | runWithoutLoan
deriving DecidableEq, Repr

def ISubCall.apply {σ : Type} [ISub σ] (s : σ) : ISubCall → σ
  | setExpected n => ISub.setExpected s n
  | resetSamples => ISub.resetSamples s
  | runWithoutLoan => (ISub.runWithoutLoan s 0).sub

/-- A Fast DDS subscriber after some use through the interface, with the given reader content and
the expected count just stored. -/
def fastSubAt (history : List ISubCall) (xs : List (Sample AirEntity)) (n : ℤ) : FastSub :=
  let f := run ISubCall.apply (FastSub.init { reader := {} }) history
  ISub.setExpected { f with reader := f.reader.withSamples xs } n

/-- An OpenDDS subscriber after the same. -/
def openSubAt (history : List ISubCall) (xs : List (Sample AirEntity)) (n : ℤ) : OpenSub :=
  let o := run ISubCall.apply (OpenSub.init {} {}) history
  ISub.setExpected { o with dr := o.dr.map fun reader ↦ reader.withSamples xs } n

/-- No use through the interface reaches the members that hide those of `ISub`, and the drain does
not reach the ones of `ISub`. -/
def OpenSub.Unreached (o : OpenSub) : Prop :=
  o.ownExpectedMessagesCycle = 0 ∧ o.receivedIds = ∅ ∧ o.dr.isSome = true

theorem OpenSub.unreached_apply {o : OpenSub} (h : o.Unreached) (c : ISubCall) :
    (c.apply o).Unreached := by
  obtain ⟨hexp, hids, hdr⟩ := h
  obtain ⟨reader, hreader⟩ := Option.isSome_iff_exists.mp hdr
  cases c with
  | setExpected n => exact ⟨hexp, hids, hdr⟩
  | resetSamples => exact ⟨hexp, hids, hdr⟩
  | runWithoutLoan =>
    have hrun : ISubCall.runWithoutLoan.apply o = (o.runWithoutLoan 0).sub := rfl
    rw [hrun, OpenSub.runWithoutLoan, hreader]
    exact ⟨hexp, hids, rfl⟩

theorem openSubAt_unreached (history : List ISubCall) (xs : List (Sample AirEntity)) (n : ℤ) :
    (openSubAt history xs n).Unreached := by
  have h : (run ISubCall.apply (OpenSub.init {} {}) history).Unreached :=
    run_invariant (I := OpenSub.Unreached) ⟨rfl, rfl, rfl⟩
      (fun o c ho ↦ OpenSub.unreached_apply ho c) history
  refine ⟨h.1, h.2.1, ?_⟩
  obtain ⟨reader, hreader⟩ := Option.isSome_iff_exists.mp h.2.2
  change ((run ISubCall.apply (OpenSub.init {} {}) history).dr.map _).isSome = true
  rw [hreader]
  rfl

/-- The drain of an unreached `OpenSub` takes nothing and succeeds. -/
theorem OpenSub.runWithoutLoan_unreached {o : OpenSub} (h : o.Unreached) (lost : ℤ) :
    o.takes = [] ∧ (o.runWithoutLoan lost).result = true ∧
      (o.runWithoutLoan lost).lostSamples = 0 ∧ (o.runWithoutLoan lost).sub.receivedIds = ∅ := by
  obtain ⟨hexp, hids, hdr⟩ := h
  obtain ⟨reader, hreader⟩ := Option.isSome_iff_exists.mp hdr
  have hsize : toSizeT o.ownExpectedMessagesCycle = 0 := by rw [hexp]; rfl
  obtain ⟨hrec, htaken, -⟩ := drainLoop_spec 0 0 reader.samples {}
  have hnone : (o.plainDrain reader).1.receivedIds = ∅ := by
    rw [OpenSub.plainDrain, hsize, hrec]
    simp
  have hall : ∀ (v : Prealloc) (r : Option (DataReader AirEntity)),
      ({ o with
        ownReceivedIds := (o.plainDrain reader).1.receivedIds
        dr := r
        preAllocated := v } : OpenSub).allReceived = true := by
    intro v r
    rw [OpenSub.allReceived, decide_eq_true_iff]
    change (o.plainDrain reader).1.receivedIds.card = toSizeT o.ownExpectedMessagesCycle
    rw [hnone, hsize, Finset.card_empty]
  refine ⟨?_, ?_, ?_, ?_⟩
  · rw [OpenSub.takes, hreader]
    change (o.plainDrain reader).1.taken = []
    rw [OpenSub.plainDrain, hsize, htaken]
    simp
  · rw [OpenSub.runWithoutLoan, hreader]
    exact hall _ _
  · rw [OpenSub.runWithoutLoan, hreader]
    exact if_pos (hall _ _)
  · rw [OpenSub.runWithoutLoan, hreader]
    exact hids

/-! ## Agreement of the drains -/

/-- The two plain drains take the same samples, return the same verdict and loss, and leave the
same ids for the test to read. -/
structure DrainsAgree (f : FastSub) (o : OpenSub) : Prop where
  taken : f.plainDrain.1.taken = o.takes
  result : (ISub.runWithoutLoan f 0).result = (ISub.runWithoutLoan o 0).result
  lostSamples : (ISub.runWithoutLoan f 0).lostSamples = (ISub.runWithoutLoan o 0).lostSamples
  receivedIds : (ISub.base (ISub.runWithoutLoan f 0).sub).receivedIds
    = (ISub.base (ISub.runWithoutLoan o 0).sub).receivedIds

theorem fastSubAt_expected (history : List ISubCall) (xs : List (Sample AirEntity)) (n : ℤ) :
    (fastSubAt history xs n).expectedMessagesCycle = n := rfl

theorem fastSubAt_samples (history : List ISubCall) (xs : List (Sample AirEntity)) (n : ℤ) :
    (fastSubAt history xs n).reader.samples = xs := rfl

/-- One sample expected, one sample in the reader: the Fast DDS drain takes it, the OpenDDS drain
reports success without looking. -/
theorem drains_disagree_on_one_sample : ¬DrainsAgree (fastSubAt [] [{ data := { id := 0 } }] 1)
    (openSubAt [] [{ data := { id := 0 } }] 1) := by
  intro h
  have htaken : [({ data := { id := 0 } } : Sample AirEntity)] = [] := h.taken
  simp at htaken

/-- **The drains agree exactly when nothing is expected.** -/
theorem drainsAgree_iff (history : List ISubCall) (xs : List (Sample AirEntity)) (n : ℕ) :
    DrainsAgree (fastSubAt history xs n) (openSubAt history xs n) ↔ n = 0 := by
  obtain ⟨hotaken, horesult, holost, hoids⟩ :=
    OpenSub.runWithoutLoan_unreached (openSubAt_unreached history xs n) 0
  obtain ⟨hfids, hftaken, -⟩ := FastSub.plainDrain_spec (fastSubAt_expected history xs n)
  rw [fastSubAt_samples] at hfids hftaken
  -- the drained object expects what the object did
  have hresult : (ISub.runWithoutLoan (fastSubAt history xs n) 0).result = true ↔
      (validIds (xs.take n)).toFinset.card = n := by
    rw [← hfids]
    exact FastSub.result_conclude rfl 0
  constructor
  · intro h
    have htaken : xs.take n = [] := by rw [← hftaken, h.taken, hotaken]
    have hcard := hresult.mp (h.result.trans horesult)
    rw [htaken, validIds_nil, List.toFinset_nil, Finset.card_empty] at hcard
    exact hcard.symm
  · rintro rfl
    have htrue : (ISub.runWithoutLoan (fastSubAt history xs (0 : ℕ)) 0).result = true :=
      hresult.mpr (by simp)
    refine ⟨?_, htrue.trans horesult.symm, ?_, ?_⟩
    · rw [hftaken, hotaken, List.take_zero]
    · exact (if_pos htrue).trans holost.symm
    · change (fastSubAt history xs (0 : ℕ)).plainDrain.1.receivedIds = _
      rw [hfids, List.take_zero, validIds_nil, List.toFinset_nil]
      exact hoids.symm

end IndraDds
