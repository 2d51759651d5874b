import IndraDds.Foundation.Window
import Mathlib.Data.Int.Notation

/-!
# What the code sees of the middleware

Return codes, the two topic types, and readers. A reader is the list of samples it holds, oldest
first, its history policy, and a function for the one freedom the middleware has when samples are
taken on loan: how many of the samples it holds one `take` call returns.

A metadata-only sample carries no data; its `validData` flag is off and its payload is never
looked at.
-/

namespace IndraDds

open Window

/-! ## Return codes and integer conversion -/

/-- `ReturnCode_t` of Fast DDS. -/
abbrev ReturnCode := ℤ

def RETCODE_OK : ReturnCode := 0

/-- The implicit conversion of an `int` to `size_t`. -/
def toSizeT (i : ℤ) : ℕ := if 0 ≤ i then i.toNat else (2 ^ 64 + i).toNat

@[simp] theorem toSizeT_natCast (n : ℕ) : toSizeT n = n := by
  rw [toSizeT, if_pos (Int.natCast_nonneg n), Int.toNat_natCast]

/-! ## Topic types -/

/-- The key of an `AirEntity`; no code reads another field. -/
structure AirEntity where
  id : ℤ := 0
deriving DecidableEq, Repr, Inhabited

/-- `TestControl`, less its two reserved fields. -/
structure TestControl where
  testId : ℤ := 0
  start : Bool := false
  expectedEntities : ℤ := 0
  loan : Bool := false
deriving DecidableEq, Repr

/-- The round a control message announces. -/
def TestControl.announced (msg : TestControl) : Option ℤ :=
  if msg.start then some msg.testId else none

/-! ## Samples and readers -/

/-- The fields of `SampleInfo` in use. The sequence number is the sample's position among the
samples of its writer; it is what makes two samples of one key distinguishable. -/
structure SampleInfo where
  validData : Bool := true
  sequenceNumber : ℕ := 0
deriving DecidableEq, Repr

structure Sample (α : Type) where
  data : α
  info : SampleInfo := {}
deriving DecidableEq, Repr

/-- A data reader. -/
structure DataReader (α : Type) where
  samples : List (Sample α) := []
  history : Retention := .keepAll
  batch : ℕ → ℕ := id

namespace DataReader

variable {α : Type}

/-- A sample of the reader's writer arrives. -/
def receive (r : DataReader α) (key : α → ℤ) (s : Sample α) : DataReader α :=
  { r with samples := r.history.store (fun s ↦ key s.data) r.samples s }

/-- What is left after a drain. -/
def withSamples (r : DataReader α) (samples : List (Sample α)) : DataReader α :=
  { r with samples := samples }

end DataReader

/-- The number of samples one `take(data, info, maxSamples)` returns of `len` available ones: at
least one, at most `maxSamples`. -/
def takeLength (batch : ℕ → ℕ) (maxSamples len : ℕ) : ℕ :=
  max 1 (min (batch len) maxSamples)

theorem takeLength_pos (batch : ℕ → ℕ) (maxSamples len : ℕ) :
    0 < takeLength batch maxSamples len :=
  Nat.lt_of_lt_of_le Nat.one_pos (Nat.le_max_left _ _)

end IndraDds
