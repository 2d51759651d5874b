import IndraDds.Vendor.Middleware

/-!
# The Fast DDS publishers

`FastPub` writes the data samples, `FastPubControl` the control messages. A call on the writer is
recorded with the code it returned; the samples the writer accepted are read off that record. The
codes are the middleware's, so they are arguments.
-/

namespace IndraDds

/-! ## The data writer -/

/-- The codes the data writer returns in one write phase, by position in the batch. -/
structure WriterAnswers where
  loanSample : ℕ → ReturnCode := fun _ ↦ RETCODE_OK
  write : ℕ → ReturnCode := fun _ ↦ RETCODE_OK
  discardLoan : ℕ → ReturnCode := fun _ ↦ RETCODE_OK

/-- A call on the data writer with its return code. A loaned buffer is named by the iteration that
asked for it; a sample that was not loaned has none. -/
inductive WriterCall where
  | loanSample (buffer : ℕ) (ret : ReturnCode)
  | write (buffer : Option ℕ) (entity : AirEntity) (ret : ReturnCode)
  | discardLoan (buffer : ℕ) (ret : ReturnCode)
deriving DecidableEq, Repr

/-- The sample a call put on the wire, if it did. -/
def WriterCall.acceptedSample : WriterCall → Option AirEntity
  | .write _ entity ret => if ret = RETCODE_OK then some entity else none
  | _ => none

/-- The samples a sequence of calls put on the wire, in order. -/
def accepted (calls : List WriterCall) : List AirEntity := calls.filterMap WriterCall.acceptedSample

/-! ## `FastPub` -/

/-- The data member of the interface `IPub`. -/
structure IPubBase where
  messagesPerCycle : ℤ := 0
deriving DecidableEq, Repr

/-- `FastPub`. Its own `messages_per_cycle`, which hides the one of `IPub`, is read by nobody. -/
structure FastPub extends IPubBase where
  currentId : ℤ := 0
  minSubs : ℤ := 0
deriving DecidableEq, Repr

namespace FastPub

def setExpectedSubs (p : FastPub) (listeners : ℤ) : FastPub := { p with minSubs := listeners }

/-- `FastPub::publish`, given the code of its `write`. -/
def publish (ret : ReturnCode) : Bool := ret = RETCODE_OK

/-- The loop of `FastPub::publish_loan`: `k` iterations to go, `i` done. -/
def publishLoanLoop (a : WriterAnswers) :
    (k i : ℕ) → FastPub → Bool × FastPub × List WriterCall
  | 0, _, p => (true, p, [])
  | k + 1, i, p =>
    if a.loanSample i ≠ RETCODE_OK then (false, p, [.loanSample i (a.loanSample i)])
    else
      let entity : AirEntity := { id := p.currentId }
      let p := { p with currentId := p.currentId + 1 }
      let calls := [.loanSample i (a.loanSample i), .write (some i) entity (a.write i)]
      if a.write i ≠ RETCODE_OK then (false, p, calls ++ [.discardLoan i (a.discardLoan i)])
      else
        let r := publishLoanLoop a k (i + 1) p
        (r.1, r.2.1, calls ++ r.2.2)

/-- `FastPub::publish_loan`. -/
def publishLoan (a : WriterAnswers) (count : ℕ) (p : FastPub) :
    Bool × FastPub × List WriterCall :=
  publishLoanLoop a count 0 p

end FastPub

/-! ## `FastPubControl` -/

namespace FastPubControl

/-- The message of `FastPubControl::publish_start`. -/
def startMessage (testId expected : ℤ) (loan : Bool) : TestControl :=
  { testId := testId, start := true, expectedEntities := expected, loan := loan }

/-- The message of `FastPubControl::publish_stop`. -/
def stopMessage (testId : ℤ) : TestControl := { testId := testId, start := false }

end FastPubControl

end IndraDds
