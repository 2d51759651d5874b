import IndraDds.Publisher.Announcements
import IndraDds.Publisher.Samples
import IndraDds.Subscriber.Cycle

/-!
# One publisher and one subscriber

The publisher test and the subscriber test, each in its own process with its own executive, and two
topics between them. The topics are reliable: what a writer accepts reaches the reader once and in
order, but at any later moment. So a topic is the list of what its writer has accepted, read off the
publisher's log, and a counter of how many of these have reached the reader.

A schedule is a list of four kinds of step: a pass of either `main` loop, with what the middleware
and the clock answer in it, and a delivery on either topic. Deliveries with nothing to deliver do
nothing.
-/

namespace IndraDds

open Transition

structure Sys where
  pub : Outcome PubTest
  sub : Outcome FastSubTest
  controlDelivered : ℕ := 0
  dataDelivered : ℕ := 0

inductive Label where
  | pubCycle (io : PubAnswers)
  | subCycle (elapsed : ℚ)
  | deliverControl
  | deliverData

namespace Sys

/-- The control messages on their way or delivered. -/
def control (s : Sys) : List TestControl := controlSent s.pub.world.log

/-- The samples on their way or delivered, with their rounds. -/
def data (s : Sys) : List (ℤ × AirEntity) := published s.pub.world.log

def deliverControl (s : Sys) : Sys :=
  match s.control[s.controlDelivered]? with
  | none => s
  | some msg =>
    { s with
      sub := s.sub.map fun t ↦
        t.receiveControl { data := msg, info := { sequenceNumber := s.controlDelivered } }
      controlDelivered := s.controlDelivered + 1 }

def deliverData (s : Sys) : Sys :=
  match s.data[s.dataDelivered]? with
  | none => s
  | some x =>
    { s with
      sub := s.sub.map fun t ↦
        t.receiveData { data := x.2, info := { sequenceNumber := s.dataDelivered } }
      dataDelivered := s.dataDelivered + 1 }

def step (s : Sys) : Label → Sys
  | .pubCycle io => { s with pub := PubTest.pass s.pub io }
  | .subCycle elapsed => { s with sub := SubTest.pass s.sub elapsed }
  | .deliverControl => s.deliverControl
  | .deliverData => s.deliverData

/-- The configuration of a composition. The publisher's `reset` is indeterminate, the data reader's
history and the size of the batches it lends are up to the middleware. -/
structure Setup where
  pubConfig : MainTestConfig
  subConfig : MainTestConfig
  reset : Bool := false
  history : Window.Retention := .keepLast 1
  batch : ℕ → ℕ := id

/-- Both processes after their `init`. -/
def start (c : Setup) : Sys where
  pub := PubTest.start c.pubConfig c.reset
  sub := SubTest.start c.subConfig
    (FastSub.init { reader := { history := c.history, batch := c.batch } })
    { reader := {} }

/-- A run of the composition. -/
def runOf (c : Setup) (ls : List Label) : Sys := run step (start c) ls

theorem runOf_append (c : Setup) (ls ls' : List Label) :
    runOf c (ls ++ ls') = run step (runOf c ls) ls' := run_append _ _ _

theorem runOf_concat (c : Setup) (ls : List Label) (l : Label) :
    runOf c (ls ++ [l]) = (runOf c ls).step l := run_concat _ _ _

/-! ## The publisher's side -/

/-- The answers a schedule gives to the publisher. -/
def pubAnswers (ls : List Label) : List PubAnswers :=
  ls.filterMap fun
    | .pubCycle io => some io
    | _ => none

@[simp] theorem pub_deliverControl (s : Sys) : s.deliverControl.pub = s.pub := by
  rw [deliverControl]
  split <;> rfl

@[simp] theorem pub_deliverData (s : Sys) : s.deliverData.pub = s.pub := by
  rw [deliverData]
  split <;> rfl

/-- The publisher of a composition is a publisher on its own. -/
theorem pub_run (c : Setup) (ls : List Label) :
    (runOf c ls).pub = run PubTest.pass (PubTest.start c.pubConfig c.reset) (pubAnswers ls) := by
  rw [runOf]
  induction ls using List.reverseRecOn with
  | nil => rfl
  | append_singleton ls l ih =>
    rw [run_concat, pubAnswers, List.filterMap_append, ← pubAnswers]
    cases l with
    | pubCycle io =>
      change PubTest.pass (run step (start c) ls).pub io = _
      rw [ih]
      exact (run_concat _ _ _).symm
    | subCycle elapsed =>
      change (run step (start c) ls).pub = _
      rw [ih]
      exact congrArg _ (List.append_nil _).symm
    | deliverControl =>
      change (run step (start c) ls).deliverControl.pub = _
      rw [pub_deliverControl, ih]
      exact congrArg _ (List.append_nil _).symm
    | deliverData =>
      change (run step (start c) ls).deliverData.pub = _
      rw [pub_deliverData, ih]
      exact congrArg _ (List.append_nil _).symm

end Sys

end IndraDds
