import IndraDds.Vendor.FastSub

/-!
# Entities that may be missing

`FastPub`, `FastPubControl`, `FastSub` and `FastSubControl` each create a participant, a topic, a
publisher or subscriber, and on it a writer or reader. They keep four pointers, null until the
entity is created, and `init` returns at the first creation that fails. Nothing but the result of
`init` tells the caller, and the caller only prints it, so later calls find the pointers as `init`
left them.

What the creation calls return is up to the middleware. A call through a null pointer has no defined
outcome. In `init` the program is taken to end there; the drains and the poll go on as if the reader
held nothing, and the call stays on record.
-/

namespace IndraDds

/-- The pointer members of the four classes. -/
inductive Pointer where
  | participant
  | topic
  | publisher
  | subscriber
  | writer
  | reader
deriving DecidableEq, Repr

/-- Which of its four entities a class has; `group` is its publisher or subscriber, `endpoint` its
writer or reader. As the argument of an `init`, which of them the middleware would create. -/
structure Entities where
  participant : Bool := false
  topic : Bool := false
  group : Bool := false
  endpoint : Bool := false
deriving DecidableEq, Repr

namespace Entities

def all : Entities := { participant := true, topic := true, group := true, endpoint := true }

/-- Every creation succeeds. -/
def ready (e : Entities) : Bool := e.participant && e.topic && e.group && e.endpoint

/-- The entities created up to the first failure. -/
def made (e : Entities) : Entities where
  participant := e.participant
  topic := e.participant && e.topic
  group := e.participant && e.topic && e.group
  endpoint := e.ready

end Entities

/-- A member call through a pointer to an entity that is there or not. -/
def callThrough (p : Pointer) (entity : Bool) : Except Pointer Unit :=
  if entity then .ok () else .error p

/-! ## The four initialisations -/

/-- An `init` that checks each creation before the next: its result and the entities it leaves. -/
def initChecked (group : Pointer) (created : Entities) : Except Pointer (Bool × Entities) := do
  let e : Entities := { participant := created.participant }
  if !e.participant then return (false, e)
  callThrough .participant e.participant
  let e := { e with topic := created.topic }
  if !e.topic then return (false, e)
  callThrough .participant e.participant
  let e := { e with group := created.group }
  if !e.group then return (false, e)
  callThrough group e.group
  let e := { e with endpoint := created.endpoint }
  if !e.endpoint then return (false, e)
  return (true, e)

/-- The entities of `FastPub::init`. -/
def FastPub.initEntities : Entities → Except Pointer (Bool × Entities) := initChecked .publisher

/-- The entities of `FastSub::init`. -/
def FastSub.initEntities : Entities → Except Pointer (Bool × Entities) := initChecked .subscriber

/-- The entities of `FastSubControl::init`. -/
def FastSubControl.initEntities : Entities → Except Pointer (Bool × Entities) :=
  initChecked .subscriber

/-- The entities of `FastPubControl::init`, which reads and writes the quality of service of its
publisher before it looks whether there is one. -/
def FastPubControl.initEntities (created : Entities) : Except Pointer (Bool × Entities) := do
  let e : Entities := { participant := created.participant }
  if !e.participant then return (false, e)
  callThrough .participant e.participant
  let e := { e with topic := created.topic }
  if !e.topic then return (false, e)
  callThrough .participant e.participant
  let e := { e with group := created.group }
  callThrough .publisher e.group
  callThrough .publisher e.group
  if !e.group then return (false, e)
  callThrough .publisher e.group
  let e := { e with endpoint := created.endpoint }
  if !e.endpoint then return (false, e)
  return (true, e)

/-- Where every creation is checked no call goes through a null pointer, whatever fails. -/
theorem initChecked_eq (group : Pointer) (created : Entities) :
    initChecked group created = .ok (created.ready, created.made) := by
  obtain ⟨_ | _, _ | _, _ | _, _ | _⟩ := created <;> rfl

/-- `FastPubControl::init` makes its one call through a null pointer when the publisher is the first
entity it fails to get. -/
theorem FastPubControl.initEntities_eq (created : Entities) :
    FastPubControl.initEntities created
      = if created.participant && created.topic && !created.group then .error .publisher
        else .ok (created.ready, created.made) := by
  obtain ⟨_ | _, _ | _, _ | _, _ | _⟩ := created <;> rfl

/-! ## Readers that may be missing -/

/-- An object behind an interface, whether its `reader_` is there, and whether a call has gone
through that pointer while it was null. -/
structure Handle (α : Type) where
  object : α
  reader : Bool
  nullCall : Bool := false

namespace Handle

variable {α : Type}

/-- The object after a member function that has called the reader if `called`. -/
def use (h : Handle α) (called : Bool) (object : α) : Handle α :=
  { h with object := object, nullCall := h.nullCall || (called && !h.reader) }

/-- What the middleware does to a reader that is there. -/
def onReader (h : Handle α) (f : α → α) : Handle α :=
  { h with object := if h.reader then f h.object else h.object }

theorem nullCall_use (h : Handle α) (called : Bool) (object : α) :
    (h.use called object).nullCall = (h.nullCall || (called && !h.reader)) := rfl

/-- The reader is there, and no call has found it null. -/
structure Sound (h : Handle α) : Prop where
  reader : h.reader = true
  nullCall : h.nullCall = false

theorem Sound.use {h : Handle α} (hs : h.Sound) (called : Bool) (object : α) :
    (h.use called object).Sound := by
  refine ⟨hs.reader, ?_⟩
  rw [nullCall_use, hs.nullCall, hs.reader, Bool.not_true, Bool.and_false, Bool.or_false]

end Handle

/-- A drain calls the reader as often as it touches a slot, or as it records. -/
instance : ISub (Handle FastSub) where
  base h := h.object.toISubBase
  withBase h b := { h with object := { h.object with toISubBase := b } }
  runWithoutLoan h lost :=
    let r := h.object.runWithoutLoan lost
    { result := r.result, lostSamples := r.lostSamples,
      sub := h.use (h.object.plainDrain.1.accesses ≠ []) r.sub }
  runWithLoan h lost :=
    let r := h.object.runWithLoan lost
    .ok { result := r.result, lostSamples := r.lostSamples,
          sub := h.use (h.object.loanDrain.readerCalls ≠ []) r.sub }
  resetSamples h := { h with object := h.object.resetSamples }

/-- The loop of a poll calls the reader at least once. -/
instance : ISubControl (Handle FastSubControl) where
  pollControl h out :=
    let r := h.object.pollControl out
    { applied := r.applied, out := r.out, control := h.use true r.control }

end IndraDds
