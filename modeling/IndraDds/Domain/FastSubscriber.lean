import IndraDds.Foundation.Transition
import Mathlib.Tactic.SplitIfs

/-!
# The queue of a subscriber

`FastSubscriber` puts the samples its reader delivers into a queue, from which `read_next` takes
them. `start` and `stop` keep the flag `started_`, and `stop` empties the queue. The flag is written
and never read: what arrives while the subscriber is stopped is queued all the same, and handed out
by the next `read_next`.

What the subscriber owes to its reader is kept beside it in a `Service`: the samples delivered since
the last stop while the subscriber was started, and those it has returned since then. The mutex
makes every call one step.
-/

namespace IndraDds

open Transition

/-- `InstanceStateKind` of Fast DDS. -/
inductive InstanceState where
  | ALIVE_INSTANCE_STATE
  | NOT_ALIVE_DISPOSED_INSTANCE_STATE
  | NOT_ALIVE_NO_WRITERS_INSTANCE_STATE
deriving DecidableEq, Repr

/-! ## The subscriber -/

/-- The members of `FastSubscriber<T>` that its calls use. -/
structure FastSubscriber (T : Type) where
  started : Bool := false
  messageQueue : List T := []
deriving DecidableEq, Repr

variable {T : Type}

namespace FastSubscriber

def start (f : FastSubscriber T) : FastSubscriber T := { f with started := true }

def stop (_f : FastSubscriber T) : FastSubscriber T := { started := false, messageQueue := [] }

/-- `read_next`: the value written to `out` when it returns true, and the object. -/
def readNext (f : FastSubscriber T) : Option T × FastSubscriber T :=
  match f.messageQueue with
  | [] => (none, f)
  | x :: rest => (some x, { f with messageQueue := rest })

/-- `on_data_available`, with the samples that `take_next_sample` returns one by one. -/
def onDataAvailable : List (InstanceState × T) → FastSubscriber T → FastSubscriber T
  | [], f => f
  | (instanceState, sample) :: rest, f =>
    if instanceState = .ALIVE_INSTANCE_STATE then
      onDataAvailable rest { f with messageQueue := f.messageQueue ++ [sample] }
    else onDataAvailable rest f

end FastSubscriber

/-- The samples of a batch that are alive. -/
def aliveSamples (batch : List (InstanceState × T)) : List T :=
  (batch.filter fun x ↦ x.1 = .ALIVE_INSTANCE_STATE).map Prod.snd

namespace FastSubscriber

/-- The whole batch goes into the queue, whether or not the subscriber is started. -/
theorem onDataAvailable_eq (batch : List (InstanceState × T)) (f : FastSubscriber T) :
    onDataAvailable batch f
      = { f with messageQueue := f.messageQueue ++ aliveSamples batch } := by
  induction batch generalizing f with
  | nil =>
    rw [onDataAvailable, aliveSamples, List.filter_nil, List.map_nil, List.append_nil]
  | cons x batch ih =>
    obtain ⟨instanceState, sample⟩ := x
    rw [onDataAvailable]
    split_ifs with halive
    · simp [ih, aliveSamples, halive]
    · simp [ih, aliveSamples, halive]

theorem readNext_eq_none {f : FastSubscriber T} : f.readNext.1 = none ↔ f.messageQueue = [] := by
  cases hqueue : f.messageQueue with
  | nil =>
    rw [readNext, hqueue]
    exact iff_of_true rfl rfl
  | cons x rest =>
    rw [readNext, hqueue]
    simp

end FastSubscriber

/-! ## Runs -/

/-- A call on the subscriber, by its user or by the middleware. -/
inductive SubscriberCall (T : Type) where
  | start
  | stop
  | onDataAvailable (batch : List (InstanceState × T))
  | readNext
deriving DecidableEq, Repr

/-- A subscriber, with what it has been given since its last stop while it was started, and what it
has returned since then. -/
structure Service (T : Type) where
  subscriber : FastSubscriber T := {}
  due : List T := []
  returned : List T := []
deriving DecidableEq, Repr

namespace Service

def step (s : Service T) : SubscriberCall T → Service T
  | .start => { s with subscriber := s.subscriber.start }
  | .stop => { subscriber := s.subscriber.stop }
  | .onDataAvailable batch =>
    { s with
      subscriber := s.subscriber.onDataAvailable batch
      due := if s.subscriber.started then s.due ++ aliveSamples batch else s.due }
  | .readNext =>
    { s with
      subscriber := s.subscriber.readNext.2
      returned := s.returned ++ s.subscriber.readNext.1.toList }

/-! ## The law -/

/-- The samples returned are the first of those due, and a subscriber that is not started returns
nothing. -/
structure Delivers (s : Service T) : Prop where
  inOrder : s.returned <+: s.due
  gated : s.subscriber.started = false → s.subscriber.readNext.1 = none

/-- No sample that is alive arrives unless the subscriber is started. -/
def ArrivesStarted (s : Service T) (l : SubscriberCall T) : Prop :=
  ∀ batch, l = .onDataAvailable batch → s.subscriber.started = false → aliveSamples batch = []

/-- The queue holds what is due and has not been returned; without a start there is nothing. -/
structure Owes (s : Service T) : Prop where
  owed : s.returned ++ s.subscriber.messageQueue = s.due
  gated : s.subscriber.started = false → s.subscriber.messageQueue = []

variable {s : Service T}

theorem Owes.delivers (h : s.Owes) : s.Delivers :=
  ⟨⟨_, h.owed⟩, fun hstopped ↦ FastSubscriber.readNext_eq_none.mpr (h.gated hstopped)⟩

/-- A take moves the head of the queue to what has been returned. -/
theorem Owes.readNext (h : s.Owes) : (s.step .readNext).Owes := by
  obtain ⟨howed, hgated⟩ := h
  cases hqueue : s.subscriber.messageQueue with
  | nil =>
    have hread : s.subscriber.readNext = (none, s.subscriber) := by
      rw [FastSubscriber.readNext, hqueue]
    rw [step, hread]
    refine ⟨?_, hgated⟩
    rw [← howed, Option.toList_none, List.append_nil]
  | cons x rest =>
    have hread : s.subscriber.readNext = (some x, { s.subscriber with messageQueue := rest }) := by
      rw [FastSubscriber.readNext, hqueue]
    rw [step, hread]
    refine ⟨?_, fun hstopped ↦ ?_⟩
    · rw [← howed, hqueue, Option.toList_some, List.append_assoc, List.singleton_append]
    · rw [hgated hstopped] at hqueue
      exact absurd hqueue (by simp)

theorem Owes.step (h : s.Owes) {l : SubscriberCall T} (hl : s.ArrivesStarted l) :
    (s.step l).Owes := by
  cases l with
  | start => exact ⟨h.owed, fun hstopped ↦ absurd hstopped.symm Bool.false_ne_true⟩
  | stop => exact ⟨rfl, fun _ ↦ rfl⟩
  | readNext => exact h.readNext
  | onDataAvailable batch =>
    obtain ⟨howed, hgated⟩ := h
    rw [Service.step, FastSubscriber.onDataAvailable_eq]
    cases hstarted : s.subscriber.started with
    | true =>
      -- what is queued becomes due as well
      refine ⟨?_, by simp⟩
      rw [if_pos rfl, ← howed, List.append_assoc]
    | false =>
      have hnone := hl batch rfl hstarted
      rw [hnone, List.append_nil]
      exact ⟨howed, fun _ ↦ hgated hstarted⟩

theorem owes_run {ls : List (SubscriberCall T)} (h : Along step ArrivesStarted {} ls) :
    (run step ({} : Service T) ls).Owes := by
  induction ls using List.reverseRecOn with
  | nil => exact ⟨rfl, fun _ ↦ rfl⟩
  | append_singleton ls l ih =>
    obtain ⟨hls, hl⟩ := along_concat.mp h
    rw [run_concat]
    exact (ih hls).step hl

/-- **Delivery.** The subscriber delivers the samples of its started periods throughout a run
exactly when none arrives in between. -/
theorem delivers_iff_arrivesStarted (ls : List (SubscriberCall T)) :
    (∀ pre, pre <+: ls → (run step ({} : Service T) pre).Delivers) ↔
      Along step ArrivesStarted {} ls := by
  constructor
  · intro h
    rw [along_iff]
    rintro pre _ post rfl batch rfl hstopped
    -- a sample queued without a start would be there for the next `read_next`
    have hnext := h (pre ++ [.onDataAvailable batch]) ⟨post, by rw [List.append_assoc]; rfl⟩
    rw [run_concat, step, FastSubscriber.onDataAvailable_eq] at hnext
    have hqueue := FastSubscriber.readNext_eq_none.mp (hnext.gated hstopped)
    exact (List.append_eq_nil_iff.mp hqueue).2
  · intro h pre hpre
    exact (owes_run (h.of_prefix hpre)).delivers

/-- A sample that arrives after the stop is handed out. -/
theorem stopped_subscriber_delivers : ¬∀ (ls pre : List (SubscriberCall ℕ)), pre <+: ls →
    (run step ({} : Service ℕ) pre).returned <+: (run step ({} : Service ℕ) pre).due := by
  intro h
  have hprefix := h [.start, .stop, .onDataAvailable [(.ALIVE_INSTANCE_STATE, 7)], .readNext] _
    (List.prefix_refl _)
  exact absurd hprefix (by decide)

end Service

end IndraDds
