import IndraDds.Foundation.Monitor
import Mathlib.Data.List.DropRight

/-!
# A queue under a mutex

`ThreadSafeQueue` is a `std::queue` whose methods lock a mutex first, and the queue of
`FastSubscriber` is used in the same way. The code is given statement by statement: between the
test whether the queue is empty and the `pop` at the end, only the mutex keeps the other threads
away. `front` and `pop` of an empty queue are undefined.

The two classes share the statements and differ in the calls they offer, so the code is stated for
any kind of call that is one of three: put a value in, take one out, empty the queue.
-/

namespace IndraDds

open Transition Monitor

/-! ## Statements -/

/-- What a call does with the queue. -/
inductive QueueCall (T : Type) where
  | push (value : T)
  | tryPop
  | clear
deriving DecidableEq, Repr

/-- The statement that a thread is about to execute, with the mutex locked. -/
inductive QueueStatement (T : Type) where
  | push (value : T)
  | testEmpty
  | readFront
  | pop (result : T)
  | swapEmpty
deriving DecidableEq, Repr

/-- What a call returns: nothing, or whether there was a value, with the value. -/
inductive QueueResult (T : Type) where
  | void
  | popped (result : Option T)
deriving DecidableEq, Repr

variable {T ι τ : Type}

namespace QueueCall

def firstStatement : QueueCall T → QueueStatement T
  | push value => .push value
  | tryPop => .testEmpty
  | clear => .swapEmpty

def isClear : QueueCall T → Bool
  | push _ => false
  | tryPop => false
  | clear => true

def pushed : QueueCall T → Option T
  | push value => some value
  | tryPop => none
  | clear => none

/-- A whole call. -/
def method : QueueCall T → List T → QueueResult T × List T
  | push value, queue => (.void, queue ++ [value])
  | tryPop, [] => (.popped none, [])
  | tryPop, x :: rest => (.popped (some x), rest)
  | clear, _ => (.void, [])

end QueueCall

def QueueResult.value : QueueResult T → Option T
  | void => none
  | popped result => result

def QueueStatement.next : QueueStatement T → List T →
    Option (List T × (QueueStatement T ⊕ QueueResult T))
  | push value, queue => some (queue ++ [value], .inr .void)
  | testEmpty, [] => some ([], .inr (.popped none))
  | testEmpty, x :: rest => some (x :: rest, .inl .readFront)
  | readFront, [] => none
  | readFront, x :: rest => some (x :: rest, .inl (.pop x))
  | pop _, [] => none
  | pop result, _ :: rest => some (rest, .inr (.popped (some result)))
  | swapEmpty, _ => some ([], .inr .void)

/-- The methods of a class whose calls are calls on the queue. -/
def queueCode (f : ι → QueueCall T) : Code (List T) ι (QueueStatement T) (QueueResult T) where
  entry call := (f call).firstStatement
  next := QueueStatement.next

def queueMethod (f : ι → QueueCall T) : Method (List T) ι (QueueResult T) := fun call ↦
  (f call).method

/-- Left alone, a call does what it says; in particular no statement of it is undefined. -/
theorem queueCode_implements (f : ι → QueueCall T) :
    (queueCode f).Implements (queueMethod f) := by
  intro call queue
  change (queueCode f).Finishes (f call).firstStatement queue ((f call).method queue).1
    ((f call).method queue).2
  cases f call with
  | push value => exact .last rfl
  | clear => exact .last rfl
  | tryPop =>
    cases queue with
    | nil => exact .last rfl
    | cons x rest => exact .more rfl (.more rfl (.last rfl))

/-! ## First in, first out -/

/-- The calls since the queue was last emptied. -/
def sinceClear (f : ι → QueueCall T) (es : List (ι × QueueResult T)) :
    List (ι × QueueResult T) :=
  es.rtakeWhile fun e ↦ !(f e.1).isClear

/-- The values put in by these calls. -/
def pushedValues (f : ι → QueueCall T) (es : List (ι × QueueResult T)) : List T :=
  es.filterMap fun e ↦ (f e.1).pushed

/-- The values handed out by these calls. -/
def poppedValues (es : List (ι × QueueResult T)) : List T := es.filterMap fun e ↦ e.2.value

variable {f : ι → QueueCall T} {es : List (ι × QueueResult T)}

theorem sinceClear_of_forall (h : ∀ call, (f call).isClear = false) : sinceClear f es = es :=
  List.rtakeWhile_eq_self_iff.mpr fun e _ ↦ by rw [h]; rfl

/-- **The law of the queue.** Of the values put in since the queue was last emptied, the first have
been handed out, in order, and the others are in the queue. -/
theorem pushed_eq_popped_append
    (h : Along (apply (queueMethod f)) (Returns (queueMethod f)) [] es) :
    pushedValues f (sinceClear f es)
      = poppedValues (sinceClear f es) ++ run (apply (queueMethod f)) [] es := by
  induction es using List.reverseRecOn with
  | nil => rfl
  | append_singleton es e ih =>
    obtain ⟨call, result⟩ := e
    obtain ⟨hes, he⟩ := along_concat.mp h
    have hlaw := ih hes
    rw [run_concat]
    generalize run (apply (queueMethod f)) [] es = queue at he hlaw ⊢
    rw [Returns, queueMethod] at he
    rw [apply, queueMethod]
    simp only at he ⊢
    by_cases hclear : (f call).isClear = true
    · have hcall : f call = .clear := by
        cases hf : f call with
        | push value => exact absurd hclear (by rw [hf]; exact Bool.false_ne_true)
        | tryPop => exact absurd hclear (by rw [hf]; exact Bool.false_ne_true)
        | clear => rfl
      have hnone : sinceClear f (es ++ [(call, result)]) = [] :=
        List.rtakeWhile_concat_neg _ _ _ (by simp [hclear])
      rw [hnone, hcall]
      rfl
    · have hmore : sinceClear f (es ++ [(call, result)]) = sinceClear f es ++ [(call, result)] :=
        List.rtakeWhile_concat_pos _ _ _ (by simpa using hclear)
      rw [hmore, pushedValues, poppedValues, List.filterMap_append, List.filterMap_append,
        ← pushedValues, ← poppedValues, hlaw]
      cases hf : f call with
      | clear => exact absurd rfl (by rw [hf] at hclear; exact hclear)
      | push value =>
        rw [hf] at he
        obtain rfl : QueueResult.void = result := he
        simp [hf, QueueCall.pushed, QueueResult.value, QueueCall.method]
      | tryPop =>
        rw [hf] at he
        cases queue with
        | nil =>
          obtain rfl : QueueResult.popped none = result := he
          simp [hf, QueueCall.pushed, QueueResult.value, QueueCall.method]
        | cons x rest =>
          obtain rfl : QueueResult.popped (some x) = result := he
          simp [hf, QueueCall.pushed, QueueResult.value, QueueCall.method]

/-! ## `ThreadSafeQueue` -/

/-- `Push(value)` and `TryPop(result)`. -/
inductive ThreadSafeQueueCall (T : Type) where
  | Push (value : T)
  | TryPop
deriving DecidableEq, Repr

def ThreadSafeQueueCall.queueCall : ThreadSafeQueueCall T → QueueCall T
  | Push value => .push value
  | TryPop => .tryPop

/-- A `ThreadSafeQueue` with the threads that use it. -/
abbrev ThreadSafeQueue (τ T : Type) :=
  Monitor.State τ (List T) (ThreadSafeQueueCall T) (QueueStatement T) (QueueResult T)

namespace ThreadSafeQueue

open ThreadSafeQueueCall (queueCall)

def pushed (log : List (Event τ (ThreadSafeQueueCall T) (QueueResult T))) : List T :=
  pushedValues queueCall (effects log)

def popped (log : List (Event τ (ThreadSafeQueueCall T) (QueueResult T))) : List T :=
  poppedValues (effects log)

/-- What is promised to the users of the queue. The values popped are the first of those pushed, in
order, each popped once; the others are in the queue while no one has locked it; and `TryPop`
returns false only at a moment at which all have been popped. A call takes effect once, between its
invocation and its response, executes no undefined statement, and can always be brought to its
end. -/
structure Fifo [DecidableEq τ] (s : ThreadSafeQueue τ T) : Prop where
  inOrder : popped s.log <+: pushed s.log
  queued : s.owner = none → pushed s.log = popped s.log ++ s.object
  emptyHanded : ∀ pre t post, s.log = pre ++ .effect t .TryPop (.popped none) :: post →
    popped pre = pushed pre
  once : ∀ t, ∃ done : List (ThreadSafeQueueCall T × QueueResult T),
    ofThread t s.log = done.flatMap (story t) ++ (s.phase t).started t
  defined : ∀ t call, s.phase t ≠ .undefined call
  completes : ∀ t, ∃ ts : List τ,
    (run (Monitor.step (queueCode queueCall)) s (ts.map .go)).phase t = .idle

theorem pushed_eq {log : List (Event τ (ThreadSafeQueueCall T) (QueueResult T))}
    (h : Along (apply (queueMethod queueCall)) (Returns (queueMethod queueCall)) [] (effects log)) :
    pushed log = popped log ++ replayed (queueMethod queueCall) [] log := by
  have hlaw := pushed_eq_popped_append h
  rwa [sinceClear_of_forall fun call ↦ by cases call <;> rfl] at hlaw

/-- **Any number of threads** may use the queue at any time. -/
theorem fifo [DecidableEq τ] (ms : List (Move τ (ThreadSafeQueueCall T))) :
    Fifo (run (Monitor.step (queueCode queueCall)) { object := [] } ms) := by
  have himpl := queueCode_implements (T := T) queueCall
  have hsound := sound_run himpl [] ms
  generalize run (Monitor.step (queueCode queueCall)) { object := [] } ms = s at hsound
  have hlaw := pushed_eq hsound.legal
  refine ⟨⟨_, hlaw.symm⟩, fun hfree ↦ ?_, fun pre t post hlog ↦ ?_, hsound.stories, hsound.defined,
    hsound.completes himpl⟩
  · rw [hlaw, hsound.free hfree]
  · have hlegal := hsound.legal
    have heffects : effects s.log
        = effects pre ++ (.TryPop, .popped none) :: effects post := by
      rw [hlog, effects_append]
      rfl
    rw [heffects, along_append, Along] at hlegal
    obtain ⟨hpre, hfalse, -⟩ := hlegal
    have hempty : replayed (queueMethod queueCall) [] pre = [] := by
      rcases hqueue : replayed (queueMethod queueCall) [] pre with _ | ⟨x, rest⟩
      · rfl
      · rw [replayed] at hqueue
        rw [hqueue] at hfalse
        exact absurd hfalse (by simp [Returns, queueMethod, queueCall, QueueCall.method])
    rw [pushed_eq hpre, hempty, List.append_nil]

end ThreadSafeQueue

end IndraDds
