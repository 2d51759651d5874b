import IndraDds.Domain.FastSubscriber
import IndraDds.Domain.GuardedQueue
import Mathlib.Data.Fintype.Basic

/-!
# The threads of a subscriber

The middleware calls `on_data_available` from threads of its own, while the user calls `start`,
`stop` and `read_next`. None of these calls is one step. `on_data_available` locks the mutex anew
for every sample; `stop` writes `started_` first and locks the mutex then, and `start` does not lock
it at all.

Here the calls are taken apart into their accesses to the object, and any number of threads make
their accesses in any order, those to the queue statement by statement under the mutex. What comes
of it is what comes of the calls one by one, with a batch taken apart into its samples: this is what
allows the subscriber to be modelled by whole calls. A start and a stop are the exception. When one
comes within the other, the flag may end up true although the queue was emptied after the start.
-/

namespace IndraDds

open Transition Monitor

variable {T τ : Type}

/-! ## Accesses -/

/-- What a call does to the object: a write to `started_`, or a part of it under the mutex. -/
inductive Access (T : Type) where
  | writeStarted (value : Bool)
  | locked (call : QueueCall T)
deriving DecidableEq, Repr

def SubscriberCall.accesses : SubscriberCall T → List (Access T)
  | start => [.writeStarted true]
  | stop => [.writeStarted false, .locked .clear]
  | onDataAvailable batch => (aliveSamples batch).map fun sample ↦ .locked (.push sample)
  | readNext => [.locked .tryPop]

/-- The call of which a part under the mutex is the essential part. -/
def QueueCall.asCall : QueueCall T → SubscriberCall T
  | push sample => .onDataAvailable [(.ALIVE_INSTANCE_STATE, sample)]
  | tryPop => .readNext
  | clear => .stop

/-- The moment at which a call takes effect: the write of `start`, and the parts under the mutex. -/
def Access.asCall : Access T → Option (SubscriberCall T)
  | writeStarted true => some .start
  | writeStarted false => none
  | locked call => some call.asCall

/-- The calls that one call amounts to. -/
def SubscriberCall.parts (c : SubscriberCall T) : List (SubscriberCall T) :=
  c.accesses.filterMap Access.asCall

/-! ## Whole calls -/

namespace FastSubscriber

/-- What a call answers: a sample, if it is a `read_next` that returns true. -/
def answer (f : FastSubscriber T) : SubscriberCall T → Option T
  | .readNext => f.readNext.1
  | _ => none

def perform (f : FastSubscriber T) : SubscriberCall T → FastSubscriber T
  | .start => f.start
  | .stop => f.stop
  | .onDataAvailable batch => onDataAvailable batch f
  | .readNext => f.readNext.2

/-- A call and its answer. -/
def performs (f : FastSubscriber T) (e : SubscriberCall T × Option T) : FastSubscriber T :=
  f.perform e.1

def Answers (f : FastSubscriber T) (e : SubscriberCall T × Option T) : Prop := f.answer e.1 = e.2

/-- A part under the mutex does to the queue what the whole call does. -/
theorem asCall_spec (f : FastSubscriber T) (call : QueueCall T) :
    f.answer call.asCall = (call.method f.messageQueue).1.value ∧
      (f.perform call.asCall).messageQueue = (call.method f.messageQueue).2 := by
  cases call with
  | push sample => exact ⟨rfl, rfl⟩
  | clear => exact ⟨rfl, rfl⟩
  | tryPop =>
    rcases hqueue : f.messageQueue with _ | ⟨x, rest⟩
    all_goals simp [QueueCall.asCall, answer, perform, readNext, hqueue, QueueCall.method,
      QueueResult.value]

end FastSubscriber

/-! ## Threads -/

/-- A `FastSubscriber` with the threads that call it: what each has still to do of its call, and,
beside the object, the calls made and the calls that have taken effect, with their answers. -/
structure SubscriberThreads (τ T : Type) where
  queue : Monitor.State τ (List T) (QueueCall T) (QueueStatement T) (QueueResult T) :=
    { object := [] }
  started : Bool := false
  todo : τ → List (Access T) := fun _ ↦ []
  made : List (τ × SubscriberCall T) := []
  history : List (τ × SubscriberCall T × Option T) := []

/-- A thread that is not in a call makes one, or a thread goes on. -/
inductive ThreadMove (τ T : Type) where
  | call (thread : τ) (c : SubscriberCall T)
  | go (thread : τ)
deriving DecidableEq, Repr

/-- What thread `t` has contributed. -/
def byThread {α : Type} [DecidableEq τ] (t : τ) (xs : List (τ × α)) : List α :=
  (xs.filter fun x ↦ x.1 = t).map Prod.snd

namespace SubscriberThreads

variable [DecidableEq τ]

def queueOf : Code (List T) (QueueCall T) (QueueStatement T) (QueueResult T) := queueCode id

def go (t : τ) (s : SubscriberThreads τ T) : SubscriberThreads τ T :=
  match s.queue.phase t with
  | .idle =>
    match s.todo t with
    | [] => s
    | .writeStarted value :: rest =>
      { s with
        started := value
        todo := Function.update s.todo t rest
        history := s.history ++ if value then [(t, .start, none)] else [] }
    | .locked call :: rest =>
      { s with
        queue := Monitor.step queueOf s.queue (.invoke t call)
        todo := Function.update s.todo t rest }
  | _ =>
    { s with
      queue := Monitor.go queueOf t s.queue
      history := s.history
        ++ (effects (news queueOf t s.queue)).map fun e ↦ (t, e.1.asCall, e.2.value) }

def step (s : SubscriberThreads τ T) : ThreadMove τ T → SubscriberThreads τ T
  | .call t c =>
    match s.queue.phase t, s.todo t with
    | .idle, [] =>
      { s with
        todo := Function.update s.todo t c.accesses
        made := s.made ++ [(t, c)] }
    | _, _ => s
  | .go t => go t s

/-- The object after the calls that have taken effect, one by one. -/
def sequential (s : SubscriberThreads τ T) : FastSubscriber T :=
  run FastSubscriber.performs {} (s.history.map Prod.snd)

/-- What thread `t` has still to do of the calls it has made. -/
def pending (s : SubscriberThreads τ T) (t : τ) : List (SubscriberCall T) :=
  ((s.queue.phase t).current.map QueueCall.asCall).toList
    ++ (s.todo t).filterMap Access.asCall

/-- **The invariant**: the calls that have taken effect have the answers they have one by one, the
queue is what they leave, and every thread sees its own in the order in which it has made them. -/
structure Atomic (s : SubscriberThreads τ T) : Prop where
  sound : Sound queueOf (queueMethod id) [] s.queue
  legal : Along FastSubscriber.performs FastSubscriber.Answers {} (s.history.map Prod.snd)
  queue : s.sequential.messageQueue = replayed (queueMethod id) [] s.queue.log
  inOrder : ∀ t, (byThread t s.made).flatMap SubscriberCall.parts
    = (byThread t s.history).map Prod.fst ++ s.pending t

/-! ## One access -/

section ByThread

variable {α : Type} {t u : τ} {xs : List (τ × α)}

theorem byThread_append (t : τ) (xs ys : List (τ × α)) :
    byThread t (xs ++ ys) = byThread t xs ++ byThread t ys := by
  rw [byThread, List.filter_append, List.map_append, byThread, byThread]

theorem byThread_self (t : τ) (ys : List α) : byThread t (ys.map (t, ·)) = ys := by
  simp [byThread, List.filter_map, Function.comp_def]

theorem byThread_of_ne (hu : u ≠ t) (ys : List α) : byThread u (ys.map (t, ·)) = [] := by
  simp [byThread, List.filter_map, Function.comp_def, hu.symm]

end ByThread

variable {s : SubscriberThreads τ T} {t : τ}

/-- A step of one thread that keeps the balance between what it has to do and what it has done. -/
theorem Atomic.inOrder_step {s' : SubscriberThreads τ T} (h : s.Atomic) (t : τ)
    (calls : List (SubscriberCall T)) (events : List (SubscriberCall T × Option T))
    (hmade : s'.made = s.made ++ calls.map (t, ·))
    (hhistory : s'.history = s.history ++ events.map (t, ·))
    (hothers : ∀ u, u ≠ t → s'.pending u = s.pending u)
    (hbalance : s.pending t ++ calls.flatMap SubscriberCall.parts
      = events.map Prod.fst ++ s'.pending t) (u : τ) :
    (byThread u s'.made).flatMap SubscriberCall.parts
      = (byThread u s'.history).map Prod.fst ++ s'.pending u := by
  rw [hmade, hhistory, byThread_append, byThread_append, List.flatMap_append, h.inOrder u]
  by_cases hu : u = t
  · subst hu
    rw [byThread_self, byThread_self, List.map_append, List.append_assoc, hbalance,
      List.append_assoc]
  · rw [byThread_of_ne hu, byThread_of_ne hu, hothers u hu]
    simp

omit [DecidableEq τ] in
theorem pending_congr {s' : SubscriberThreads τ T} {u : τ}
    (hphase : s'.queue.phase u = s.queue.phase u) (htodo : s'.todo u = s.todo u) :
    s'.pending u = s.pending u := by
  rw [pending, hphase, htodo, pending]

omit [DecidableEq τ] in
/-- A call that takes effect. -/
theorem sequential_concat (s : SubscriberThreads τ T) (t : τ) (c : SubscriberCall T)
    (answer : Option T) :
    run FastSubscriber.performs {} ((s.history ++ [(t, c, answer)]).map Prod.snd)
      = s.sequential.perform c := by
  rw [List.map_append, List.map_singleton, run_concat, FastSubscriber.performs, sequential]

theorem Atomic.legal_concat (h : s.Atomic) (t : τ) {c : SubscriberCall T} {answer : Option T}
    (hanswer : s.sequential.answer c = answer) :
    Along FastSubscriber.performs FastSubscriber.Answers {}
      ((s.history ++ [(t, c, answer)]).map Prod.snd) := by
  rw [List.map_append, List.map_singleton, along_concat]
  exact ⟨h.legal, hanswer⟩

theorem Atomic.call (h : s.Atomic) {c : SubscriberCall T} (hphase : s.queue.phase t = .idle)
    (htodo : s.todo t = []) :
    Atomic { s with
      todo := Function.update s.todo t c.accesses
      made := s.made ++ [(t, c)] } := by
  refine ⟨h.sound, h.legal, h.queue, h.inOrder_step t [c] [] rfl
    (List.append_nil _).symm (fun u hu ↦ pending_congr rfl (Function.update_of_ne hu _ _)) ?_⟩
  rw [pending, pending, hphase, htodo]
  simp [Phase.current, SubscriberCall.parts]

theorem Atomic.writeStarted (h : s.Atomic) {value : Bool} {rest : List (Access T)}
    (hphase : s.queue.phase t = .idle) (htodo : s.todo t = .writeStarted value :: rest) :
    Atomic { s with
      started := value
      todo := Function.update s.todo t rest
      history := s.history ++ if value then [(t, .start, none)] else [] } := by
  have hothers : ∀ u, u ≠ t → Function.update s.todo t rest u = s.todo u := fun u hu ↦
    Function.update_of_ne hu _ _
  cases value with
  | false =>
    rw [if_neg Bool.false_ne_true, List.append_nil]
    refine ⟨h.sound, h.legal, h.queue, h.inOrder_step t [] []
      (List.append_nil _).symm (List.append_nil _).symm
      (fun u hu ↦ pending_congr rfl (hothers u hu)) ?_⟩
    rw [pending, pending, hphase, htodo, List.filterMap_cons_none rfl]
    simp
  | true =>
    rw [if_pos rfl]
    refine ⟨h.sound, h.legal_concat t rfl, ?_, h.inOrder_step t [] [(.start, none)] (List.append_nil _).symm rfl
      (fun u hu ↦ pending_congr rfl (hothers u hu)) ?_⟩
    · rw [sequential, sequential_concat]
      exact h.queue
    · have hstart : Access.asCall (.writeStarted true : Access T) = some .start := rfl
      rw [pending, pending, hphase, htodo, List.filterMap_cons_some hstart]
      simp [Phase.current]

theorem Atomic.lock (h : s.Atomic) {call : QueueCall T} {rest : List (Access T)}
    (hphase : s.queue.phase t = .idle) (htodo : s.todo t = .locked call :: rest) :
    Atomic { s with
      queue := Monitor.step queueOf s.queue (.invoke t call)
      todo := Function.update s.todo t rest } := by
  have hsound := h.sound.step (queueCode_implements id) (.invoke t call)
  have hstep : Monitor.step queueOf s.queue (.invoke t call) = { s.queue with
      phase := Function.update s.queue.phase t (.waiting call)
      log := s.queue.log ++ [.invoke t call] } := by
    rw [Monitor.step, hphase]
  refine ⟨hsound, h.legal, ?_, h.inOrder_step t [] []
    (List.append_nil _).symm (List.append_nil _).symm (fun u hu ↦ pending_congr ?_ ?_) ?_⟩
  · simp only [hstep, replayed_invoke]
    exact h.queue
  · rw [hstep]
    exact Function.update_of_ne hu _ _
  · exact Function.update_of_ne hu _ _
  · rw [pending, pending, hphase, htodo]
    simp [hstep, Phase.current, Access.asCall]

/-- A statement of the code under the mutex, or an access to the mutex itself. -/
theorem Atomic.work (h : s.Atomic) (t : τ) :
    Atomic { s with
      queue := Monitor.go queueOf t s.queue
      history := s.history
        ++ (effects (news queueOf t s.queue)).map fun e ↦ (t, e.1.asCall, e.2.value) } := by
  have hsound := h.sound.onward (queueCode_implements id) t
  have hothers : ∀ u, u ≠ t → (Monitor.go queueOf t s.queue).phase u = s.queue.phase u :=
    fun u hu ↦ phase_go_of_ne hu
  have hlog := log_go queueOf t s.queue
  have hreplayed : replayed (queueMethod id) [] (Monitor.go queueOf t s.queue).log
      = run (apply (queueMethod id)) (replayed (queueMethod id) [] s.queue.log)
        (effects (news queueOf t s.queue)) := by
    rw [hlog, replayed, effects_append, run_append, replayed]
  rcases current_go queueOf t s.queue with ⟨call, result, hbefore, heffect, hafter⟩ | ⟨hnone, hsame⟩
  · have hlegal := hsound.legal
    rw [hlog, effects_append, heffect, along_concat] at hlegal
    have hresult : (queueMethod id call s.sequential.messageQueue).1 = result := by
      rw [h.queue]
      exact hlegal.2
    obtain ⟨hanswer, hqueue⟩ := s.sequential.asCall_spec call
    rw [heffect] at hreplayed ⊢
    refine ⟨hsound, h.legal_concat t ?_, ?_, h.inOrder_step t [] [(call.asCall, result.value)] (List.append_nil _).symm rfl
      (fun u hu ↦ pending_congr (hothers u hu) rfl) ?_⟩
    · rw [hanswer, ← hresult]
      rfl
    · rw [hreplayed, ← h.queue]
      exact (congrArg FastSubscriber.messageQueue (s.sequential_concat t _ _)).trans hqueue
    · rw [pending, pending, hbefore, hafter]
      simp
  · rw [hnone] at hreplayed ⊢
    rw [List.map_nil, List.append_nil]
    refine ⟨hsound, h.legal, ?_, h.inOrder_step t [] []
      (List.append_nil _).symm (List.append_nil _).symm
      (fun u hu ↦ pending_congr (hothers u hu) rfl) ?_⟩
    · rw [hreplayed]
      exact h.queue
    · rw [pending, pending, hsame]
      simp

theorem Atomic.go (h : s.Atomic) (t : τ) : (go t s).Atomic := by
  rw [SubscriberThreads.go]
  split
  · rename_i hphase
    split
    · exact h
    · rename_i value rest htodo
      exact h.writeStarted hphase htodo
    · rename_i call rest htodo
      exact h.lock hphase htodo
  · exact h.work t

theorem Atomic.step (h : s.Atomic) (m : ThreadMove τ T) : (step s m).Atomic := by
  cases m with
  | go t => exact h.go t
  | call t c =>
    rw [SubscriberThreads.step]
    split
    · rename_i hphase htodo
      exact h.call hphase htodo
    · exact h

/-! ## Every schedule -/

theorem atomic_run (ms : List (ThreadMove τ T)) :
    (run step ({} : SubscriberThreads τ T) ms).Atomic := by
  have h0 : ({} : SubscriberThreads τ T).Atomic :=
    ⟨sound_run (queueCode_implements id) [] [], trivial, rfl, fun _ ↦ rfl⟩
  exact run_invariant h0 (fun _ m h ↦ h.step m) ms

/-- What any number of threads can rely on. The calls that have taken effect have the answers that
they have one by one, and leave the queue that they leave one by one; a thread's calls have taken
effect in the order in which it has made them, the samples of a batch in the order in which it has
taken them. Since the queue was last emptied no sample has been lost, returned twice or overtaken. -/
structure ThreadSafe (s : SubscriberThreads τ T) : Prop where
  answered : Along FastSubscriber.performs FastSubscriber.Answers {} (s.history.map Prod.snd)
  queue : s.queue.owner = none → s.queue.object = s.sequential.messageQueue
  inOrder : ∀ t, (byThread t s.made).flatMap SubscriberCall.parts
    = (byThread t s.history).map Prod.fst ++ s.pending t
  delivered : pushedValues id (sinceClear id (effects s.queue.log))
    = poppedValues (sinceClear id (effects s.queue.log)) ++ s.sequential.messageQueue
  defined : ∀ t call, s.queue.phase t ≠ .undefined call

/-- **Every schedule of every number of threads** makes of the calls what they are one by one. -/
theorem threadSafe_run (ms : List (ThreadMove τ T)) :
    (run step ({} : SubscriberThreads τ T) ms).ThreadSafe := by
  have h := atomic_run ms
  generalize run step ({} : SubscriberThreads τ T) ms = s at h
  refine ⟨h.legal, fun hfree ↦ ?_, h.inOrder, ?_, h.sound.defined⟩
  · rw [h.queue]
    exact h.sound.free hfree
  · rw [h.queue]
    exact pushed_eq_popped_append h.sound.legal

/-! ## The flag -/

/-- The thread is between the two accesses of a stop. -/
def Stopping (s : SubscriberThreads τ T) (t : τ) : Prop :=
  (s.queue.phase t).current = some .clear ∨ (s.todo t).head? = some (.locked .clear)

/-- A start that writes the flag does so while no stop is under way. -/
def StartsAlone (s : SubscriberThreads τ T) (m : ThreadMove τ T) : Prop :=
  ∀ t, m = .go t → s.queue.phase t = .idle → (s.todo t).head? = some (.writeStarted true) →
    ∀ u, ¬s.Stopping u

/-- The flag is false throughout a stop, and else that of the calls one by one. -/
structure Flagged (s : SubscriberThreads τ T) : Prop where
  suffix : ∀ t, ∃ c : SubscriberCall T, s.todo t <:+ c.accesses
  stopping : ∀ t, s.Stopping t → s.started = false
  settled : (∀ t, ¬s.Stopping t) → s.started = s.sequential.started

end SubscriberThreads

namespace FastSubscriber

theorem started_perform_asCall (f : FastSubscriber T) (call : QueueCall T) :
    (f.perform call.asCall).started = (f.started && !call.isClear) := by
  cases call with
  | push sample => exact (Bool.and_true _).symm
  | clear => exact (Bool.and_false _).symm
  | tryPop =>
    rcases hqueue : f.messageQueue with _ | ⟨x, rest⟩
    all_goals simp [QueueCall.asCall, perform, readNext, hqueue, QueueCall.isClear]

end FastSubscriber

/-- What follows a part of a call. -/
theorem SubscriberCall.accesses_suffix {c : SubscriberCall T} {a : Access T}
    {rest : List (Access T)} (h : a :: rest <:+ c.accesses) :
    match a with
    | .writeStarted true => rest = []
    | .writeStarted false => rest = [.locked .clear]
    | .locked _ => rest.head? ≠ some (.locked .clear) := by
  cases c with
  | start =>
    obtain ⟨rfl, rfl⟩ : a = .writeStarted true ∧ rest = [] := by
      simpa [accesses, List.suffix_cons_iff] using h
    rfl
  | readNext =>
    obtain ⟨rfl, rfl⟩ : a = .locked .tryPop ∧ rest = [] := by
      simpa [accesses, List.suffix_cons_iff] using h
    simp
  | stop =>
    have hcases : (a = .writeStarted false ∧ rest = [.locked .clear]) ∨
        a = .locked .clear ∧ rest = [] := by
      simpa [accesses, List.suffix_cons_iff] using h
    rcases hcases with ⟨rfl, rfl⟩ | ⟨rfl, rfl⟩
    · rfl
    · simp
  | onDataAvailable batch =>
    have hpush : ∀ x ∈ a :: rest, ∃ sample, x = .locked (.push sample) := fun x hx ↦ by
      obtain ⟨sample, -, rfl⟩ := List.mem_map.mp (h.subset hx)
      exact ⟨sample, rfl⟩
    obtain ⟨sample, rfl⟩ := hpush a List.mem_cons_self
    intro hhead
    obtain ⟨sample', hsample'⟩ := hpush _ (List.mem_cons_of_mem _ (List.mem_of_mem_head? hhead))
    exact absurd hsample' (by simp)

theorem SubscriberCall.head?_accesses (c : SubscriberCall T) :
    c.accesses.head? ≠ some (.locked .clear) := by
  cases c with
  | onDataAvailable batch => simp [accesses]
  | _ => simp [accesses]

namespace SubscriberThreads

variable [DecidableEq τ] {s : SubscriberThreads τ T} {t : τ}

omit [DecidableEq τ] in
theorem stopping_congr {s' : SubscriberThreads τ T} {u : τ}
    (hphase : s'.queue.phase u = s.queue.phase u) (htodo : s'.todo u = s.todo u) :
    s'.Stopping u ↔ s.Stopping u := by
  rw [Stopping, hphase, htodo, Stopping]

omit [DecidableEq τ] in
theorem Stopping.of_eq {s' : SubscriberThreads τ T} {u : τ} (h : s'.Stopping u)
    (hphase : s.queue.phase u = s'.queue.phase u) (htodo : s.todo u = s'.todo u) : s.Stopping u :=
  (stopping_congr hphase htodo).mpr h

omit [DecidableEq τ] in
/-- A step in which no stop begins or ends, and no start. -/
theorem Flagged.frame {s' : SubscriberThreads τ T} (h : s.Flagged)
    (hsuffix : ∀ t, ∃ c : SubscriberCall T, s'.todo t <:+ c.accesses)
    (hstopping : ∀ u, s'.Stopping u ↔ s.Stopping u) (hstarted : s'.started = s.started)
    (hsequential : s'.sequential.started = s.sequential.started) : s'.Flagged where
  suffix := hsuffix
  stopping u hu := by
    rw [hstarted]
    exact h.stopping u ((hstopping u).mp hu)
  settled hnone := by
    rw [hstarted, hsequential]
    exact h.settled fun u hu ↦ hnone u ((hstopping u).mpr hu)

theorem Flagged.suffix_update (h : s.Flagged) {todo : List (Access T)}
    (htodo : ∃ c : SubscriberCall T, todo <:+ c.accesses) (u : τ) :
    ∃ c : SubscriberCall T, Function.update s.todo t todo u <:+ c.accesses := by
  by_cases hu : u = t
  · subst hu
    rwa [Function.update_self]
  · rw [Function.update_of_ne hu]
    exact h.suffix u

theorem Flagged.call (h : s.Flagged) {c : SubscriberCall T} (hphase : s.queue.phase t = .idle)
    (htodo : s.todo t = []) :
    Flagged { s with
      todo := Function.update s.todo t c.accesses
      made := s.made ++ [(t, c)] } := by
  refine h.frame (h.suffix_update ⟨c, List.suffix_refl _⟩) (fun u ↦ ?_) rfl rfl
  by_cases hu : u = t
  · subst hu
    simp only [Stopping, hphase, htodo, Function.update_self]
    simp [c.head?_accesses]
  · exact stopping_congr rfl (Function.update_of_ne hu _ _)

theorem Flagged.writeStarted (h : s.Flagged) {value : Bool} {rest : List (Access T)}
    (hphase : s.queue.phase t = .idle) (htodo : s.todo t = .writeStarted value :: rest)
    (halone : value = true → ∀ u, ¬s.Stopping u) :
    Flagged { s with
      started := value
      todo := Function.update s.todo t rest
      history := s.history ++ if value then [(t, .start, none)] else [] } := by
  obtain ⟨c, hc⟩ := h.suffix t
  rw [htodo] at hc
  have hrest := SubscriberCall.accesses_suffix hc
  have hsuffix := h.suffix_update (t := t) ⟨c, (List.suffix_cons _ _).trans hc⟩
  cases value with
  | false =>
    obtain rfl : rest = [.locked .clear] := hrest
    refine ⟨hsuffix, fun _ _ ↦ rfl, fun hnone ↦ absurd (.inr ?_) (hnone t)⟩
    simp only [Function.update_self]
    rfl
  | true =>
    obtain rfl : rest = [] := hrest
    have hnone := halone rfl
    refine ⟨hsuffix, fun u hu ↦ absurd hu ?_, fun _ ↦ ?_⟩
    · by_cases hut : u = t
      · subst hut
        simp only [Stopping, hphase, Function.update_self]
        simp [Phase.current]
      · exact fun hu' ↦ hnone u (hu'.of_eq rfl (Function.update_of_ne hut _ _).symm)
    · rw [if_pos rfl, sequential, sequential_concat]
      rfl

theorem Flagged.lock (h : s.Flagged) {call : QueueCall T} {rest : List (Access T)}
    (hphase : s.queue.phase t = .idle) (htodo : s.todo t = .locked call :: rest) :
    Flagged { s with
      queue := Monitor.step queueOf s.queue (.invoke t call)
      todo := Function.update s.todo t rest } := by
  obtain ⟨c, hc⟩ := h.suffix t
  rw [htodo] at hc
  have hrest : rest.head? ≠ some (.locked .clear) := SubscriberCall.accesses_suffix hc
  have hstep : (Monitor.step queueOf s.queue (.invoke t call)).phase
      = Function.update s.queue.phase t (.waiting call) := by
    rw [Monitor.step, hphase]
  refine h.frame (h.suffix_update ⟨c, (List.suffix_cons _ _).trans hc⟩) (fun u ↦ ?_) rfl rfl
  by_cases hu : u = t
  · subst hu
    simp only [Stopping, hstep, hphase, htodo, Function.update_self]
    simp [Phase.current, hrest]
  · refine stopping_congr ?_ (Function.update_of_ne hu _ _)
    rw [hstep]
    exact Function.update_of_ne hu _ _

theorem Flagged.work (h : s.Flagged) (t : τ) :
    Flagged { s with
      queue := Monitor.go queueOf t s.queue
      history := s.history
        ++ (effects (news queueOf t s.queue)).map fun e ↦ (t, e.1.asCall, e.2.value) } := by
  have hothers : ∀ u, u ≠ t → (Monitor.go queueOf t s.queue).phase u = s.queue.phase u :=
    fun u hu ↦ phase_go_of_ne hu
  rcases current_go queueOf t s.queue with ⟨call, result, hbefore, heffect, hafter⟩ | ⟨hnone, hsame⟩
  · have hsequential : (run FastSubscriber.performs {}
        ((s.history ++ [(t, call.asCall, result.value)]).map Prod.snd)).started
          = (s.sequential.started && !call.isClear) := by
      rw [sequential_concat]
      exact s.sequential.started_perform_asCall call
    rw [heffect]
    by_cases hclear : call = .clear
    · -- the end of a stop, during which the flag is false
      subst hclear
      refine ⟨h.suffix, fun u hu ↦ h.stopping u ?_, fun _ ↦ ?_⟩
      · by_cases hut : u = t
        · exact .inl (hut ▸ hbefore)
        · exact hu.of_eq (hothers u hut).symm rfl
      · rw [sequential]
        refine (h.stopping t (.inl hbefore)).trans ?_
        exact (hsequential.trans (Bool.and_false _)).symm
    · refine h.frame h.suffix (fun u ↦ ?_) rfl ?_
      · by_cases hut : u = t
        · subst hut
          rw [Stopping, Stopping, hbefore, hafter]
          simp [hclear]
        · exact stopping_congr (hothers u hut) rfl
      · have hkeeps : call.isClear = false := by
          cases call with
          | clear => exact absurd rfl hclear
          | _ => rfl
        rw [sequential]
        refine hsequential.trans ?_
        rw [hkeeps]
        exact Bool.and_true _
  · rw [hnone, List.map_nil, List.append_nil]
    refine h.frame h.suffix (fun u ↦ ?_) rfl rfl
    by_cases hut : u = t
    · subst hut
      rw [Stopping, Stopping, hsame]
    · exact stopping_congr (hothers u hut) rfl

theorem Flagged.step (h : s.Flagged) {m : ThreadMove τ T} (hm : s.StartsAlone m) :
    (step s m).Flagged := by
  cases m with
  | call t c =>
    rw [SubscriberThreads.step]
    split
    · rename_i hphase htodo
      exact h.call hphase htodo
    · exact h
  | go t =>
    rw [SubscriberThreads.step, SubscriberThreads.go]
    split
    · rename_i hphase
      split
      · exact h
      · rename_i value rest htodo
        refine h.writeStarted hphase htodo fun hvalue ↦ ?_
        subst hvalue
        exact hm t rfl hphase (by rw [htodo]; rfl)
      · rename_i call rest htodo
        exact h.lock hphase htodo
    · exact h.work t

theorem flagged_run (ms : List (ThreadMove τ T))
    (halone : Along step StartsAlone ({} : SubscriberThreads τ T) ms) :
    (run step ({} : SubscriberThreads τ T) ms).Flagged := by
  induction ms using List.reverseRecOn with
  | nil =>
    refine ⟨fun _ ↦ ⟨.start, List.nil_suffix⟩, fun t ht ↦ absurd ht ?_, fun _ ↦ rfl⟩
    simp [Stopping, Phase.current]
  | append_singleton ms m ih =>
    obtain ⟨hms, hm⟩ := along_concat.mp halone
    rw [run_concat]
    exact (ih hms).step hm

/-- The thread is not in a call. -/
def AtRest (s : SubscriberThreads τ T) (t : τ) : Prop := s.queue.phase t = .idle ∧ s.todo t = []

/-- The members of the subscriber. -/
def object (s : SubscriberThreads τ T) : FastSubscriber T where
  started := s.started
  messageQueue := s.queue.object

/-- **The whole object.** As long as no start comes within a stop of another thread, an object that
no thread is busy with is the one that the calls leave, made one by one in an order in which each
thread has made its own. A batch of arrivals counts as a call for each of its samples. -/
theorem quiet_run (ms : List (ThreadMove τ T))
    (halone : Along step StartsAlone ({} : SubscriberThreads τ T) ms)
    (hquiet : ∀ t, (run step ({} : SubscriberThreads τ T) ms).AtRest t) :
    (run step ({} : SubscriberThreads τ T) ms).object
        = (run step ({} : SubscriberThreads τ T) ms).sequential ∧
      ∀ t, (byThread t (run step ({} : SubscriberThreads τ T) ms).made).flatMap SubscriberCall.parts
        = (byThread t (run step ({} : SubscriberThreads τ T) ms).history).map Prod.fst := by
  have h := atomic_run ms
  have hflagged := flagged_run ms halone
  generalize run step ({} : SubscriberThreads τ T) ms = s at h hflagged hquiet ⊢
  have hfree : s.queue.owner = none := by
    by_contra howned
    obtain ⟨t, howner⟩ := Option.ne_none_iff_exists'.mp howned
    have howning := h.sound.owning t howner
    rw [(hquiet t).1] at howning
    exact howning
  have hstarted : s.started = s.sequential.started := by
    refine hflagged.settled fun t hstopping ↦ ?_
    obtain ⟨hphase, htodo⟩ := hquiet t
    rw [Stopping, hphase, htodo] at hstopping
    simp [Phase.current] at hstopping
  have hqueue : s.queue.object = s.sequential.messageQueue := by
    rw [h.queue]
    exact h.sound.free hfree
  refine ⟨?_, fun t ↦ ?_⟩
  · rw [object, hstarted, hqueue]
  · rw [h.inOrder t, pending, (hquiet t).1, (hquiet t).2]
    exact List.append_nil _

instance [DecidableEq T] (s : SubscriberThreads τ T) (t : τ) : Decidable (s.Stopping t) :=
  inferInstanceAs (Decidable (_ ∨ _))

instance [DecidableEq T] [Fintype τ] (s : SubscriberThreads τ T) (m : ThreadMove τ T) :
    Decidable (s.StartsAlone m) :=
  inferInstanceAs (Decidable (∀ t, m = .go t → _))

instance [DecidableEq T] (s : SubscriberThreads τ T) (t : τ) : Decidable (s.AtRest t) :=
  inferInstanceAs (Decidable (_ ∧ _))

/-- A user and a thread of the middleware. The first sample is read while the second one waits. -/
def readDuringBatch : List (ThreadMove Bool ℕ) :=
  [.call false .start, .go false,
    .call true (.onDataAvailable [(.ALIVE_INSTANCE_STATE, 7),
      (.NOT_ALIVE_DISPOSED_INSTANCE_STATE, 0), (.ALIVE_INSTANCE_STATE, 8)]),
    .go true, .call false .readNext, .go false, .go true, .go false, .go true, .go true, .go true,
    .go true, .go false, .go true, .go false, .go false, .go false, .go false, .go false,
    .go true, .go true, .go true, .go true]

theorem quiet_run_readDuringBatch :
    (run step {} readDuringBatch).object = { started := true, messageQueue := [8] } := by
  have h := quiet_run readDuringBatch (by decide +kernel) (by decide +kernel)
  rw [h.1]
  decide +kernel

/-- A start, and the arrival of a sample after it, between the two accesses of a stop. -/
def startWithinStop : List (ThreadMove Bool ℕ) :=
  [.call false .stop, .go false, .call true .start, .go true,
    .call true (.onDataAvailable [(.ALIVE_INSTANCE_STATE, 7)]), .go true, .go true, .go true,
    .go true, .go true, .go false, .go false, .go false, .go false, .go false]

/-- No order of these calls explains the object: it is started, and the sample is gone. -/
theorem startWithinStop_unexplained : (∀ t, (run step {} startWithinStop).AtRest t) ∧
    ¬∃ cs : List (Bool × SubscriberCall ℕ),
      (∀ t, byThread t cs
        = (byThread t (run step {} startWithinStop).made).flatMap SubscriberCall.parts) ∧
      run FastSubscriber.perform {} (cs.map Prod.snd) = (run step {} startWithinStop).object := by
  refine ⟨by decide +kernel, ?_⟩
  rintro ⟨cs, hcs, hobject⟩
  have hstop : byThread false cs = [.stop] := (hcs false).trans (by decide +kernel)
  have hstart : byThread true cs = [.start, .onDataAvailable [(.ALIVE_INSTANCE_STATE, 7)]] :=
    (hcs true).trans (by decide +kernel)
  have hlost : run FastSubscriber.perform {} (cs.map Prod.snd)
      = { started := true, messageQueue := [] } := hobject.trans (by decide +kernel)
  -- the three orders of the three calls
  rcases cs with _ | ⟨⟨_ | _, a⟩, _ | ⟨⟨_ | _, b⟩, _ | ⟨⟨_ | _, c⟩, _ | ⟨⟨_ | _, d⟩, cs⟩⟩⟩⟩
  all_goals simp [byThread] at hstop hstart
  · obtain ⟨rfl, rfl, rfl⟩ := And.intro hstop hstart
    exact absurd hlost (by decide)
  · obtain ⟨rfl, rfl, rfl⟩ := And.intro hstop hstart
    exact absurd hlost (by decide)
  · obtain ⟨rfl, rfl, rfl⟩ := And.intro hstop hstart
    exact absurd hlost (by decide)

end SubscriberThreads

end IndraDds
