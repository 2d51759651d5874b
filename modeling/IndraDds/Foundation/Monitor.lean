import IndraDds.Foundation.Transition
import Mathlib.Logic.Function.Iterate

/-!
# Calls under a mutex

An object with one mutex: each of its methods locks it, works on the object and unlocks it again,
and any number of threads call the methods at any time. `Code` gives the work step by step, so that
the steps of all threads interleave; a thread that waits for the mutex takes it when it is free, in
no particular order.

`Method` says what a whole call does to the object, and `Implements` that the code does this when
it is left alone. Then it does it in every run as well: the calls take effect one after the other,
each at one moment between its invocation and its response, and the object is what they leave. The
log, which no thread reads, records these moments.
-/

namespace Monitor

open Transition

variable {τ σ ι κ ρ : Type*}

/-! ## Code and methods -/

/-- The code of the methods between lock and unlock, with a position for each of its steps. A step
gives the object and the next position or the result of the call; it has no successor where its
effect is undefined. -/
structure Code (σ ι κ ρ : Type*) where
  entry : ι → κ
  next : κ → σ → Option (σ × (κ ⊕ ρ))

/-- What whole calls do: their results, and the object they leave. -/
abbrev Method (σ ι ρ : Type*) := ι → σ → ρ × σ

/-- From this position, left alone, the code comes to this result and this object. -/
inductive Code.Finishes (code : Code σ ι κ ρ) : κ → σ → ρ → σ → Prop
  | last {pos : κ} {object object' : σ} {result : ρ}
      (h : code.next pos object = some (object', .inr result)) :
      Finishes code pos object result object'
  | more {pos pos' : κ} {object object' object'' : σ} {result : ρ}
      (h : code.next pos object = some (object', .inl pos'))
      (rest : Finishes code pos' object' result object'') :
      Finishes code pos object result object''

/-- Left alone, every call does what its method says. -/
def Code.Implements (code : Code σ ι κ ρ) (method : Method σ ι ρ) : Prop :=
  ∀ call object,
    code.Finishes (code.entry call) object (method call object).1 (method call object).2

/-! ## Threads -/

/-- Where a thread is. -/
inductive Phase (ι κ ρ : Type*) where
  | idle
  | waiting (call : ι)
  | inside (call : ι) (pos : κ)
  | leaving (call : ι) (result : ρ)
  | unlocked (call : ι) (result : ρ)
  | undefined (call : ι)
deriving DecidableEq, Repr

/-- What has happened, to which thread. -/
inductive Event (τ ι ρ : Type*) where
  | invoke (thread : τ) (call : ι)
  | effect (thread : τ) (call : ι) (result : ρ)
  | respond (thread : τ) (call : ι) (result : ρ)
deriving DecidableEq, Repr

def Event.thread : Event τ ι ρ → τ
  | invoke t _ => t
  | effect t _ _ => t
  | respond t _ _ => t

structure State (τ σ ι κ ρ : Type*) where
  object : σ
  owner : Option τ := none
  phase : τ → Phase ι κ ρ := fun _ ↦ .idle
  log : List (Event τ ι ρ) := []

/-- An idle thread calls a method, or a thread goes on with its call. -/
inductive Move (τ ι : Type*) where
  | invoke (thread : τ) (call : ι)
  | go (thread : τ)
deriving DecidableEq, Repr

variable [DecidableEq τ]

/-- A step of thread `t`. -/
def go (code : Code σ ι κ ρ) (t : τ) (s : State τ σ ι κ ρ) : State τ σ ι κ ρ :=
  match s.phase t with
  | .idle => s
  | .waiting call =>
    match s.owner with
    | none =>
      { s with owner := some t, phase := Function.update s.phase t (.inside call (code.entry call)) }
    | some _ => s
  | .inside call pos =>
    match code.next pos s.object with
    | none => { s with phase := Function.update s.phase t (.undefined call) }
    | some (object, .inl pos') =>
      { s with object := object, phase := Function.update s.phase t (.inside call pos') }
    | some (object, .inr result) =>
      { s with
        object := object
        phase := Function.update s.phase t (.leaving call result)
        log := s.log ++ [.effect t call result] }
  | .leaving call result =>
    { s with owner := none, phase := Function.update s.phase t (.unlocked call result) }
  | .unlocked call result =>
    { s with
      phase := Function.update s.phase t .idle
      log := s.log ++ [.respond t call result] }
  | .undefined _ => s

def step (code : Code σ ι κ ρ) (s : State τ σ ι κ ρ) : Move τ ι → State τ σ ι κ ρ
  | .invoke t call =>
    match s.phase t with
    | .idle =>
      { s with
        phase := Function.update s.phase t (.waiting call)
        log := s.log ++ [.invoke t call] }
    | _ => s
  | .go t => go code t s

/-! ## The sequential history -/

/-- The calls that have taken effect, with their results, in the order of their effects. -/
def effects (log : List (Event τ ι ρ)) : List (ι × ρ) :=
  log.filterMap fun e ↦ match e with
    | .effect _ call result => some (call, result)
    | _ => none

/-- The object after one call more. -/
def apply (method : Method σ ι ρ) (object : σ) (e : ι × ρ) : σ := (method e.1 object).2

/-- The call has the result it has when it is made alone. -/
def Returns (method : Method σ ι ρ) (object : σ) (e : ι × ρ) : Prop := (method e.1 object).1 = e.2

/-- The object that the calls in the log leave, one after the other. -/
def replayed (method : Method σ ι ρ) (object : σ) (log : List (Event τ ι ρ)) : σ :=
  run (apply method) object (effects log)

/-- What thread `t` has done. -/
def ofThread (t : τ) (log : List (Event τ ι ρ)) : List (Event τ ι ρ) :=
  log.filter fun e ↦ e.thread = t

/-- A call that is over. -/
def story (t : τ) (d : ι × ρ) : List (Event τ ι ρ) :=
  [.invoke t d.1, .effect t d.1 d.2, .respond t d.1 d.2]

/-- What a thread has done of its call. -/
def Phase.started (t : τ) : Phase ι κ ρ → List (Event τ ι ρ)
  | .idle => []
  | .waiting call => [.invoke t call]
  | .inside call _ => [.invoke t call]
  | .leaving call result => [.invoke t call, .effect t call result]
  | .unlocked call result => [.invoke t call, .effect t call result]
  | .undefined call => [.invoke t call]

/-- A thread outside the mutex. -/
def Phase.Outside : Phase ι κ ρ → Prop
  | .idle => True
  | .waiting _ => True
  | .inside _ _ => False
  | .leaving _ _ => False
  | .unlocked _ _ => True
  | .undefined _ => False

/-- A thread that owns the mutex, with `base` the object it has found: it will come to the result of
its method, or has come to it. -/
def Phase.Owning (code : Code σ ι κ ρ) (method : Method σ ι ρ) (base object : σ) :
    Phase ι κ ρ → Prop
  | .inside call pos => code.Finishes pos object (method call base).1 (method call base).2
  | .leaving _ _ => object = base
  | _ => False

/-- **The invariant.** -/
structure Sound (code : Code σ ι κ ρ) (method : Method σ ι ρ) (object : σ)
    (s : State τ σ ι κ ρ) : Prop where
  legal : Along (apply method) (Returns method) object (effects s.log)
  free : s.owner = none → s.object = replayed method object s.log
  owning : ∀ t, s.owner = some t →
    (s.phase t).Owning code method (replayed method object s.log) s.object
  outside : ∀ t, s.owner ≠ some t → (s.phase t).Outside
  stories : ∀ t, ∃ done : List (ι × ρ),
    ofThread t s.log = done.flatMap (story t) ++ (s.phase t).started t

/-! ## The log -/

section Log

variable {log : List (Event τ ι ρ)} {t : τ} {call : ι} {result : ρ} {method : Method σ ι ρ}
  {object : σ}

omit [DecidableEq τ] in
theorem effects_append (log log' : List (Event τ ι ρ)) :
    effects (log ++ log') = effects log ++ effects log' :=
  List.filterMap_append

omit [DecidableEq τ] in
@[simp] theorem effects_invoke : effects (log ++ [.invoke t call]) = effects log := by
  rw [effects_append]
  exact List.append_nil _

omit [DecidableEq τ] in
@[simp] theorem effects_respond : effects (log ++ [.respond t call result]) = effects log := by
  rw [effects_append]
  exact List.append_nil _

omit [DecidableEq τ] in
@[simp] theorem effects_effect :
    effects (log ++ [.effect t call result]) = effects log ++ [(call, result)] :=
  effects_append log _

omit [DecidableEq τ] in
@[simp] theorem replayed_invoke :
    replayed method object (log ++ [.invoke t call]) = replayed method object log := by
  rw [replayed, effects_invoke, replayed]

omit [DecidableEq τ] in
@[simp] theorem replayed_effect :
    replayed method object (log ++ [.effect t call result])
      = (method call (replayed method object log)).2 := by
  rw [replayed, effects_effect, run_concat, apply, replayed]

theorem ofThread_append (t : τ) (log log' : List (Event τ ι ρ)) :
    ofThread t (log ++ log') = ofThread t log ++ ofThread t log' :=
  List.filter_append _ _

theorem ofThread_of_forall {new : List (Event τ ι ρ)} (h : ∀ e ∈ new, e.thread = t) :
    ofThread t new = new :=
  List.filter_eq_self.mpr fun e he ↦ decide_eq_true (h e he)

theorem ofThread_of_forall_ne {new : List (Event τ ι ρ)} {u : τ} (hu : u ≠ t)
    (h : ∀ e ∈ new, e.thread = t) : ofThread u new = [] :=
  List.filter_eq_nil_iff.mpr fun e he ↦ by simp [h e he, hu.symm]

/-- A step of one thread leaves the others where they are in their stories. -/
theorem stories_update {phase : τ → Phase ι κ ρ} {p : Phase ι κ ρ} (new : List (Event τ ι ρ))
    (h : ∀ u, ∃ done : List (ι × ρ), ofThread u log = done.flatMap (story u) ++ (phase u).started u)
    (hnew : ∀ e ∈ new, e.thread = t)
    (ht : ∃ done : List (ι × ρ), (phase t).started t ++ new = done.flatMap (story t) ++ p.started t)
    (u : τ) : ∃ done : List (ι × ρ), ofThread u (log ++ new)
      = done.flatMap (story u) ++ (Function.update phase t p u).started u := by
  obtain ⟨done, hdone⟩ := h u
  rw [ofThread_append, hdone]
  by_cases hu : u = t
  · subst hu
    obtain ⟨last, hlast⟩ := ht
    refine ⟨done ++ last, ?_⟩
    rw [ofThread_of_forall hnew, Function.update_self, List.append_assoc, hlast,
      List.flatMap_append, List.append_assoc]
  · refine ⟨done, ?_⟩
    rw [ofThread_of_forall_ne hu hnew, Function.update_of_ne hu, List.append_nil]

end Log

/-! ## One step -/

variable {code : Code σ ι κ ρ} {method : Method σ ι ρ} {object : σ} {s : State τ σ ι κ ρ} {t : τ}
  {call : ι} {result : ρ}

/-- The code has a next step, and it is one on the way to the result. -/
theorem Code.Finishes.next {pos : κ} {o o' : σ} (h : code.Finishes pos o result o') :
    code.next pos o = some (o', .inr result) ∨
      ∃ next pos', code.next pos o = some (next, .inl pos') ∧
        code.Finishes pos' next result o' := by
  rcases h with hlast | ⟨hmore, hrest⟩
  · exact .inl hlast
  · exact .inr ⟨_, _, hmore, hrest⟩

/-! ### What a step shows

For a system of which the monitor is a part: what a step adds to the log, and what it leaves of the
call that its thread is about. -/

/-- The call of a thread that has not taken effect yet. -/
def Phase.current : Phase ι κ ρ → Option ι
  | .idle => none
  | .waiting call => some call
  | .inside call _ => some call
  | .leaving _ _ => none
  | .unlocked _ _ => none
  | .undefined call => some call

/-- The events of a step of thread `t`. -/
def news (code : Code σ ι κ ρ) (t : τ) (s : State τ σ ι κ ρ) : List (Event τ ι ρ) :=
  match s.phase t with
  | .inside call pos =>
    match code.next pos s.object with
    | some (_, .inr result) => [.effect t call result]
    | _ => []
  | .unlocked call result => [.respond t call result]
  | _ => []

theorem log_go (code : Code σ ι κ ρ) (t : τ) (s : State τ σ ι κ ρ) :
    (go code t s).log = s.log ++ news code t s := by
  rw [go, news]
  rcases s.phase t with _ | call | ⟨call, pos⟩ | ⟨call, result⟩ | ⟨call, result⟩ | call
  · exact (List.append_nil _).symm
  · rcases s.owner with _ | u <;> exact (List.append_nil _).symm
  · rcases hnext : code.next pos s.object with _ | ⟨object, pos' | result⟩
    all_goals simp only [hnext, List.append_nil]
  · exact (List.append_nil _).symm
  · rfl
  · exact (List.append_nil _).symm

theorem phase_go_of_ne {u : τ} (hu : u ≠ t) : (go code t s).phase u = s.phase u := by
  rw [go]
  rcases s.phase t with _ | call | ⟨call, pos⟩ | ⟨call, result⟩ | ⟨call, result⟩ | call
  · rfl
  · rcases s.owner with _ | v
    · exact Function.update_of_ne hu _ _
    · rfl
  · rcases hnext : code.next pos s.object with _ | ⟨object, pos' | result⟩
    all_goals simp only [hnext]; exact Function.update_of_ne hu _ _
  · exact Function.update_of_ne hu _ _
  · exact Function.update_of_ne hu _ _
  · rfl

/-- A step is the effect of the thread's call, or it leaves the call as it is. -/
theorem current_go (code : Code σ ι κ ρ) (t : τ) (s : State τ σ ι κ ρ) :
    (∃ call result, (s.phase t).current = some call ∧
      effects (news code t s) = [(call, result)] ∧ ((go code t s).phase t).current = none) ∨
    effects (news code t s) = [] ∧ ((go code t s).phase t).current = (s.phase t).current := by
  rw [news, go]
  rcases hphase : s.phase t with _ | call | ⟨call, pos⟩ | ⟨call, result⟩ | ⟨call, result⟩ | call
  · exact .inr ⟨rfl, by rw [hphase]⟩
  · refine .inr ⟨rfl, ?_⟩
    rcases s.owner with _ | u
    · simp only [Function.update_self]
      rfl
    · simp only [hphase]
  · rcases hnext : code.next pos s.object with _ | ⟨object, pos' | result⟩
    all_goals simp only [hnext, Function.update_self]
    · exact .inr ⟨rfl, rfl⟩
    · exact .inr ⟨rfl, rfl⟩
    · exact .inl ⟨call, result, rfl, rfl, rfl⟩
  · exact .inr ⟨rfl, by simp only [Function.update_self]; rfl⟩
  · exact .inr ⟨rfl, by simp only [Function.update_self]; rfl⟩
  · exact .inr ⟨rfl, by rw [hphase]⟩

/-! ### The invariant -/

/-- The thread inside is the owner. -/
theorem Sound.owner_of (h : Sound code method object s) (ht : ¬(s.phase t).Outside) :
    s.owner = some t := by
  by_contra hne
  exact ht (h.outside t hne)

/-- A thread that stays outside takes a step that only it sees. -/
theorem Sound.stayOutside (h : Sound code method object s) {p : Phase ι κ ρ}
    {new : List (Event τ ι ρ)} (hfrom : s.owner ≠ some t) (hto : p.Outside)
    (hnew : ∀ e ∈ new, e.thread = t) (heffects : effects (s.log ++ new) = effects s.log)
    (hstory : ∃ done : List (ι × ρ),
      (s.phase t).started t ++ new = done.flatMap (story t) ++ p.started t) :
    Sound code method object
      { s with phase := Function.update s.phase t p, log := s.log ++ new } := by
  have hreplayed : replayed method object (s.log ++ new) = replayed method object s.log := by
    rw [replayed, heffects, replayed]
  refine ⟨?_, fun hfree ↦ ?_, fun u hu ↦ ?_, fun u hu ↦ ?_, stories_update new h.stories hnew hstory⟩
  · rw [heffects]
    exact h.legal
  · rw [hreplayed]
    exact h.free hfree
  · have hne : u ≠ t := by
      rintro rfl
      exact hfrom hu
    simp only [Function.update_of_ne hne, hreplayed]
    exact h.owning u hu
  · by_cases hut : u = t
    · subst hut
      simpa only [Function.update_self] using hto
    · simp only [Function.update_of_ne hut]
      exact h.outside u hu

/-- The thread inside takes a step. -/
theorem Sound.workInside (h : Sound code method object s) {p : Phase ι κ ρ} (object' : σ)
    (new : List (Event τ ι ρ)) (howner : s.owner = some t) (hnew : ∀ e ∈ new, e.thread = t)
    (hlegal : Along (apply method) (Returns method) object (effects (s.log ++ new)))
    (howning : p.Owning code method (replayed method object (s.log ++ new)) object')
    (hstory : ∃ done : List (ι × ρ),
      (s.phase t).started t ++ new = done.flatMap (story t) ++ p.started t) :
    Sound code method object
      { s with object := object', phase := Function.update s.phase t p, log := s.log ++ new } := by
  refine ⟨hlegal, fun hfree ↦ ?_, fun u hu ↦ ?_, fun u hu ↦ ?_,
    stories_update new h.stories hnew hstory⟩
  · rw [howner] at hfree
    exact absurd hfree (Option.some_ne_none t)
  · obtain rfl : t = u := Option.some.inj (howner.symm.trans hu)
    simpa only [Function.update_self] using howning
  · have hut : u ≠ t := by
      rintro rfl
      exact hu howner
    simp only [Function.update_of_ne hut]
    exact h.outside u hu

theorem Sound.acquire (h : Sound code method object s) (himpl : code.Implements method)
    (hphase : s.phase t = .waiting call) (hfree : s.owner = none) :
    Sound code method object
      { s with
        owner := some t
        phase := Function.update s.phase t (.inside call (code.entry call)) } := by
  refine ⟨h.legal, fun hnone ↦ absurd hnone (Option.some_ne_none t), fun u hu ↦ ?_, fun u hu ↦ ?_,
    fun u ↦ ?_⟩
  · obtain rfl : t = u := Option.some.inj hu
    simp only [Function.update_self, h.free hfree]
    exact himpl call _
  · have hut : u ≠ t := by
      rintro rfl
      exact hu rfl
    simp only [Function.update_of_ne hut]
    exact h.outside u (by rw [hfree]; exact (Option.some_ne_none u).symm)
  · have hstory := stories_update (p := .inside call (code.entry call)) [] h.stories
      (by simp) ⟨[], by rw [hphase]; rfl⟩ u
    rwa [List.append_nil] at hstory

theorem Sound.release (h : Sound code method object s)
    (hphase : s.phase t = .leaving call result) :
    Sound code method object
      { s with owner := none, phase := Function.update s.phase t (.unlocked call result) } := by
  have howner : s.owner = some t := h.owner_of (by rw [hphase]; exact not_false)
  refine ⟨h.legal, fun _ ↦ ?_, fun u hu ↦ absurd hu.symm (Option.some_ne_none u), fun u _ ↦ ?_,
    fun u ↦ ?_⟩
  · have howning := h.owning t howner
    rwa [hphase] at howning
  · by_cases hut : u = t
    · subst hut
      simp only [Function.update_self]
      trivial
    · simp only [Function.update_of_ne hut]
      refine h.outside u fun hu ↦ hut ?_
      exact Option.some.inj (hu.symm.trans howner)
  · have hstory := stories_update (p := .unlocked call result) [] h.stories
      (by simp) ⟨[], by rw [hphase]; rfl⟩ u
    rwa [List.append_nil] at hstory

theorem Sound.work (h : Sound code method object s) {pos : κ}
    (hphase : s.phase t = .inside call pos) : Sound code method object (go code t s) := by
  have howner : s.owner = some t := h.owner_of (by rw [hphase]; exact not_false)
  have hfinishes := h.owning t howner
  rw [hphase] at hfinishes
  rw [go, hphase]
  rcases hfinishes.next with hlast | ⟨next, pos', hmore, hrest⟩
  · simp only [hlast]
    refine h.workInside _ _ howner (by simp [Event.thread]) ?_ ?_ ⟨[], by rw [hphase]; rfl⟩
    · rw [effects_effect, along_concat]
      exact ⟨h.legal, rfl⟩
    · rw [replayed_effect]
      rfl
  · simp only [hmore]
    have hmoved := h.workInside (p := .inside call pos') next [] howner
      (by simp) (by rw [List.append_nil]; exact h.legal) (by rw [List.append_nil]; exact hrest)
      ⟨[], by rw [hphase]; rfl⟩
    rwa [List.append_nil] at hmoved

/-- **One step** of any thread keeps the invariant. -/
theorem Sound.onward (h : Sound code method object s) (himpl : code.Implements method) (t : τ) :
    Sound code method object (go code t s) := by
  rcases hphase : s.phase t with _ | call | ⟨call, pos⟩ | ⟨call, result⟩ | ⟨call, result⟩ | call
  · rw [go, hphase]
    exact h
  · rcases howner : s.owner with _ | u
    · rw [go, hphase]
      simp only [howner]
      exact h.acquire himpl hphase howner
    · rw [go, hphase]
      simp only [howner]
      exact h
  · exact h.work hphase
  · rw [go, hphase]
    exact h.release hphase
  · rw [go, hphase]
    refine h.stayOutside (fun howner ↦ ?_) trivial (by simp [Event.thread]) effects_respond
      ⟨[(call, result)], by rw [hphase]; rfl⟩
    have howning := h.owning t howner
    rw [hphase] at howning
    exact howning
  · rw [go, hphase]
    exact h

theorem Sound.step (h : Sound code method object s) (himpl : code.Implements method)
    (m : Move τ ι) : Sound code method object (step code s m) := by
  rcases m with ⟨t, call⟩ | t
  · rw [Monitor.step]
    split
    · rename_i hphase
      refine h.stayOutside (fun howner ↦ ?_) trivial (by simp [Event.thread]) effects_invoke
        ⟨[], by rw [hphase]; rfl⟩
      have howning := h.owning t howner
      rw [hphase] at howning
      exact howning
    · exact h
  · exact h.onward himpl t

/-! ## Runs -/

/-- **Calls under a mutex are atomic.** After every schedule the calls that have taken effect have
the results, and leave the object, of the same calls made one after the other; and each has taken
effect between its invocation and its response. -/
theorem sound_run (himpl : code.Implements method) (object : σ) (ms : List (Move τ ι)) :
    Sound code method object (run (Monitor.step code) { object := object } ms) := by
  have h0 : Sound code method object ({ object := object } : State τ σ ι κ ρ) :=
    ⟨trivial, fun _ ↦ rfl, fun t ht ↦ absurd ht.symm (Option.some_ne_none t), fun _ _ ↦ trivial,
      fun _ ↦ ⟨[], rfl⟩⟩
  exact run_invariant h0 (fun _ m h ↦ h.step himpl m) ms

/-- No thread executes a step whose effect is undefined. -/
theorem Sound.defined (h : Sound code method object s) (t : τ) (call : ι) :
    s.phase t ≠ .undefined call := by
  intro hphase
  have howning := h.owning t (h.owner_of (by rw [hphase]; exact not_false))
  rw [hphase] at howning
  exact howning

/-! ## Progress -/

theorem go_unlocked (hphase : s.phase t = .unlocked call result) :
    (go code t s).phase t = .idle := by
  rw [go, hphase]
  exact Function.update_self ..

/-- The code runs on to the unlock, and nothing happens to the other threads. -/
theorem Code.Finishes.unlocks {pos : κ} {o o' : σ} (h : code.Finishes pos o result o')
    (s : State τ σ ι κ ρ) (hobject : s.object = o) (hphase : s.phase t = .inside call pos) :
    ∃ n, ((go code t)^[n] s).owner = none ∧ ((go code t)^[n] s).phase t = .unlocked call result ∧
      ∀ u, u ≠ t → ((go code t)^[n] s).phase u = s.phase u := by
  induction h generalizing s with
  | @last _ _ object' result hnext =>
    refine ⟨2, ?_⟩
    have hgo : go code t s = { s with
        object := object'
        phase := Function.update s.phase t (.leaving call result)
        log := s.log ++ [.effect t call result] } := by
      rw [go, hphase]
      simp only [hobject, hnext]
    rw [Function.iterate_succ_apply, Function.iterate_one, hgo, go]
    simp only [Function.update_self]
    exact ⟨trivial, trivial, fun u hu ↦ by rw [Function.update_of_ne hu, Function.update_of_ne hu]⟩
  | @more _ pos' _ object' _ _ hnext _ ih =>
    have hgo : go code t s = { s with
        object := object'
        phase := Function.update s.phase t (.inside call pos') } := by
      rw [go, hphase]
      simp only [hobject, hnext]
    obtain ⟨n, howner, hunlocked, hothers⟩ := ih (go code t s) (by rw [hgo])
      (by rw [hgo]; exact Function.update_self ..)
    refine ⟨n + 1, ?_⟩
    rw [Function.iterate_succ_apply]
    refine ⟨howner, hunlocked, fun u hu ↦ ?_⟩
    rw [hothers u hu, hgo]
    exact Function.update_of_ne hu _ _

/-- The owner comes to its unlock by itself. -/
theorem Sound.unlocks (h : Sound code method object s) (howner : s.owner = some t) :
    ∃ n, ((go code t)^[n] s).owner = none ∧
      (∃ call result, ((go code t)^[n] s).phase t = .unlocked call result) ∧
      ∀ u, u ≠ t → ((go code t)^[n] s).phase u = s.phase u := by
  have howning := h.owning t howner
  rcases hphase : s.phase t with _ | call | ⟨call, pos⟩ | ⟨call, result⟩ | ⟨call, result⟩ | call
  all_goals rw [hphase] at howning
  · exact howning.elim
  · exact howning.elim
  · obtain ⟨n, hnone, hunlocked, hothers⟩ := howning.unlocks s rfl hphase
    exact ⟨n, hnone, ⟨_, _, hunlocked⟩, hothers⟩
  · refine ⟨1, ?_⟩
    rw [Function.iterate_one, go, hphase]
    exact ⟨rfl, ⟨call, result, Function.update_self ..⟩, fun u hu ↦ Function.update_of_ne hu _ _⟩
  · exact howning.elim
  · exact howning.elim

theorem run_go (t : τ) (n : ℕ) (s : State τ σ ι κ ρ) :
    run (Monitor.step code) s (List.replicate n (.go t)) = (go code t)^[n] s := by
  induction n generalizing s with
  | zero => rfl
  | succ n ih =>
    rw [List.replicate_succ, run_cons, ih, Function.iterate_succ_apply]
    rfl

/-- The owner comes back from its call. -/
theorem Sound.returns_owner (h : Sound code method object s) (howner : s.owner = some t) :
    ∃ n, (run (Monitor.step code) s (List.replicate n (.go t))).phase t = .idle := by
  obtain ⟨n, -, ⟨call, result, hunlocked⟩, -⟩ := h.unlocks howner
  refine ⟨n + 1, ?_⟩
  rw [run_go, Function.iterate_succ_apply']
  exact go_unlocked hunlocked

/-- **No deadlock.** In every reachable state every call can be brought to its end, without a new
call of any thread. -/
theorem Sound.completes (h : Sound code method object s) (himpl : code.Implements method) (t : τ) :
    ∃ ts : List τ, (run (Monitor.step code) s (ts.map .go)).phase t = .idle := by
  by_cases howner : s.owner = some t
  · obtain ⟨n, hidle⟩ := h.returns_owner howner
    exact ⟨List.replicate n t, by rwa [List.map_replicate]⟩
  · have houtside := h.outside t howner
    rcases hphase : s.phase t with _ | call | ⟨call, pos⟩ | ⟨call, result⟩ | ⟨call, result⟩ | call
    all_goals rw [hphase] at houtside
    · exact ⟨[], hphase⟩
    · -- whoever owns the mutex comes to its unlock first
      obtain ⟨us, hus⟩ : ∃ us : List τ, (run (Monitor.step code) s (us.map .go)).owner = none ∧
          (run (Monitor.step code) s (us.map .go)).phase t = .waiting call := by
        rcases hother : s.owner with _ | u
        · exact ⟨[], hother, hphase⟩
        · obtain ⟨n, hnone, -, hothers⟩ := h.unlocks hother
          refine ⟨List.replicate n u, ?_⟩
          rw [List.map_replicate, run_go, hothers t (by rintro rfl; exact howner hother)]
          exact ⟨hnone, hphase⟩
      obtain ⟨hfree, hwaiting⟩ := hus
      have hsound : Sound code method object (run (Monitor.step code) s (us.map .go)) :=
        run_invariant h (fun _ m hs ↦ hs.step himpl m) _
      obtain ⟨n, hidle⟩ := (hsound.onward himpl t).returns_owner (t := t)
        (by rw [go, hwaiting]; simp only [hfree])
      refine ⟨us ++ t :: List.replicate n t, ?_⟩
      rw [List.map_append, run_append, List.map_cons, run_cons, List.map_replicate]
      exact hidle
    · exact houtside.elim
    · exact houtside.elim
    · refine ⟨[t], ?_⟩
      rw [List.map_singleton, run_cons, run_nil]
      exact go_unlocked hphase
    · exact houtside.elim

end Monitor
