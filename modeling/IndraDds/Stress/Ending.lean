import IndraDds.Foundation.Transition
import IndraDds.Stress.Executive
import Mathlib.Data.List.Basic

/-!
# The end of the simulation

The executive with any list of modules. What a module keeps in memory and what it does in a method
are left open: a method reads the executive, changes the memory and calls `request_simulation_end`
or `end_simulation` as often as it likes. The input of an invocation stands for everything from
outside.

Both calls set the state to `END`, and nothing in a cycle sets it back. `Executive::init` does: it
enters `EXECUTION` when the modules have been initialised, whatever they have asked for.
-/

namespace IndraDds

open Transition

/-! ## Modules -/

/-- A call by which a module ends the simulation. -/
inductive EndCall where
  | requestSimulationEnd
  | endSimulation
deriving DecidableEq, Repr

def EndCall.apply (e : Executive) : EndCall → Executive
  | requestSimulationEnd => e.requestSimulationEnd
  | endSimulation => e.endSimulation

/-- A process: the executive and the memory of its modules. `asked` records whether a module has
called for the end; no code reads it. -/
structure Process (μ : Type) where
  exec : Executive := {}
  memory : μ
  asked : Bool := false

instance {μ : Type} : HasExecutive (Process μ) where
  exec := Process.exec
  withExec p e := { p with exec := e }

/-- What a method does with the executive and the memory it finds: the memory it leaves and the
calls it makes. -/
abbrev Method (μ : Type) := Executive → μ → μ × List EndCall

/-- A method runs. -/
def Process.invoke {μ : Type} (method : Method μ) (p : Process μ) : Process μ :=
  let r := method p.exec p.memory
  { exec := r.2.foldl EndCall.apply p.exec, memory := r.1, asked := p.asked || !r.2.isEmpty }

/-- A module that takes its inputs from `ι`. -/
structure InputModule (ι μ : Type) where
  moduleId : ℤ
  init : ι → Method μ
  read : ι → Method μ
  write : ι → Method μ
  update : ι → Method μ

/-- The module as the executive sees it in an invocation with input `i`. -/
def InputModule.clModule {ι μ : Type} (i : ι) (m : InputModule ι μ) : ClModule (Process μ) where
  moduleId := m.moduleId
  init p := .ret (p.invoke (m.init i))
  read p := .ret (p.invoke (m.read i))
  write p := .ret (p.invoke (m.write i))
  update p := .ret (p.invoke (m.update i))

/-- `Executive::add_module`, which refuses an id that it has. -/
def Executive.addModule {ι μ : Type} (submodules : List (InputModule ι μ)) (m : InputModule ι μ) :
    List (InputModule ι μ) :=
  if submodules.any fun m' ↦ m'.moduleId = m.moduleId then submodules else submodules ++ [m]

namespace Process

variable {ι μ : Type}

/-- The process after `_exec->init()`. -/
def start (modules : List (InputModule ι μ)) (i : ι) (memory : μ) : Outcome (Process μ) :=
  Executive.init ((modules.foldl Executive.addModule []).map (InputModule.clModule i))
    { memory := memory }

/-- One pass of the loop of `main`. -/
def pass (modules : List (InputModule ι μ)) (o : Outcome (Process μ)) (i : ι) :
    Outcome (Process μ) :=
  mainPass ((modules.foldl Executive.addModule []).map (InputModule.clModule i)) o

/-! ## Calls for the end -/

theorem foldl_apply_ne_nil {e : Executive} {calls : List EndCall} (h : calls ≠ []) :
    (calls.foldl EndCall.apply e).currentState = .END := by
  obtain ⟨earlier, last, rfl⟩ := calls.eq_nil_or_concat'.resolve_left h
  rw [List.foldl_append, List.foldl_cons, List.foldl_nil]
  cases last <;> rfl

/-- Once a module has called for the end, the executive has ended. -/
def Ending (p : Process μ) : Prop := p.asked = true → p.exec.currentState = .END

theorem Ending.invoke {p : Process μ} (h : p.Ending) (method : Method μ) :
    (p.invoke method).Ending := by
  intro hasked
  by_cases hcalls : (method p.exec p.memory).2 = []
  · -- a method without calls leaves the executive as it was
    rw [Process.invoke, hcalls, Bool.or_eq_true] at hasked
    obtain hbefore | hnone := hasked
    · change ((method p.exec p.memory).2.foldl EndCall.apply p.exec).currentState = .END
      rw [hcalls]
      exact h hbefore
    · exact absurd hnone Bool.false_ne_true
  · exact foldl_apply_ne_nil hcalls

/-- Methods run one after the other. -/
def invokeAll (methods : List (Method μ)) (p : Process μ) : Process μ :=
  methods.foldl (fun p method ↦ p.invoke method) p

theorem Ending.invokeAll {p : Process μ} (h : p.Ending) (methods : List (Method μ)) :
    (p.invokeAll methods).Ending := by
  induction methods generalizing p with
  | nil => exact h
  | cons method methods ih => exact ih (h.invoke method)

/-- None of the methods, run one after the other, calls for the end. -/
def Quiet : List (Method μ) → Executive → μ → Prop
  | [], _, _ => True
  | method :: methods, e, memory =>
    (method e memory).2 = [] ∧ Quiet methods e (method e memory).1

theorem asked_invokeAll_iff (methods : List (Method μ)) (p : Process μ) :
    (p.invokeAll methods).asked = true ↔ p.asked = true ∨ ¬Quiet methods p.exec p.memory := by
  induction methods generalizing p with
  | nil => simp [invokeAll, Quiet]
  | cons method methods ih =>
    change ((p.invoke method).invokeAll methods).asked = true ↔ _
    rw [ih, Quiet, Process.invoke]
    by_cases hcalls : (method p.exec p.memory).2 = []
    · simp [hcalls]
    · simp [hcalls]

/-! ## The phases of the executive -/

/-- A loop of the executive over its modules runs their methods. -/
theorem callAll_clModule {method : ClModule (Process μ) → Process μ → Outcome (Process μ)}
    {f : InputModule ι μ → Method μ} {i : ι}
    (h : ∀ m p, method (InputModule.clModule i m) p = .ret (p.invoke (f m)))
    (ms : List (InputModule ι μ)) (p : Process μ) :
    callAll method (ms.map (InputModule.clModule i)) p = .ret (p.invokeAll (ms.map f)) := by
  induction ms generalizing p with
  | nil => rfl
  | cons m ms ih =>
    rw [List.map_cons, callAll, h, Outcome.bind_ret, ih]
    rfl

theorem init_eq (ms : List (InputModule ι μ)) (i : ι) (p : Process μ) :
    Executive.init (ms.map (InputModule.clModule i)) p
      = .ret (let q := p.invokeAll (ms.map fun m ↦ m.init i)
          { q with exec := q.exec.changeState .EXECUTION }) := by
  rw [Executive.init, callAll_clModule fun _ _ ↦ rfl]
  rfl

theorem executeCycle_eq (ms : List (InputModule ι μ)) (i : ι) (p : Process μ) :
    Executive.executeCycle (ms.map (InputModule.clModule i)) p
      = .ret (let q := ((p.invokeAll (ms.map fun m ↦ m.read i)).invokeAll
            (ms.map fun m ↦ m.write i)).invokeAll (ms.map fun m ↦ m.update i)
          { q with exec := { q.exec with currentCycle := q.exec.currentCycle + 1 } }) := by
  rw [Executive.executeCycle, callAll_clModule fun _ _ ↦ rfl, Outcome.bind_ret,
    callAll_clModule fun _ _ ↦ rfl, Outcome.bind_ret, callAll_clModule fun _ _ ↦ rfl]
  rfl

theorem Ending.pass {p : Process μ} (h : p.Ending) (modules : List (InputModule ι μ)) (i : ι) :
    ∃ q, pass modules (.ret p) i = .ret q ∧ q.Ending := by
  rw [Process.pass, mainPass]
  split_ifs
  · refine ⟨_, executeCycle_eq _ i p, ?_⟩
    exact ((h.invokeAll _).invokeAll _).invokeAll _
  · exact ⟨p, rfl, h⟩

/-! ## Whole runs -/

/-- A module has asked for the end, so the executive is out of execution and `main` starts no
further cycle. -/
structure Final (modules : List (InputModule ι μ)) (o : Outcome (Process μ)) : Prop where
  stopped : o.world.asked = true → o.world.exec.inExecution = false
  idle : o.world.asked = true → ∀ i, Process.pass modules o i = o

theorem Ending.final {p : Process μ} (h : p.Ending) (modules : List (InputModule ι μ)) :
    Final modules (.ret p) := by
  have hstopped : p.asked = true → p.exec.inExecution = false := by
    intro hasked
    rw [Executive.inExecution, h hasked]
    rfl
  exact ⟨hstopped, fun hasked i ↦ mainPass_of_not_inExecution _ (hstopped hasked)⟩

/-- No module calls for the end while it is initialised. -/
def QuietInit (modules : List (InputModule ι μ)) (i : ι) (memory : μ) : Prop :=
  Quiet ((modules.foldl Executive.addModule []).map fun m ↦ m.init i) {} memory

/-- `init` ends in execution, also when a module has asked for the end. -/
theorem start_spec (modules : List (InputModule ι μ)) (i : ι) (memory : μ) :
    ∃ p, start modules i memory = .ret p ∧ p.exec.currentState = .EXECUTION ∧
      (p.asked = true ↔ ¬QuietInit modules i memory) := by
  refine ⟨_, init_eq _ i { memory := memory }, rfl, ?_⟩
  refine (asked_invokeAll_iff _ _).trans (or_iff_right ?_)
  exact Bool.false_ne_true

theorem exists_ending {modules : List (InputModule ι μ)} {p : Process μ} (h : p.Ending)
    (is : List ι) : ∃ q, run (pass modules) (Outcome.ret p) is = .ret q ∧ q.Ending := by
  refine run_invariant (I := fun o ↦ ∃ q, o = Outcome.ret q ∧ q.Ending) ⟨p, rfl, h⟩ ?_ is
  rintro _ i ⟨q, rfl, hq⟩
  exact hq.pass modules i

/-- **The end is final** exactly when no module asks for it too early. -/
theorem final_iff_quietInit (modules : List (InputModule ι μ)) (i : ι) (memory : μ) :
    (∀ is : List ι, Final modules (run (pass modules) (start modules i memory) is)) ↔
      QuietInit modules i memory := by
  obtain ⟨p, hp, hrun, hasked⟩ := start_spec modules i memory
  rw [hp]
  constructor
  · intro h
    by_contra hloud
    -- a module has asked, and `change_state` has put the executive into execution
    have hstopped := (h []).stopped (hasked.mpr hloud)
    rw [run_nil, Outcome.world_ret, Executive.inExecution, hrun] at hstopped
    exact absurd hstopped Bool.noConfusion
  · intro hquiet is
    have hending : p.Ending := fun hp ↦ absurd hquiet (hasked.mp hp)
    obtain ⟨q, hq, hfinal⟩ := exists_ending hending is
    rw [hq]
    exact hfinal.final modules

/-- A module that calls for the end as soon as it is initialised. -/
def quitter : InputModule Unit Unit where
  moduleId := 0
  init _ _ _ := ((), [.requestSimulationEnd])
  read _ _ _ := ((), [])
  write _ _ _ := ((), [])
  update _ _ _ := ((), [])

/-- The request is lost: `main` goes on to run cycles. -/
theorem request_lost : ¬∀ is : List Unit,
    Final [quitter] (run (pass [quitter]) (start [quitter] () ()) is) := by
  intro h
  exact absurd ((h []).stopped (by decide)) (by decide)

end Process

end IndraDds
