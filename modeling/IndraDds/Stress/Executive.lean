import Mathlib.Data.Int.Notation
import Mathlib.Data.Nat.Notation

/-!
# The executive and the loop of `main`

The executive owns a list of modules and drives them in cycles: every module reads, then every
module writes, then every module updates. `main` starts a cycle only while the executive is in
execution. Modules call back into the executive, so a module is modelled by what its methods do to
a world of which the executive is a part.

A C++ exception that no one catches ends the process. `Outcome` keeps the world it leaves behind,
since what was sent before the throw has been sent.
-/

namespace IndraDds

/-! ## Calls that may throw -/

/-- How a call ends: it returns, or it throws out of `main` with the given message. -/
inductive Outcome (ω : Type) where
  | ret (world : ω)
  | thrown (what : String) (world : ω)
deriving DecidableEq, Repr

namespace Outcome

variable {ω : Type}

/-- The world a call leaves, whichever way it ends. -/
def world : Outcome ω → ω
  | ret w => w
  | thrown _ w => w

/-- Sequencing: nothing runs after a throw. -/
def bind (o : Outcome ω) (f : ω → Outcome ω) : Outcome ω :=
  match o with
  | ret w => f w
  | thrown what w => thrown what w

/-- A change made to the world from outside, such as a message arriving at a reader. -/
def map (f : ω → ω) : Outcome ω → Outcome ω
  | ret w => ret (f w)
  | thrown what w => thrown what (f w)

@[simp] theorem world_ret (w : ω) : (ret w).world = w := rfl

@[simp] theorem world_thrown (what : String) (w : ω) : (thrown what w).world = w := rfl

@[simp] theorem bind_ret (w : ω) (f : ω → Outcome ω) : (ret w).bind f = f w := rfl

@[simp] theorem bind_thrown (what : String) (w : ω) (f : ω → Outcome ω) :
    (thrown what w).bind f = thrown what w := rfl

/-- A last step `f` does not show in what it leaves alone. -/
theorem world_bind_ret {β : Type} {f : ω → ω} {g : ω → β} (h : ∀ w, g (f w) = g w)
    (o : Outcome ω) : g (o.bind fun w ↦ .ret (f w)).world = g o.world := by
  cases o with
  | ret w => exact h w
  | thrown what w => rfl

@[simp] theorem world_map (f : ω → ω) (o : Outcome ω) : (o.map f).world = f o.world := by
  cases o <;> rfl

end Outcome

/-! ## The executive -/

/-- `enum class ExecutiveState`. -/
inductive ExecutiveState where
  | INIT
  | EXECUTION
  | END
deriving DecidableEq, Repr

/-- The members of `Executive` that its own methods read: the state and the cycle counter. -/
structure Executive where
  currentState : ExecutiveState := .INIT
  currentCycle : ℕ := 0
deriving DecidableEq, Repr

namespace Executive

def changeState (e : Executive) (newState : ExecutiveState) : Executive :=
  { e with currentState := newState }

def endSimulation (e : Executive) : Executive := e.changeState .END

def requestSimulationEnd (e : Executive) : Executive := { e with currentState := .END }

def inExecution (e : Executive) : Bool := e.currentState = .EXECUTION

end Executive

/-- A world that contains the executive. -/
class HasExecutive (ω : Type) where
  exec : ω → Executive
  withExec : ω → Executive → ω

/-- A module as the executive sees it: an id and four methods. -/
structure ClModule (ω : Type) where
  moduleId : ℤ
  init : ω → Outcome ω
  read : ω → Outcome ω
  write : ω → Outcome ω
  update : ω → Outcome ω

/-- One of the executive's `for (module : submodules) module->method()` loops. -/
def callAll {ω : Type} (method : ClModule ω → ω → Outcome ω) :
    List (ClModule ω) → ω → Outcome ω
  | [], w => .ret w
  | m :: ms, w => (method m w).bind (callAll method ms)

section Loop

variable {ω : Type} [HasExecutive ω]

/-- `Executive::init`: initialise every module, then enter execution. -/
def Executive.init (submodules : List (ClModule ω)) (w : ω) : Outcome ω :=
  (callAll ClModule.init submodules w).bind fun w ↦
    .ret (HasExecutive.withExec w ((HasExecutive.exec w).changeState .EXECUTION))

/-- `Executive::execute_cycle`, less its timing. -/
def Executive.executeCycle (submodules : List (ClModule ω)) (w : ω) : Outcome ω :=
  (callAll ClModule.read submodules w).bind fun w ↦
    (callAll ClModule.write submodules w).bind fun w ↦
      (callAll ClModule.update submodules w).bind fun w ↦
        let e := HasExecutive.exec w
        .ret (HasExecutive.withExec w { e with currentCycle := e.currentCycle + 1 })

/-- One pass of `while (_exec->in_execution()) _exec->execute_cycle();`. A process that has thrown
is gone. -/
def mainPass (submodules : List (ClModule ω)) : Outcome ω → Outcome ω
  | .ret w =>
    if (HasExecutive.exec w).inExecution then Executive.executeCycle submodules w else .ret w
  | .thrown what w => .thrown what w

theorem Executive.inExecution_iff {e : Executive} :
    e.inExecution = true ↔ e.currentState = .EXECUTION := decide_eq_true_iff

theorem mainPass_of_execution (submodules : List (ClModule ω)) {w : ω}
    (h : (HasExecutive.exec w).currentState = .EXECUTION) :
    mainPass submodules (.ret w) = Executive.executeCycle submodules w :=
  if_pos (Executive.inExecution_iff.mpr h)

theorem mainPass_of_not_inExecution (submodules : List (ClModule ω)) {w : ω}
    (h : (HasExecutive.exec w).inExecution = false) : mainPass submodules (.ret w) = .ret w := by
  rw [mainPass, h]
  rfl

theorem mainPass_of_ended (submodules : List (ClModule ω)) {w : ω}
    (h : (HasExecutive.exec w).currentState ≠ .EXECUTION) :
    mainPass submodules (.ret w) = .ret w := by
  apply mainPass_of_not_inExecution
  rw [← Bool.not_eq_true, Executive.inExecution_iff]
  exact h

/-- A cycle of an executive with one module. -/
theorem mainPass_singleton (m : ClModule ω) {w : ω}
    (h : (HasExecutive.exec w).currentState = .EXECUTION) :
    mainPass [m] (.ret w) = (m.read w).bind fun w ↦ (m.write w).bind fun w ↦ (m.update w).bind
      fun w ↦ .ret (HasExecutive.withExec w { HasExecutive.exec w with
        currentCycle := (HasExecutive.exec w).currentCycle + 1 }) := by
  have hone : ∀ (method : ClModule ω → ω → Outcome ω) (w : ω),
      callAll method [m] w = method m w := by
    intro method w
    rw [callAll]
    cases method m w <;> rfl
  rw [mainPass_of_execution _ h, Executive.executeCycle]
  simp only [hone]

end Loop

end IndraDds
