import PixelLowering.Diagnostic.Failure
import PixelLowering.Lower.Event
import PixelLowering.Names.Table

/-! The state of a lowering pass and the actions on it.

    A pass owns the names of the method and its log. An action that stops keeps whatever it had
    done to the state so far: a block that fails half-way leaves its scope open. -/

namespace PixelLowering.Lower

open PixelLowering.Diagnostic
open PixelLowering.Names
open PixelLowering.Source

/-- Emitted names by source names. -/
abbrev Env := String → Option String

/-- The emitted name of a name that is used at `pos`. -/
def resolveName (env : Env) (name : String) (pos : Position) : Except Failure String :=
  match env name with
  | some emitted => .ok emitted
  | none => .error ⟨.unresolvedName name, pos⟩

/-- State of a pass. -/
structure Pass where
  names : Table := {}
  log : List Event := []
  deriving Repr, DecidableEq

/-- Why an action stops: the program cannot be lowered, or a scope is closed that was never
    opened. -/
inductive Stop where
  | failure (reason : Failure)
  | noOpenScope
  deriving Repr, DecidableEq

/-- Why an action stops, in one line. -/
def Stop.message : Stop → String
  | .failure reason => reason.message
  | .noOpenScope => "Attempted to leave the parameter scope"

/-- Actions of a pass. -/
abbrev LowerM := ExceptT Stop (StateM Pass)

namespace Pass

/-- Adds an event to the log. -/
def record (pass : Pass) (event : Event) : Pass := { pass with log := pass.log ++ [event] }

/-- Notes the name that a declaration was given, when it is not its own. -/
def recordRenaming (pass : Pass) (name emitted : String) : Pass :=
  if emitted = name then pass else pass.record (.renamed name emitted)

/-- Binds a parameter. -/
def declareParameter (pass : Pass) (name : String) (ty : Ty) : String × Pass :=
  let (emitted, names) := pass.names.declareParameter name ty
  (emitted, { pass with names }.recordRenaming name emitted)

/-- Binds a variable. -/
def declare (pass : Pass) (name : String) (ty : Ty) : String × Pass :=
  let (emitted, names) := pass.names.declare name ty
  (emitted, { pass with names }.recordRenaming name emitted)

/-- Takes a name for internal use. -/
def temporary (pass : Pass) (base : String) : String × Pass :=
  let (emitted, names) := pass.names.temporary base
  (emitted, { pass with names })

/-- Runs an action from a state. -/
def run {α : Type} (pass : Pass) (action : LowerM α) : Except Stop α × Pass :=
  StateT.run (ExceptT.run action) pass

end Pass

/-- Adds an event to the log. -/
def record (event : Event) : LowerM Unit := modify (·.record event)

/-- Opens a scope. -/
def enter : LowerM Unit := modify fun pass => { pass with names := pass.names.enter }

/-- Closes the innermost scope; stops when there is none. -/
def leave : LowerM Unit := do
  let pass ← get
  match pass.names.leave? with
  | some names => set { pass with names }
  | none => throw .noOpenScope

/-- Binds a parameter and gives its emitted name. -/
def declareParameter (name : String) (ty : Ty) : LowerM String :=
  modifyGet (·.declareParameter name ty)

/-- Binds a variable and gives its emitted name. -/
def declare (name : String) (ty : Ty) : LowerM String := modifyGet (·.declare name ty)

/-- Takes a name for internal use. -/
def temporary (base : String) : LowerM String := modifyGet (·.temporary base)

/-- A result that is there already, or the failure in its place. -/
def ofExcept {α : Type} : Except Failure α → LowerM α
  | .ok a => pure a
  | .error reason => throw (.failure reason)

/-- A computation that only reads the names in scope. -/
def inScope {α : Type} (f : Env → Except Failure α) : LowerM α := do
  let pass ← get
  ofExcept (f pass.names.resolve?)

/-- Runs an action in a scope of its own. A stop inside leaves the scope open. -/
def withScope {α : Type} (action : LowerM α) : LowerM α := do
  enter
  let result ← action
  leave
  return result

/-! ### What a run of each action is -/

namespace Pass

variable {α β : Type} (pass : Pass)

@[simp] theorem run_pure (a : α) : pass.run (pure a) = (.ok a, pass) := rfl

@[simp] theorem run_throw (stop : Stop) :
    pass.run (throw stop : LowerM α) = (.error stop, pass) := rfl

/-- The second action starts where the first one ends, unless that one stops. -/
theorem run_bind (action : LowerM α) (next : α → LowerM β) :
    pass.run (action >>= next) =
      match pass.run action with
      | (.ok a, after) => after.run (next a)
      | (.error stop, after) => (.error stop, after) := by
  rw [run, ExceptT.run_bind, StateT.run_bind]
  simp only [run]
  rcases StateT.run action.run pass with ⟨result, after⟩
  cases result <;> rfl

/-- Two actions succeed when the first one does and the second one does from there. -/
theorem run_bind_eq_ok {action : LowerM α} {next : α → LowerM β} {b : β} {after : Pass} :
    pass.run (action >>= next) = (.ok b, after) ↔
      ∃ a middle, pass.run action = (.ok a, middle) ∧ middle.run (next a) = (.ok b, after) := by
  rw [run_bind]
  rcases pass.run action with ⟨result, middle⟩
  cases result with
  | error stop => simp
  | ok a =>
    constructor
    · intro h
      exact ⟨a, middle, rfl, h⟩
    · rintro ⟨_, _, hfirst, h⟩
      cases hfirst
      exact h

@[simp] theorem run_get : pass.run get = (.ok pass, pass) := rfl

@[simp] theorem run_set (after : Pass) : pass.run (set after) = (.ok (), after) := rfl

@[simp] theorem run_record (event : Event) :
    pass.run (Lower.record event) = (.ok (), pass.record event) := rfl

@[simp] theorem run_enter :
    pass.run enter = (.ok (), { pass with names := pass.names.enter }) := rfl

/-- Closing a scope changes nothing when there is none to close. -/
theorem run_leave :
    pass.run leave =
      match pass.names.leave? with
      | some names => (.ok (), { pass with names })
      | none => (.error .noOpenScope, pass) := by
  rw [leave, run_bind, run_get]
  cases h : pass.names.leave? <;> simp [h]

@[simp] theorem run_declareParameter (name : String) (ty : Ty) :
    pass.run (Lower.declareParameter name ty) =
      (.ok (pass.declareParameter name ty).1, (pass.declareParameter name ty).2) := rfl

@[simp] theorem run_declare (name : String) (ty : Ty) :
    pass.run (Lower.declare name ty) =
      (.ok (pass.declare name ty).1, (pass.declare name ty).2) := rfl

@[simp] theorem run_temporary (base : String) :
    pass.run (Lower.temporary base) = (.ok (pass.temporary base).1, (pass.temporary base).2) := rfl

@[simp] theorem run_ofExcept (result : Except Failure α) :
    pass.run (ofExcept result) = (result.mapError .failure, pass) := by
  cases result <;> rfl

/-- Reading the names in scope leaves the state alone, also when it fails. -/
@[simp] theorem run_inScope (f : Env → Except Failure α) :
    pass.run (inScope f) = ((f pass.names.resolve?).mapError .failure, pass) :=
  run_ofExcept pass (f pass.names.resolve?)

theorem run_inScope_eq_ok {f : Env → Except Failure α} {a : α} {after : Pass} :
    pass.run (inScope f) = (.ok a, after) ↔ f pass.names.resolve? = .ok a ∧ pass = after := by
  rw [run_inScope]
  cases f pass.names.resolve? with
  | error reason =>
    constructor
    · intro h
      cases h
    · rintro ⟨h, _⟩
      cases h
  | ok b =>
    constructor
    · intro h
      cases h
      exact ⟨rfl, rfl⟩
    · rintro ⟨h, rfl⟩
      cases h
      rfl

end Pass

end PixelLowering.Lower
