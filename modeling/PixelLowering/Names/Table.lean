import PixelLowering.Library.Routine
import PixelLowering.Names.Fresh
import PixelLowering.Target.Reserved

/-! Names of one method.

    The source has one scope to a block and inner names hide outer ones; the generated method has
    a single flat space of names. So every declared name is given an emitted name that nothing
    else in the method has, and a use is resolved through the open scopes to that emitted name.

        declared   x      x      class     x_0        loop flag
        emitted    x      x_0    class_0   x_0_0      continue$0

    Emitted names are never given back: a name stays in use after its scope is left. -/

namespace PixelLowering.Names

open PixelLowering.Source

/-- A declared name and what it is emitted as. Parameters have depth 0, the outermost block 1. -/
structure Binding where
  name : String
  emitted : String
  ty : Ty
  depth : Nat
  deriving Repr, DecidableEq

/-- Parameters and open scopes (the innermost scope and the latest binding come first), every
    name emitted so far, and for each name or stem the number its next search starts at. -/
structure Table where
  parameters : List Binding := []
  scopes : List (List Binding) := []
  emitted : List String := []
  counters : List (String × Nat) := []
  deriving Repr, DecidableEq

/-- Names that no declaration may be emitted as, whatever the method holds. -/
def forbidden : List String := Target.reserved ++ Library.classNames

namespace Table

/-- The number that the next search under a key starts at. -/
def counter (table : Table) (key : String) : Nat := (table.counters.lookup key).getD 0

/-- Opens a scope. -/
def enter (table : Table) : Table := { table with scopes := [] :: table.scopes }

/-- Closes the innermost scope, if there is one. -/
def leave? (table : Table) : Option Table :=
  match table.scopes with
  | [] => none
  | _ :: outer => some { table with scopes := outer }

/-- Emits a name as it stands. -/
def emit (table : Table) (name : String) : String × Table :=
  (name, { table with emitted := name :: table.emitted })

/-- Emits the first name of the stem that is not in use, searching on from where the last search
    under the same key ended. -/
def emitNumbered (table : Table) (key stem : String) (used : List String) : String × Table :=
  let n := firstFree stem used (table.counter key)
  { table with counters := (key, n + 1) :: table.counters }.emit (numbered stem n)

/-- The names a declaration must avoid. -/
def unavailable (table : Table) : List String := table.emitted ++ forbidden

/-- Emits a declared name: the name itself if it is available, else the name, an underscore and a
    number. -/
def emitDeclared (table : Table) (name : String) : String × Table :=
  if table.unavailable.contains name then
    table.emitNumbered name (name ++ "_") table.unavailable
  else
    table.emit name

/-- Emits a name for internal use: the base, a dollar sign and a number. -/
def temporary (table : Table) (base : String) : String × Table :=
  table.emitNumbered (base ++ "$") (base ++ "$") table.emitted

/-- Binds a parameter. Parameters are seen from every scope. -/
def declareParameter (table : Table) (name : String) (ty : Ty) : String × Table :=
  let (emitted, table) := table.emitDeclared name
  (emitted, { table with parameters := ⟨name, emitted, ty, 0⟩ :: table.parameters })

/-- Puts a binding in the innermost scope, opening one if there is none. -/
def push (table : Table) (binding : Binding) : Table :=
  match table.scopes with
  | [] => { table with scopes := [[binding]] }
  | inner :: outer => { table with scopes := (binding :: inner) :: outer }

/-- Binds a variable in the innermost scope. -/
def declare (table : Table) (name : String) (ty : Ty) : String × Table :=
  let (emitted, table) := table.emitDeclared name
  (emitted, table.push ⟨name, emitted, ty, max table.scopes.length 1⟩)

/-- All visible bindings: scopes from the innermost outwards, then the parameters. -/
def visible (table : Table) : List Binding := table.scopes.flatten ++ table.parameters

/-- The binding that a use of a name refers to. -/
def lookup (table : Table) (name : String) : Option Binding :=
  table.visible.find? (·.name == name)

/-- The emitted name that a use of a name refers to. -/
def resolve? (table : Table) (name : String) : Option String :=
  (table.lookup name).map Binding.emitted

@[simp] theorem leave?_enter (table : Table) : table.enter.leave? = some table := rfl

@[simp] theorem lookup_enter (table : Table) (name : String) :
    table.enter.lookup name = table.lookup name := rfl

end Table

end PixelLowering.Names
