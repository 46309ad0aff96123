import PixelLowering.Lower.Method

/-! Lowering with lexical environments: a second way to lower a program, without a stack of scopes.

    An environment says what each name in scope is emitted as. It is handed down the tree and never
    changed in place: a declaration extends it for the statements that follow in the same block, and
    after a block the one from before it is back, because nothing else was ever handed on.

        { int x; { int x; ⟨env: x ↦ x_0⟩ } ⟨env: x ↦ x⟩ }

    Only the names given so far are threaded through the walk. How a new name is found is left to a
    `Supply`, so that several ways of finding it can be put in its place. -/

namespace PixelLowering.Source

mutual

/-- The names that the declarations of a statement introduce, nested ones included. -/
def Stmt.declaredNames : Stmt → List String
  | .decl target _ => [target.name]
  | .assign .. | .write _ | .ret _ => []
  | .branch arms | .loop arms => Stmt.declaredInArms arms
  | .block body => Stmt.declaredIn body

/-- The names that statements introduce. -/
def Stmt.declaredIn : List Stmt → List String
  | [] => []
  | s :: rest => s.declaredNames ++ Stmt.declaredIn rest

/-- The names that guarded blocks introduce. -/
def Stmt.declaredInArms : List (Guarded Stmt) → List String
  | [] => []
  | ⟨_, body⟩ :: rest => Stmt.declaredIn body ++ Stmt.declaredInArms rest

end

/-- The names that a program introduces: its parameters and all declarations in its body. -/
def Program.declaredNames (program : Program) : List String :=
  program.params.map NameDef.name ++ Stmt.declaredIn program.body

end PixelLowering.Source

namespace PixelLowering.Lower

open PixelLowering.Diagnostic
open PixelLowering.Source

/-- The environment in which a name is emitted in a new way and all others as before. -/
def Env.bind (env : Env) (name emitted : String) : Env :=
  fun other => if other = name then some emitted else env other

/-- The environment before anything is declared. -/
def Env.empty : Env := fun _ => none

/-- A way to find emitted names, for declared names and for the flags of loops. `ν` is what it has
    to remember of the names given so far. -/
structure Supply (ν : Type) where
  declared : String → ν → String × ν
  flag : ν → String × ν

namespace Lexical

/-- Lowering that can fail and remembers given names, and nothing else. -/
abbrev LexicalM (ν : Type) := StateT ν (Except Failure)

variable {ν : Type} (supply : Supply ν)

/-- Gives a declared name. -/
def declare (name : String) : LexicalM ν String := modifyGet (supply.declared name)

/-- Gives the name of a loop flag. -/
def flag : LexicalM ν String := modifyGet supply.flag

mutual

/-- Lowers one statement, with the environment for the statements that follow it. -/
def lowerStmt (env : Env) : Stmt → LexicalM ν (List Target.Stmt × Env)
  | .decl target init? => do
    let ty ← variableType target.ty target.pos
    let value? ← lowerInitial env target init?
    let emitted ← declare supply target.name
    return ([.declare ty emitted value?], env.bind target.name emitted)
  | .assign target value => return ([← lowerAssign env target value], env)
  | .write value => return ([← lowerWrite env value], env)
  | .ret value => return ([.ret (← lowerReturned env value)], env)
  | .branch arms => return ((chain (lastResort? arms) (← lowerArms env arms)).toList, env)
  | .loop arms =>
    if arms.isEmpty then return ([], env)
    else do
      let name ← flag supply
      return (loopStmts name (← lowerArms env arms), env)
  | .block body => return ([.block (← lowerStmts env body)], env)

/-- Lowers the statements of a block; each one is lowered in the environment that the one before
    it leaves. -/
def lowerStmts (env : Env) : List Stmt → LexicalM ν (List Target.Stmt)
  | [] => return []
  | s :: rest => do
    let (code, next) ← lowerStmt env s
    return code ++ (← lowerStmts next rest)

/-- Lowers guarded blocks, all of them in the same environment. -/
def lowerArms (env : Env) : List (Guarded Stmt) → LexicalM ν (List Arm)
  | [] => return []
  | ⟨guard, body⟩ :: rest => do
    let test ← lowerExpr env guard
    let body ← lowerStmts env body
    return ⟨test, body⟩ :: (← lowerArms env rest)

end

/-- Lowers parameters. A later one hides an earlier one of the same name. -/
def lowerParams (env : Env) : List NameDef → LexicalM ν (List Target.Param × Env)
  | [] => return ([], env)
  | param :: rest => do
    let ty ← variableType param.ty param.pos
    let emitted ← declare supply param.name
    let (params, inner) ← lowerParams (env.bind param.name emitted) rest
    return (⟨ty, emitted⟩ :: params, inner)

/-- Lowers a program: its name, its parameters, its body. -/
def lowerProgram (program : Program) : LexicalM ν Target.Method := do
  unless Target.isMethodName program.name do
    throw ⟨.invalidProgramName program.name, program.pos⟩
  let (params, env) ← lowerParams supply .empty program.params
  let body ← lowerStmts supply env program.body
  return ⟨resultType program.result, program.name, params, body⟩

/-- The text of a program, or why there is none, when `given` is what is remembered at the start. -/
def compile (given : ν) (width : Nat) (program : Program) : Except Failure String :=
  ((lowerProgram supply program).run given).map fun result => result.1.render width

end Lexical

end PixelLowering.Lower
