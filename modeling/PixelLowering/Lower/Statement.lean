import PixelLowering.Lower.Expression
import PixelLowering.Lower.Type

/-! Lowering of statements.

    One statement becomes a list of target statements: a loop needs two, a choice or a loop
    without arms none. The target language tries the guards one after another:

        if g₁ → b₁ [] g₂ → b₂ fi          if (g₁) { b₁ } else if (g₂) { b₂ } else { }

        do g₁ → b₁ [] g₂ → b₂ od          boolean f = true;
                                          while (f) {
                                              f = false;
                                              if (g₁) { f = true; { b₁ } }
                                              else if (g₂) { f = true; { b₂ } }
                                          }

    The empty last branch of a choice is left out when its last guard is the literal `TRUE`. -/

namespace PixelLowering.Lower

open PixelLowering.Diagnostic
open PixelLowering.Library
open PixelLowering.Source

/-- Value that a declared variable starts with, if any. The source of an image may be a string to
    read it from; a dimension resizes it, or makes a new image when there is no source. -/
def lowerInitial (env : Env) (target : NameDef) (init? : Option Expr) :
    Except Failure (Option Target.Expr) :=
  match target.ty, init?, target.dimension? with
  | .image, some init, some size => do
    let value ← lowerExpr env init
    let width ← lowerExpr env size.width
    let height ← lowerExpr env size.height
    let routine := if init.ty = .string then Routine.readImage else Routine.copyAndResize
    return some (.call routine none [value, width, height])
  | .image, some init, none => do
    let value ← lowerExpr env init
    return some (if init.ty = .string then .call .readImage none [value] else value)
  | .image, none, some size => do
    let width ← lowerExpr env size.width
    let height ← lowerExpr env size.height
    return some (.call .makeImage none [width, height])
  | _, some init, _ => return some (← lowerExpr env init)
  | _, none, _ => return none

/-- Lowers a declaration. The name is bound last, so the value still sees an outer variable of the
    same name. -/
def lowerDecl (target : NameDef) (init? : Option Expr) : LowerM Target.Stmt := do
  let ty ← ofExcept (variableType target.ty target.pos)
  let value? ← inScope (lowerInitial · target init?)
  let emitted ← declare target.name target.ty
  record (.declared target.name emitted target.ty)
  return .declare ty emitted value?

/-- The selected part of a variable cannot be assigned. -/
def unsupportedTarget (target : LValue) (operator : String) : Failure :=
  ⟨.unsupportedOperator operator
    ("assignment to " ++ target.ty.name ++ " `" ++ target.name ++ "`"), target.pos⟩

/-- Lowers an assignment. Part of a variable is assigned by a library routine that sets it. -/
def lowerAssign (env : Env) (target : LValue) (source : Expr) : Except Failure Target.Stmt := do
  let name ← resolveName env target.name target.pos
  let value ← lowerExpr env source
  match target.ty, target.selector?, target.channel? with
  | .pixel, none, some channel =>
    return .assign name (.call (.setChannel channel) none [.var name, value])
  | .image, some selector, channel? =>
    let (x, y) ← lowerSelector env selector
    let pixel :=
      match channel? with
      | none => value
      | some channel =>
        .call (.setChannel channel) none [.call .getRGB none [.var name, x, y], value]
    return .perform (.call .setRGB none [.var name, x, y, pixel])
  | .image, none, none =>
    return .assign name (if source.ty = .string then .call .readImage none [value] else value)
  | _, none, none => return .assign name value
  | _, some _, _ => .error (unsupportedTarget target "[]")
  | _, none, some _ => .error (unsupportedTarget target ":")

/-- Lowers a statement that writes a value. -/
def lowerWrite (env : Env) (source : Expr) : Except Failure Target.Stmt := do
  let value ← lowerExpr env source
  let routine := if source.ty = .pixel then Routine.writePixel else Routine.write
  return .perform (.call routine none [value])

/-- Lowers a returned value. A channel that is returned as an integer is the channel of a pixel,
    never of a whole image. -/
def lowerReturned (env : Env) (source : Expr) : Except Failure Target.Expr :=
  match source with
  | .part info base (some channel) =>
    if info.ty = .int then lowerChannelRead env base none channel else lowerExpr env source
  | .pixelAt info base x y coordinates (some channel) =>
    if info.ty = .int then lowerChannelRead env base (some ⟨x, y, coordinates⟩) channel
    else lowerExpr env source
  | _ => lowerExpr env source

/-- It makes no difference to a channel of a selected pixel that it is returned. -/
theorem lowerReturned_pixelAt (env : Env) (info : Info) (base x y : Expr) (coordinates : Position)
    (channel? : Option Channel) :
    lowerReturned env (.pixelAt info base x y coordinates channel?) =
      lowerExpr env (.pixelAt info base x y coordinates channel?) := by
  cases channel? with
  | none => rfl
  | some channel =>
    rw [lowerReturned]
    split
    · exact lowerChannelRead_pixelAt env info base x y coordinates channel
    · rfl

/-- A lowered guard and the lowered block it protects. -/
structure Arm where
  test : Target.Expr
  body : List Target.Stmt

/-- Tries the arms in order, and the last resort, if there is one, when no test holds. -/
def chain (last? : Option Target.Stmt) : List Arm → Option Target.Stmt
  | [] => last?
  | arm :: rest =>
    match chain last? rest with
    | none => some (.ifThen arm.test arm.body)
    | some other => some (.ifElse arm.test arm.body other)

/-- Last resort of a choice: nothing if it has no arms or its last guard is always true, else an
    empty block. -/
def lastResort? (arms : List (Guarded Stmt)) : Option Target.Stmt :=
  match arms.getLast? with
  | none => none
  | some arm => if arm.guard.isTrue then none else some (.block [])

/-- The arm of a loop: it also raises the flag that asks for another round. -/
def loopArm (flag : String) (arm : Arm) : Arm :=
  ⟨arm.test, [.assign flag (.bool true), .block arm.body]⟩

/-- A loop: a flag, and rounds for as long as the round before raised it. -/
def loopStmts (flag : String) (arms : List Arm) : List Target.Stmt :=
  [.declare .bool flag (some (.bool true)),
    .whileLoop (.var flag)
      (.assign flag (.bool false) :: (chain none (arms.map (loopArm flag))).toList)]

/-- What the flag of a loop is called before it is numbered. -/
def flagBase : String := "continue"

mutual

/-- Lowers one statement. -/
def lowerStmt : Stmt → LowerM (List Target.Stmt)
  | .decl target init? => return [← lowerDecl target init?]
  | .assign target value => return [← inScope (lowerAssign · target value)]
  | .write value => return [← inScope (lowerWrite · value)]
  | .ret value => return [.ret (← inScope (lowerReturned · value))]
  | .branch arms => return (chain (lastResort? arms) (← lowerArms arms)).toList
  | .loop arms =>
    if arms.isEmpty then return []
    else do
      let flag ← temporary flagBase
      return loopStmts flag (← lowerArms arms)
  | .block body => return [.block (← withScope (lowerStmts body))]

/-- Lowers statements in order. -/
def lowerStmts : List Stmt → LowerM (List Target.Stmt)
  | [] => return []
  | s :: rest => return (← lowerStmt s) ++ (← lowerStmts rest)

/-- Lowers guarded blocks in order, each guard before its block. -/
def lowerArms : List (Guarded Stmt) → LowerM (List Arm)
  | [] => return []
  | ⟨guard, body⟩ :: rest => do
    let test ← inScope (lowerExpr · guard)
    let body ← withScope (lowerStmts body)
    return ⟨test, body⟩ :: (← lowerArms rest)

end

/-- Lowers statements in a scope of their own. -/
def lowerBlock (body : List Stmt) : LowerM (List Target.Stmt) := withScope (lowerStmts body)

end PixelLowering.Lower
