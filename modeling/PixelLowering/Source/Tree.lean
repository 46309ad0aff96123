import PixelLowering.Source.Position
import PixelLowering.Source.Vocabulary

/-! The typed tree of one program, as a type checker hands it over.

    Every node keeps the static type it was given and the position it starts at; neither is
    computed again. A selection has two shapes, told apart by the coordinates:

        base          base:red          part     base none / (some red)
        base[x, y]    base[x, y]:red    pixelAt  base x y none / (some red) -/

namespace PixelLowering.Source

/-- What every expression node carries: its static type and where it starts. -/
structure Info where
  ty : Ty
  pos : Position
  deriving Repr, DecidableEq

/-- Typed expressions. Literals keep their source text, string literals with their quotes. -/
inductive Expr where
  | num (info : Info) (text : String)
  | str (info : Info) (text : String)
  | bool (info : Info) (text : String)
  | ident (info : Info) (name : String)
  | const (info : Info) (name : String)
  | cond (info : Info) (guard yes no : Expr)
  | unary (info : Info) (op : Operator) (operand : Expr)
  | binary (info : Info) (op : Operator) (left right : Expr)
  | part (info : Info) (base : Expr) (channel? : Option Channel)
  | pixelAt (info : Info) (base x y : Expr) (coordinates : Position) (channel? : Option Channel)
  | pixel (info : Info) (red green blue : Expr)

namespace Expr

/-- Type and position of an expression. -/
def info : Expr → Info
  | num i _ | str i _ | bool i _ | ident i _ | const i _ => i
  | cond i _ _ _ | unary i _ _ | binary i _ _ _ => i
  | part i _ _ | pixelAt i _ _ _ _ _ | pixel i _ _ _ => i

/-- Static type of an expression. -/
def ty (e : Expr) : Ty := e.info.ty

/-- Where an expression starts. -/
def pos (e : Expr) : Position := e.info.pos

/-- The boolean literal that reads `true` in any mix of ASCII cases. -/
def isTrue : Expr → Bool
  | bool _ text => text.toList.map Char.toLower == "true".toList
  | _ => false

end Expr

/-- Coordinates that pick one pixel of an image. -/
structure Selector where
  x : Expr
  y : Expr
  pos : Position

/-- Width and height given with the declaration of an image. -/
structure Dimension where
  width : Expr
  height : Expr

/-- A typed name, introduced by a parameter or a declaration. -/
structure NameDef where
  name : String
  ty : Ty
  dimension? : Option Dimension
  pos : Position

/-- Target of an assignment; `ty` is the type of the whole variable, not of the selected part. -/
structure LValue where
  name : String
  ty : Ty
  selector? : Option Selector
  channel? : Option Channel
  pos : Position

/-- A guard and the block it protects. -/
structure Guarded (σ : Type) where
  guard : Expr
  body : List σ

/-- Statements. `branch` runs the block of the first guard that holds, `loop` does so again and
    again until no guard holds. -/
inductive Stmt where
  | decl (target : NameDef) (init? : Option Expr)
  | assign (target : LValue) (value : Expr)
  | write (value : Expr)
  | ret (value : Expr)
  | branch (arms : List (Guarded Stmt))
  | loop (arms : List (Guarded Stmt))
  | block (body : List Stmt)

/-- A whole program: one method. -/
structure Program where
  name : String
  result : Ty
  params : List NameDef
  body : List Stmt
  pos : Position

end PixelLowering.Source
