import PixelLowering.Library.Routine

/-! The tree of a generated method: the target expressions, statements and methods that lowering
    produces, before they become text.

    Pixels are packed integers here, so the source types `int` and `pixel` share one target type,
    and every operation on pixels or images is a call of a library routine. -/

namespace PixelLowering.Target

open PixelLowering.Library

/-- Types of the target language. -/
inductive Ty where
  | int
  | bool
  | string
  | image
  | void
  deriving Repr, DecidableEq

/-- Spelling of a target type. -/
def Ty.name : Ty → String
  | .int => "int"
  | .bool => "boolean"
  | .string => "String"
  | .image => "BufferedImage"
  | .void => "void"

/-- Operators written in front of their operand. -/
inductive UnaryOp where
  | plus
  | minus
  | bang
  deriving Repr, DecidableEq

/-- Spelling of a unary operator. -/
def UnaryOp.symbol : UnaryOp → String
  | .plus => "+"
  | .minus => "-"
  | .bang => "!"

/-- Operators written between their operands. -/
inductive InfixOp where
  | plus
  | minus
  | times
  | div
  | mod
  | and
  | or
  | bitAnd
  | bitOr
  | eq
  | lt
  | gt
  | le
  | ge
  deriving Repr, DecidableEq

/-- Spelling of an operator between operands. -/
def InfixOp.symbol : InfixOp → String
  | .plus => "+"
  | .minus => "-"
  | .times => "*"
  | .div => "/"
  | .mod => "%"
  | .and => "&&"
  | .or => "||"
  | .bitAnd => "&"
  | .bitOr => "|"
  | .eq => "=="
  | .lt => "<"
  | .gt => ">"
  | .le => "<="
  | .ge => ">="

/-- The two measures of an image. -/
inductive Axis where
  | width
  | height
  deriving Repr, DecidableEq

/-- Method that reads a measure of an image. -/
def Axis.getter : Axis → String
  | .width => "getWidth"
  | .height => "getHeight"

/-- Target expressions. -/
inductive Expr where
  | literal (text : String)
  | bool (value : Bool)
  | var (name : String)
  | cond (test yes no : Expr)
  | unary (op : UnaryOp) (operand : Expr)
  | measure (axis : Axis) (image : Expr)
  | infixed (op : InfixOp) (left right : Expr)
  | equals (receiver argument : Expr)
  | power (base exponent : Expr)
  | call (routine : Routine) (tag? : Option Tag) (arguments : List Expr)

/-- Target statements. In a chain of tests the last branch of `ifElse` is again a statement. -/
inductive Stmt where
  | declare (ty : Ty) (name : String) (value? : Option Expr)
  | assign (name : String) (value : Expr)
  | perform (action : Expr)
  | ret (value : Expr)
  | ifThen (test : Expr) (body : List Stmt)
  | ifElse (test : Expr) (body : List Stmt) (other : Stmt)
  | whileLoop (test : Expr) (body : List Stmt)
  | block (body : List Stmt)

/-- A typed parameter. -/
structure Param where
  ty : Ty
  name : String
  deriving Repr, DecidableEq

/-- A whole method. -/
structure Method where
  result : Ty
  name : String
  params : List Param
  body : List Stmt

end PixelLowering.Target
