/-! The closed vocabularies of the source language: static types, operators and colour channels.

    One operator token serves both positions (`-` subtracts and negates), so not every operator
    makes sense in every place; which combinations do is decided where expressions are lowered. -/

namespace PixelLowering.Source

/-- Static type of an expression or a variable. -/
inductive Ty where
  | int
  | bool
  | string
  | pixel
  | image
  | void
  deriving Repr, DecidableEq

/-- Source spelling of a type. -/
def Ty.name : Ty → String
  | .int => "int"
  | .bool => "boolean"
  | .string => "string"
  | .pixel => "pixel"
  | .image => "image"
  | .void => "void"

/-- Pixels and images: the types whose arithmetic is left to the support library. -/
def Ty.isAggregate : Ty → Bool
  | .pixel | .image => true
  | .int | .bool | .string | .void => false

/-- Operator tokens of unary and binary expressions. -/
inductive Operator where
  | plus
  | minus
  | times
  | div
  | mod
  | exp
  | and
  | or
  | bitAnd
  | bitOr
  | eq
  | lt
  | gt
  | le
  | ge
  | bang
  | width
  | height
  deriving Repr, DecidableEq

/-- Source spelling of an operator. -/
def Operator.symbol : Operator → String
  | .plus => "+"
  | .minus => "-"
  | .times => "*"
  | .div => "/"
  | .mod => "%"
  | .exp => "**"
  | .and => "&&"
  | .or => "||"
  | .bitAnd => "&"
  | .bitOr => "|"
  | .eq => "=="
  | .lt => "<"
  | .gt => ">"
  | .le => "<="
  | .ge => ">="
  | .bang => "!"
  | .width => "width"
  | .height => "height"

/-- Operators whose library form may take its operands in either order. -/
def Operator.isCommutative : Operator → Bool
  | .plus | .times => true
  | _ => false

/-- One colour component of a pixel. -/
inductive Channel where
  | red
  | green
  | blue
  deriving Repr, DecidableEq

/-- Source spelling of a channel. -/
def Channel.name : Channel → String
  | .red => "red"
  | .green => "green"
  | .blue => "blue"

end PixelLowering.Source
