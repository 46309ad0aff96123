import PixelLowering.Library.Constant
import PixelLowering.Lower.Pass
import PixelLowering.Source.Tree
import PixelLowering.Target.Tree

/-! Lowering of expressions.

    An expression only reads the names in scope, so lowering it is a function of an environment.
    Operators are dispatched on the static types of their operands, after both operands are
    lowered: scalars use operators of the target language, pixels and images use the library. With
    the left operand to the left and the right operand above:

                  image     pixel     int       other
        image     library   library   library   —
        pixel     library   library   library   —
        int       library   library   scalar    scalar
        other     —         —         scalar    scalar

    An aggregate on the right of a smaller operand is moved to the front, which only commutative
    operators allow. -/

namespace PixelLowering.Lower

open PixelLowering.Diagnostic
open PixelLowering.Library
open PixelLowering.Source

/-- The operator of a node does not apply to its operands. -/
def unsupportedOperator (op : Operator) (operands : String) (pos : Position) : Failure :=
  ⟨.unsupportedOperator op.symbol operands, pos⟩

/-- A selection starts from something that is neither a pixel nor an image. -/
def unsupportedBase (ty : Ty) (pos : Position) : Failure :=
  ⟨.unsupportedType ty.name "the base of a selector", pos⟩

/-- A unary operator on an operand of the given type. -/
def lowerUnary? (op : Operator) (ty : Ty) (operand : Target.Expr) : Option Target.Expr :=
  match op, ty with
  | .plus, .int => some (.unary .plus operand)
  | .minus, .int => some (.unary .minus operand)
  | .bang, .bool => some (.unary .bang operand)
  | .width, .image => some (.measure .width operand)
  | .height, .image => some (.measure .height operand)
  | _, _ => none

/-- The operator of the target language that stands between two scalars. -/
def infixed? : Operator → Option Target.InfixOp
  | .plus => some .plus
  | .minus => some .minus
  | .times => some .times
  | .div => some .div
  | .mod => some .mod
  | .and => some .and
  | .or => some .or
  | .bitAnd => some .bitAnd
  | .bitOr => some .bitOr
  | .eq => some .eq
  | .lt => some .lt
  | .gt => some .gt
  | .le => some .le
  | .ge => some .ge
  | .exp | .bang | .width | .height => none

/-- An arithmetic operator as a call: its tag, the larger operand, the other operand. -/
def tagged? (routine : Routine) (op : Operator) (first second : Target.Expr) :
    Option Target.Expr :=
  (tag? op).map fun tag => .call routine (some tag) [first, second]

/-- Like `tagged?`, for operands that change places to get there. -/
def swapped? (routine : Routine) (op : Operator) (left right : Target.Expr) :
    Option Target.Expr :=
  if op.isCommutative then tagged? routine op right left else none

/-- A binary operator on two scalars. Strings are compared by content, from the side of an operand
    that is known to be a string. -/
def lowerScalars? (op : Operator) (leftTy rightTy : Ty) (left right : Target.Expr) :
    Option Target.Expr :=
  match op with
  | .eq =>
    if leftTy = .string then some (.equals left right)
    else if rightTy = .string then some (.equals right left)
    else some (.infixed .eq left right)
  | .exp => some (.power left right)
  | op => (infixed? op).map fun op => .infixed op left right

/-- A binary operator on operands of the given types. -/
def lowerBinary? (op : Operator) (leftTy rightTy : Ty) (left right : Target.Expr) :
    Option Target.Expr :=
  match leftTy, rightTy with
  | .image, .image =>
    if op = .eq then some (.call .imagesEqual none [left, right])
    else tagged? .imageImage op left right
  | .image, .pixel => tagged? .imagePixel op left right
  | .pixel, .image => swapped? .imagePixel op left right
  | .image, .int => tagged? .imageScalar op left right
  | .int, .image => swapped? .imageScalar op left right
  | .pixel, .pixel =>
    if op = .eq then some (.call .pixelTest (some .equals) [left, right])
    else tagged? .pixelPixel op left right
  | .pixel, .int => tagged? .pixelInt op left right
  | .int, .pixel => swapped? .pixelInt op left right
  | leftTy, rightTy =>
    if leftTy.isAggregate || rightTy.isAggregate then none
    else lowerScalars? op leftTy rightTy left right

/-- The pixel that `base` is, given what it lowers to. -/
def wholePixel (base : Expr) (value : Except Failure Target.Expr) : Except Failure Target.Expr :=
  match base.ty with
  | .pixel => value
  | .image => .error ⟨.unsupportedOperator ":" "image without a pixel selector", base.pos⟩
  | ty => .error (unsupportedBase ty base.pos)

/-- The pixel that `base[x, y]` is, given what its parts lower to. -/
def pixelOf (base : Expr) (coordinates : Position) (image x y : Except Failure Target.Expr) :
    Except Failure Target.Expr :=
  match base.ty with
  | .image => return .call .getRGB none [← image, ← x, ← y]
  | .pixel => .error ⟨.unsupportedOperator "[]" "pixel", coordinates⟩
  | ty => .error (unsupportedBase ty base.pos)

/-- One channel of a pixel. -/
def channelOf (channel : Channel) (pixel : Target.Expr) : Target.Expr :=
  .call (.getChannel channel) none [pixel]

/-- Reads one channel of a pixel, given what the pixel lowers to. Every channel of a pixel is read
    here, so that the call has the same shape everywhere. -/
def readChannel (channel : Channel) (pixel : Except Failure Target.Expr) :
    Except Failure Target.Expr :=
  return channelOf channel (← pixel)

/-- Lowers an expression. -/
def lowerExpr (env : Env) : Expr → Except Failure Target.Expr
  | .num _ text | .str _ text => return .literal text
  | e@(.bool ..) => return .bool e.isTrue
  | .ident info name => return .var (← resolveName env name info.pos)
  | .const info name =>
    match constantLiteral? name with
    | some literal => return .literal literal
    | none => .error ⟨.unsupportedConstant name, info.pos⟩
  | .cond _ guard yes no =>
    return .cond (← lowerExpr env guard) (← lowerExpr env yes) (← lowerExpr env no)
  | .unary info op operand => do
    let value ← lowerExpr env operand
    match lowerUnary? op operand.ty value with
    | some lowered => return lowered
    | none => .error (unsupportedOperator op operand.ty.name info.pos)
  | .binary info op left right => do
    let leftValue ← lowerExpr env left
    let rightValue ← lowerExpr env right
    match lowerBinary? op left.ty right.ty leftValue rightValue with
    | some lowered => return lowered
    | none =>
      .error (unsupportedOperator op (left.ty.name ++ " and " ++ right.ty.name) info.pos)
  | .part info base none =>
    if base.ty.isAggregate then lowerExpr env base
    else .error (unsupportedBase base.ty info.pos)
  | .part _ base (some channel) =>
    if base.ty = .image then
      return .call (.extractChannel channel) none [← lowerExpr env base]
    else
      readChannel channel (wholePixel base (lowerExpr env base))
  | .pixelAt _ base x y coordinates none =>
    pixelOf base coordinates (lowerExpr env base) (lowerExpr env x) (lowerExpr env y)
  | .pixelAt _ base x y coordinates (some channel) =>
    readChannel channel
      (pixelOf base coordinates (lowerExpr env base) (lowerExpr env x) (lowerExpr env y))
  | .pixel _ red green blue =>
    return .call .pack none [← lowerExpr env red, ← lowerExpr env green, ← lowerExpr env blue]

/-- Lowers a pair of coordinates, `x` first. -/
def lowerSelector (env : Env) (selector : Selector) : Except Failure (Target.Expr × Target.Expr) :=
  return (← lowerExpr env selector.x, ← lowerExpr env selector.y)

/-- The pixel that `base` is, or one pixel of the image `base`. -/
def lowerPixel (env : Env) (base : Expr) : Option Selector → Except Failure Target.Expr
  | none => wholePixel base (lowerExpr env base)
  | some s => pixelOf base s.pos (lowerExpr env base) (lowerExpr env s.x) (lowerExpr env s.y)

/-- Reads one channel of a pixel, which is `base` itself or one pixel of the image `base`. -/
def lowerChannelRead (env : Env) (base : Expr) (selector? : Option Selector) (channel : Channel) :
    Except Failure Target.Expr :=
  readChannel channel (lowerPixel env base selector?)

/-- A channel of a selected pixel is read in the same way as part of an expression. -/
theorem lowerChannelRead_pixelAt (env : Env) (info : Info) (base x y : Expr)
    (coordinates : Position) (channel : Channel) :
    lowerChannelRead env base (some ⟨x, y, coordinates⟩) channel =
      lowerExpr env (.pixelAt info base x y coordinates (some channel)) := by
  rw [lowerExpr]
  rfl

end PixelLowering.Lower
