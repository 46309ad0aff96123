import PixelLowering.Diagnostic.Failure
import PixelLowering.Source.Vocabulary
import PixelLowering.Target.Tree

/-! Source types in the target language. Pixels are packed integers; only a result may be void. -/

namespace PixelLowering.Lower

open PixelLowering.Diagnostic
open PixelLowering.Source

/-- Target type of a method's result. -/
def resultType : Ty → Target.Ty
  | .int | .pixel => .int
  | .bool => .bool
  | .string => .string
  | .image => .image
  | .void => .void

/-- Target type of a variable or a parameter that is declared at `pos`. -/
def variableType (ty : Ty) (pos : Position) : Except Failure Target.Ty :=
  if ty = .void then .error ⟨.unsupportedType ty.name "a variable or parameter", pos⟩
  else .ok (resultType ty)

end PixelLowering.Lower
