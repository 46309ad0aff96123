import PixelLowering.Lower.Statement
import PixelLowering.Target.Identifier
import PixelLowering.Target.Render

/-! Lowering of a whole program to the text of one method, with the log of the pass.

    Either the whole method comes out or nothing: the first failure ends the pass. -/

namespace PixelLowering.Lower

open PixelLowering.Diagnostic
open PixelLowering.Source

/-- Lowers a parameter. A dimension given with it is not looked at. -/
def lowerParam (param : NameDef) : LowerM Target.Param := do
  let ty ← ofExcept (variableType param.ty param.pos)
  let emitted ← declareParameter param.name param.ty
  return ⟨ty, emitted⟩

/-- Lowers parameters in order. -/
def lowerParams : List NameDef → LowerM (List Target.Param)
  | [] => return []
  | param :: rest => return (← lowerParam param) :: (← lowerParams rest)

/-- Lowers a program: its name, its parameters, its body. -/
def lowerProgram (program : Program) : LowerM Target.Method := do
  unless Target.isMethodName program.name do
    throw (.failure ⟨.invalidProgramName program.name, program.pos⟩)
  let params ← lowerParams program.params
  let body ← lowerBlock program.body
  return ⟨resultType program.result, program.name, params, body⟩

/-- Lowers a program to text, with `width` spaces to a step, and logs start and end. -/
def compileProgram (width : Nat) (program : Program) : LowerM String := do
  record (.compiling program.name program.params.length)
  let method ← lowerProgram program
  let text := method.render width
  record (.generated text.utf8ByteSize program.name)
  return text

/-- Spaces to a step when nothing else is asked for. -/
def defaultWidth : Nat := 4

/-- The text of a program, or why there is none, and the log of the pass. -/
def compile (width : Nat) (program : Program) : Except Stop String × List Event :=
  let (result, pass) := ({} : Pass).run (compileProgram width program)
  (result, pass.log)

end PixelLowering.Lower
