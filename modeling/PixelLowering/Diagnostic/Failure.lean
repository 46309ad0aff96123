import PixelLowering.Source.Position
import PixelLowering.Text.Quoted

/-! Why a program cannot be lowered, and the words for it.

    A failure is a cause and a position. The cause keeps the offending spellings as data; every
    wording (title, detail, tip, whole message) is a function of it and stands here only. -/

namespace PixelLowering.Diagnostic

/-- The ways in which lowering can fail. -/
inductive Cause where
  | unsupportedType (type context : String)
  | unsupportedOperator (operator operands : String)
  | unsupportedConstant (constant : String)
  | unresolvedName (name : String)
  | invalidProgramName (name : String)
  deriving Repr, DecidableEq

/-- Advice that goes with a failure. -/
inductive Tip where
  | none
  | suggestion (text : String)
  deriving Repr, DecidableEq

/-- A tip as text, empty when there is none. -/
def Tip.text : Tip → String
  | .none => ""
  | .suggestion text => text

namespace Cause

/-- Short name of the kind of failure. -/
def title : Cause → String
  | unsupportedType .. => "UnsupportedTypeError"
  | unsupportedOperator .. => "UnsupportedOperatorError"
  | unsupportedConstant .. => "UnsupportedConstantError"
  | unresolvedName .. => "UnresolvedNameError"
  | invalidProgramName .. => "InvalidProgramNameError"

/-- What went wrong, in one line. Names are quoted; types and operators stand as they are. -/
def detail : Cause → String
  | unsupportedType type context => "unsupported type " ++ type ++ " (" ++ context ++ ")"
  | unsupportedOperator operator operands =>
    "unsupported operator " ++ operator ++ " for " ++ operands
  | unsupportedConstant constant => "unsupported constant " ++ Text.quoted constant
  | unresolvedName name => "unresolved name " ++ Text.quoted name
  | invalidProgramName name => "invalid program name " ++ Text.quoted name

/-- The spellings a cause keeps, in order. -/
def fields : Cause → List String
  | unsupportedType type context => [type, context]
  | unsupportedOperator operator operands => [operator, operands]
  | unsupportedConstant constant => [constant]
  | unresolvedName name => [name]
  | invalidProgramName name => [name]

/-- Advice for each cause. -/
def tip : Cause → Tip
  | unsupportedType type context =>
    .suggestion ("Type `" ++ type ++ "` has no Java representation as " ++ context)
  | unsupportedOperator operator operands =>
    .suggestion ("No lowering rule for `" ++ operator ++ "` applied to " ++ operands)
  | unsupportedConstant constant => .suggestion ("Unknown named constant `" ++ constant ++ "`")
  | unresolvedName name =>
    .suggestion ("Name `" ++ name ++
      "` reached code generation without a declaration, this is a type checker bug")
  | invalidProgramName name =>
    .suggestion ("`" ++ name ++ "` cannot be used as a Java method name")

end Cause

/-- A cause and where it was met. -/
structure Failure where
  cause : Cause
  position : Source.Position
  deriving Repr, DecidableEq

/-- The detail of a failure and its place. -/
def Failure.message (failure : Failure) : String :=
  failure.cause.detail ++ " at " ++ failure.position.file ++ ":" ++
    toString failure.position.offset

end PixelLowering.Diagnostic
