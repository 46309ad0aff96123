import PixelLowering.Target.Tree
import PixelLowering.Text.Indent

/-! The text of a target tree. This is the only place where a tree becomes text.

    Operators and conditionals always stand in parentheses, so an expression reads the same way
    wherever it is put. A statement has no newline at its end; in a block every statement ends its
    own line and moves right by one step.

        int f(int n) {
            return (n + 1);
        } -/

namespace PixelLowering.Target

open PixelLowering.Library
open PixelLowering.Text

mutual

/-- Text of an expression. -/
def Expr.render : Expr → String
  | .literal text => text
  | .bool true => "true"
  | .bool false => "false"
  | .var name => name
  | .cond test yes no =>
    "(" ++ test.render ++ " ? " ++ yes.render ++ " : " ++ no.render ++ ")"
  | .unary op operand => "(" ++ op.symbol ++ operand.render ++ ")"
  | .measure axis image => "(" ++ image.render ++ "." ++ axis.getter ++ "())"
  | .infixed op left right =>
    "(" ++ left.render ++ " " ++ op.symbol ++ " " ++ right.render ++ ")"
  | .equals receiver argument => receiver.render ++ ".equals(" ++ argument.render ++ ")"
  | .power base exponent =>
    let raised := callText Routine.pow.name [base.render, exponent.render]
    "((int)" ++ callText Routine.round.name [raised] ++ ")"
  | .call routine tag? arguments =>
    callText routine.name (tag?.toList.map Tag.name ++ Expr.renderEach arguments)

/-- Texts of several expressions. -/
def Expr.renderEach : List Expr → List String
  | [] => []
  | e :: rest => e.render :: Expr.renderEach rest

end

/-- Whole lines between braces. -/
def braced (inside : String) : String := "\x7b\n" ++ inside ++ "\x7d"

mutual

/-- Text of a statement, with `width` spaces to a step. -/
def Stmt.render (width : Nat) : Stmt → String
  | .declare ty name none => ty.name ++ " " ++ name ++ ";"
  | .declare ty name (some value) => ty.name ++ " " ++ name ++ " = " ++ value.render ++ ";"
  | .assign name value => name ++ " = " ++ value.render ++ ";"
  | .perform action => action.render ++ ";"
  | .ret value => "return " ++ value.render ++ ";"
  | .ifThen test body => "if (" ++ test.render ++ ") " ++ braced (Stmt.renderInside width body)
  | .ifElse test body other =>
    "if (" ++ test.render ++ ") " ++ braced (Stmt.renderInside width body) ++ " else " ++
      Stmt.render width other
  | .whileLoop test body =>
    "while (" ++ test.render ++ ") " ++ braced (Stmt.renderInside width body)
  | .block body => braced (Stmt.renderInside width body)

/-- Statements one after another, each on lines of its own and one step further right. -/
def Stmt.renderInside (width : Nat) : List Stmt → String
  | [] => ""
  | s :: rest => indent width (s.render width ++ "\n") ++ Stmt.renderInside width rest

end

/-- Text of a block of statements. -/
def Stmt.renderBlock (width : Nat) (body : List Stmt) : String :=
  braced (Stmt.renderInside width body)

/-- Statements one after another, each ending its own line. -/
def Stmt.renderLines (width : Nat) : List Stmt → String
  | [] => ""
  | s :: rest => s.render width ++ "\n" ++ Stmt.renderLines width rest

/-- Text of a parameter. -/
def Param.render (param : Param) : String := param.ty.name ++ " " ++ param.name

/-- Text of a method, with a newline at its end. -/
def Method.render (width : Nat) (method : Method) : String :=
  method.result.name ++ " " ++ method.name ++ "(" ++
    ", ".intercalate (method.params.map Param.render) ++ ") " ++
    Stmt.renderBlock width method.body ++ "\n"

@[simp] theorem Expr.renderEach_eq_map (es : List Expr) :
    Expr.renderEach es = es.map Expr.render := by
  induction es with
  | nil => simp [Expr.renderEach]
  | cons e rest ih => simp [Expr.renderEach, ih]

end PixelLowering.Target
