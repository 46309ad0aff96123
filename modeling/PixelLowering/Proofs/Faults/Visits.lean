import PixelLowering.Diagnostic.Failure
import PixelLowering.Proofs.Domain.Validity

/-! What can be wrong at a node of a program, and the order in which nodes are looked at.

    A fault is a matter of one node: of its own spelling, of the types that stand next to it, and of
    the names in scope at its place. `Fault` lists all of them, each with the failure that describes
    it. The order of visits is that of evaluation. Operands come before their operator, but a
    selection is looked at before its base, since only the type of the base decides whether there is
    anything to select:

        a + b            a, b, +
        (a + b)[x, y]    [x, y], a, b, +, x, y
        n[x, y] ← v      n, v, the selection, x, y

    Parts of the tree that are never looked at, such as the dimension of an integer, have no
    visit. -/

namespace PixelLowering.Source

open PixelLowering.Diagnostic

/-- A node at the time of a visit; where it matters, with the names in scope. An assignment target
    is visited twice, for its name and for the part of the variable that it selects. -/
inductive Node where
  | program (program : Program)
  | definition (target : NameDef)
  | target (scope : List String) (target : LValue)
  | selection (target : LValue)
  | expr (scope : List String) (e : Expr)
  | returned (value : Expr)

/-- What is wrong at a node, as a failure that describes the node and stands at its position. -/
inductive Fault : Node → Failure → Prop
  /-- the program has no name that a method can have -/
  | programName {program : Program}
      (h : ¬(NameText program.name.toList ∧ program.name ∉ Target.reserved)) :
      Fault (.program program) ⟨.invalidProgramName program.name, program.pos⟩
  /-- a parameter or a variable is void -/
  | voidDefinition {target : NameDef} (h : target.ty = .void) :
      Fault (.definition target)
        ⟨.unsupportedType Ty.void.name "a variable or parameter", target.pos⟩
  /-- an identifier has no binding in scope -/
  | unresolvedIdent {scope : List String} {info : Info} {name : String} (h : name ∉ scope) :
      Fault (.expr scope (.ident info name)) ⟨.unresolvedName name, info.pos⟩
  /-- the target of an assignment has no binding in scope -/
  | unresolvedTarget {scope : List String} {target : LValue} (h : target.name ∉ scope) :
      Fault (.target scope target) ⟨.unresolvedName target.name, target.pos⟩
  /-- a constant stands for no literal -/
  | unknownConstant {scope : List String} {info : Info} {name : String}
      (h : Library.constantLiteral? name = none) :
      Fault (.expr scope (.const info name)) ⟨.unsupportedConstant name, info.pos⟩
  /-- a unary operator does not apply to the type of its operand -/
  | unary {scope : List String} {info : Info} {op : Operator} {operand : Expr}
      (h : ¬op.AppliesTo operand.ty) :
      Fault (.expr scope (.unary info op operand))
        ⟨.unsupportedOperator op.symbol operand.ty.name, info.pos⟩
  /-- a binary operator does not join the types of its operands -/
  | binary {scope : List String} {info : Info} {op : Operator} {left right : Expr}
      (h : ¬op.Joins left.ty right.ty) :
      Fault (.expr scope (.binary info op left right))
        ⟨.unsupportedOperator op.symbol (left.ty.name ++ " and " ++ right.ty.name), info.pos⟩
  /-- a selection of nothing has a base that is neither a pixel nor an image -/
  | wholeBase {scope : List String} {info : Info} {base : Expr} (h : base.ty ∉ [.pixel, .image]) :
      Fault (.expr scope (.part info base none))
        ⟨.unsupportedType base.ty.name "the base of a selector", info.pos⟩
  /-- a channel is read from what is neither a pixel nor an image -/
  | channelBase {scope : List String} {info : Info} {base : Expr} {channel : Channel}
      (h : base.ty ∉ [.pixel, .image]) :
      Fault (.expr scope (.part info base (some channel)))
        ⟨.unsupportedType base.ty.name "the base of a selector", base.pos⟩
  /-- coordinates select from what is neither a pixel nor an image -/
  | coordinatesBase {scope : List String} {info : Info} {base x y : Expr} {coordinates : Position}
      {channel? : Option Channel} (h : base.ty ∉ [.pixel, .image]) :
      Fault (.expr scope (.pixelAt info base x y coordinates channel?))
        ⟨.unsupportedType base.ty.name "the base of a selector", base.pos⟩
  /-- coordinates select from a pixel -/
  | coordinatesOfPixel {scope : List String} {info : Info} {base x y : Expr}
      {coordinates : Position} {channel? : Option Channel} (h : base.ty = .pixel) :
      Fault (.expr scope (.pixelAt info base x y coordinates channel?))
        ⟨.unsupportedOperator "[]" "pixel", coordinates⟩
  /-- an integer is returned that is a channel of a whole image -/
  | returnedImage {info : Info} {base : Expr} {channel : Channel} (hint : info.ty = .int)
      (h : base.ty = .image) :
      Fault (.returned (.part info base (some channel)))
        ⟨.unsupportedOperator ":" "image without a pixel selector", base.pos⟩
  /-- a pixel is assigned in what is not an image -/
  | assignedPixel {target : LValue} (hselector : target.selector?.isSome) (h : target.ty ≠ .image) :
      Fault (.selection target)
        ⟨.unsupportedOperator "[]" ("assignment to " ++ target.ty.name ++ " `" ++ target.name ++ "`"),
          target.pos⟩
  /-- a channel is assigned in what is not a pixel -/
  | assignedChannel {target : LValue} (hselector : target.selector? = none)
      (hchannel : target.channel?.isSome) (h : target.ty ≠ .pixel) :
      Fault (.selection target)
        ⟨.unsupportedOperator ":" ("assignment to " ++ target.ty.name ++ " `" ++ target.name ++ "`"),
          target.pos⟩

/-- Nothing is wrong at a node. -/
def Node.Clear (node : Node) : Prop := ∀ failure, ¬Fault node failure

/-- The failure is that of the first node with a fault; nothing is wrong at the nodes before it. -/
def FirstFault (nodes : List Node) (failure : Failure) : Prop :=
  ∃ before node after, nodes = before ++ node :: after ∧ Fault node failure ∧
    ∀ earlier ∈ before, earlier.Clear

/-! ### The order of visits -/

/-- Visits to the nodes of an expression. -/
def Expr.visits (scope : List String) : Expr → List Node
  | e@(cond _ guard yes no) =>
    guard.visits scope ++ yes.visits scope ++ no.visits scope ++ [.expr scope e]
  | e@(unary _ _ operand) => operand.visits scope ++ [.expr scope e]
  | e@(binary _ _ left right) => left.visits scope ++ right.visits scope ++ [.expr scope e]
  | e@(part _ base _) => .expr scope e :: base.visits scope
  | e@(pixelAt _ base x y _ _) =>
    .expr scope e :: (base.visits scope ++ x.visits scope ++ y.visits scope)
  | e@(pixel _ red green blue) =>
    red.visits scope ++ green.visits scope ++ blue.visits scope ++ [.expr scope e]
  | e@(num ..) | e@(str ..) | e@(bool ..) | e@(ident ..) | e@(const ..) => [.expr scope e]

/-- Visits to the parts of a declaration: the name and its type, the initial value, and for an image
    the dimension. -/
def NameDef.visits (scope : List String) (target : NameDef) (init? : Option Expr) : List Node :=
  .definition target :: (init?.toList.flatMap (Expr.visits scope) ++
    if target.ty = .image then
      target.dimension?.toList.flatMap fun size =>
        size.width.visits scope ++ size.height.visits scope
    else [])

/-- Visits to the parts of an assignment. -/
def LValue.visits (scope : List String) (target : LValue) (value : Expr) : List Node :=
  .target scope target :: (value.visits scope ++ .selection target ::
    target.selector?.toList.flatMap fun selector =>
      selector.x.visits scope ++ selector.y.visits scope)

namespace Stmt

mutual

/-- Visits to the nodes of a statement. -/
def visits (scope : List String) : Stmt → List Node
  | decl target init? => target.visits scope init?
  | assign target value => target.visits scope value
  | write value => value.visits scope
  | ret value => .returned value :: value.visits scope
  | branch arms | loop arms => visitsArms scope arms
  | block body => visitsBlock scope body

/-- Visits to the statements of a block, each with the names that it sees. -/
def visitsBlock (scope : List String) : List Stmt → List Node
  | [] => []
  | s :: rest => s.visits scope ++ visitsBlock (s.scopeAfter scope) rest

/-- Visits to guarded blocks, each guard before its block. -/
def visitsArms (scope : List String) : List (Guarded Stmt) → List Node
  | [] => []
  | ⟨guard, body⟩ :: rest =>
    guard.visits scope ++ visitsBlock scope body ++ visitsArms scope rest

end

end Stmt

/-- Visits to the nodes of a program: itself for its name, the parameters, the body. -/
def Program.visits (program : Program) : List Node :=
  .program program :: (program.params.map Node.definition ++
    Stmt.visitsBlock (program.params.map NameDef.name) program.body)

end PixelLowering.Source
