import PixelLowering.Library.Constant
import PixelLowering.Source.Tree
import PixelLowering.Target.Reserved

/-! Valid programs, by rules on the tree alone.

    `scope` holds the names that may be used at a place: the parameters, and the declarations that
    come earlier in the blocks around it. A declaration adds its name for the statements that follow
    it in the same block, so its own initial value does not see it yet:

        scope ⊢ int x ← e; rest      when  scope ⊢ e  and  x, scope ⊢ rest
        scope ⊢ { body } rest        when  scope ⊢ body  and  scope ⊢ rest

    Static types are read off the nodes and never inferred. Parts of a tree that mean nothing where
    they stand, such as the dimension of an integer, may hold anything. -/

namespace PixelLowering.Source

/-! ### Operators -/

/-- Unary operators with the type they apply to: signs, negation, and the two measures. -/
def Operator.AppliesTo (op : Operator) (ty : Ty) : Prop :=
  (op ∈ [.plus, .minus] ∧ ty = .int) ∨ (op = .bang ∧ ty = .bool) ∨
    (op ∈ [.width, .height] ∧ ty = .image)
  deriving Decidable

/-- Order of the types that take part in arithmetic on pixels and images. -/
def Ty.rank : Ty → Nat
  | .image => 2
  | .pixel => 1
  | .int | .bool | .string | .void => 0

/-- Binary operators with the types they join. Scalars of any types are joined by every operator
    that has two operands. An image or a pixel is joined arithmetically to an operand of a type that
    is not above its own; the other way round the operator has to be `+` or `*`. Two images or two
    pixels can be compared. -/
def Operator.Joins (op : Operator) (left right : Ty) : Prop :=
  (left ∉ [.pixel, .image] ∧ right ∉ [.pixel, .image] ∧ op ∉ [.bang, .width, .height]) ∨
  (left ∈ [.int, .pixel, .image] ∧ right ∈ [.int, .pixel, .image] ∧
    op ∈ [.plus, .minus, .times, .div, .mod] ∧
    (right.rank ≤ left.rank ∨ op ∈ [.plus, .times])) ∨
  (left ∈ [.pixel, .image] ∧ left = right ∧ op = .eq)
  deriving Decidable

example : Operator.minus.Joins .image .int ∧ ¬Operator.minus.Joins .int .image := by decide

/-! ### Expressions -/

namespace Expr

/-- Expressions that can be lowered where the given names are in scope. -/
def Valid (scope : List String) : Expr → Prop
  | num .. | str .. | bool .. => True
  | ident _ name => name ∈ scope
  | const _ name => name = "Z" ∨ name ∈ Library.colours.map Prod.fst
  | cond _ guard yes no => guard.Valid scope ∧ yes.Valid scope ∧ no.Valid scope
  | unary _ op operand => operand.Valid scope ∧ op.AppliesTo operand.ty
  | binary _ op left right => left.Valid scope ∧ right.Valid scope ∧ op.Joins left.ty right.ty
  | part _ base _ => base.ty ∈ [.pixel, .image] ∧ base.Valid scope
  | pixelAt _ base x y _ _ => base.ty = .image ∧ base.Valid scope ∧ x.Valid scope ∧ y.Valid scope
  | pixel _ red green blue => red.Valid scope ∧ green.Valid scope ∧ blue.Valid scope

/-- Expressions that can be returned. What is typed as an integer and selects a channel takes it
    from a pixel; elsewhere the channel of a whole image has a value too. -/
def Returnable (scope : List String) (e : Expr) : Prop :=
  e.Valid scope ∧
    match e with
    | part info base (some _) => info.ty = .int → base.ty = .pixel
    | _ => True

end Expr

/-! ### Statements -/

/-- Declarations: no variable is void, and the dimension matters for images only. -/
structure NameDef.Valid (scope : List String) (target : NameDef) (init? : Option Expr) : Prop where
  ty : target.ty ≠ .void
  init : ∀ init ∈ init?, init.Valid scope
  size : target.ty = .image → ∀ size ∈ target.dimension?,
    size.width.Valid scope ∧ size.height.Valid scope

/-- Targets of assignments: a whole variable, a channel of a pixel, or a pixel of an image with or
    without a channel. -/
def LValue.Valid (scope : List String) (target : LValue) : Prop :=
  target.name ∈ scope ∧
    match target.selector?, target.channel? with
    | none, none => True
    | none, some _ => target.ty = .pixel
    | some selector, _ =>
      target.ty = .image ∧ selector.x.Valid scope ∧ selector.y.Valid scope

namespace Stmt

/-- Names in scope after a statement. What is declared inside one is gone. -/
def scopeAfter (scope : List String) : Stmt → List String
  | decl target _ => target.name :: scope
  | _ => scope

mutual

/-- Valid statements. -/
def Valid (scope : List String) : Stmt → Prop
  | decl target init? => target.Valid scope init?
  | assign target value => target.Valid scope ∧ value.Valid scope
  | write value => value.Valid scope
  | ret value => value.Returnable scope
  | branch arms | loop arms => ValidArms scope arms
  | block body => ValidBlock scope body

/-- Blocks of valid statements. -/
def ValidBlock (scope : List String) : List Stmt → Prop
  | [] => True
  | s :: rest => s.Valid scope ∧ ValidBlock (s.scopeAfter scope) rest

/-- Guarded blocks: every guard and every block sees the same names. -/
def ValidArms (scope : List String) : List (Guarded Stmt) → Prop
  | [] => True
  | ⟨guard, body⟩ :: rest => guard.Valid scope ∧ ValidBlock scope body ∧ ValidArms scope rest

end

end Stmt

/-! ### Programs -/

/-- The characters `[A-Za-z_$]`. -/
def NameStart (c : Char) : Prop :=
  ('A' ≤ c ∧ c ≤ 'Z') ∨ ('a' ≤ c ∧ c ≤ 'z') ∨ c = '_' ∨ c = '$'

/-- The texts `[A-Za-z_$][A-Za-z0-9_$]*`. -/
def NameText (text : List Char) : Prop :=
  ∃ first rest, text = first :: rest ∧ NameStart first ∧
    ∀ c ∈ rest, NameStart c ∨ ('0' ≤ c ∧ c ≤ '9')

/-- Valid programs. The dimensions of parameters and the type of the result play no part. -/
structure Program.Valid (program : Program) : Prop where
  name : NameText program.name.toList
  free : program.name ∉ Target.reserved
  params : ∀ param ∈ program.params, param.ty ≠ .void
  body : Stmt.ValidBlock (program.params.map NameDef.name) program.body

end PixelLowering.Source
