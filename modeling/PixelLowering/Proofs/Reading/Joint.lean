import PixelLowering.Lower.Expression

/-! The table of binary operators, read from the outside: whatever the operands are lowered to, an
    operator joins them in one way that its own types decide, in their order or changed around.

        image + int    binaryImageScalarOp(PLUS, left, right)
        int + image    binaryImageScalarOp(PLUS, right, left)
        int + int      (left + right)
        int == string  right.equals(left)

    The joint tells the operator, and operands change places for two reasons only: an aggregate
    stands on the right of a smaller operand, or a string on the right of something that is not
    known to be one. -/

namespace PixelLowering.Lower

open PixelLowering.Library
open PixelLowering.Source

/-- What two lowered operands are joined by. -/
inductive Joint where
  | infixed (op : Target.InfixOp)
  | equals
  | power
  | call (routine : Routine) (tag? : Option Tag)
  deriving Repr, DecidableEq

/-- Two operands and what joins them. -/
def Joint.apply : Joint → Target.Expr → Target.Expr → Target.Expr
  | infixed op, first, second => .infixed op first second
  | equals, first, second => .equals first second
  | power, first, second => .power first second
  | call routine tag?, first, second => .call routine tag? [first, second]

/-- The operator that a target operator is written for. -/
def infixOperator : Target.InfixOp → Operator
  | .plus => .plus
  | .minus => .minus
  | .times => .times
  | .div => .div
  | .mod => .mod
  | .and => .and
  | .or => .or
  | .bitAnd => .bitAnd
  | .bitOr => .bitOr
  | .eq => .eq
  | .lt => .lt
  | .gt => .gt
  | .le => .le
  | .ge => .ge

/-- The operator that a tag is written for. -/
def tagOperator : Tag → Operator
  | .plus => .plus
  | .minus => .minus
  | .times => .times
  | .div => .div
  | .mod => .mod
  | .equals => .eq

/-- The operator that a joint is written for. -/
def Joint.operator : Joint → Operator
  | infixed op => infixOperator op
  | equals => .eq
  | power => .exp
  | call _ none => .eq
  | call _ (some tag) => tagOperator tag

/-- Operands that change places: sums and products of an aggregate on the right of a smaller
    operand, and comparisons with a string on the right of another scalar. -/
def ChangesPlaces (op : Operator) (leftTy rightTy : Ty) : Prop :=
  (op ∈ [.plus, .times] ∧
    (leftTy, rightTy) ∈ [(.int, .pixel), (.int, .image), (.pixel, .image)]) ∨
  (op = .eq ∧ leftTy ∉ [.string, .pixel, .image] ∧ rightTy = .string)

/-- An operator on operands of the given types does nothing, or joins the operands in one way. -/
inductive JoinedBy (op : Operator) (leftTy rightTy : Ty)
    (lowered? : Target.Expr → Target.Expr → Option Target.Expr) : Prop
  | unsupported (h : ∀ left right, lowered? left right = none)
  | inOrder (joint : Joint) (hop : joint.operator = op)
      (h : ∀ left right, lowered? left right = some (joint.apply left right))
  | changed (joint : Joint) (hop : joint.operator = op) (hplaces : ChangesPlaces op leftTy rightTy)
      (h : ∀ left right, lowered? left right = some (joint.apply right left))

section

variable {op : Operator} {leftTy rightTy : Ty}

theorem tagged?_joined (routine : Routine) : JoinedBy op leftTy rightTy (tagged? routine op) := by
  cases htag : tag? op with
  | none => exact .unsupported fun left right => by rw [tagged?, htag]; rfl
  | some tag =>
    refine .inOrder (.call routine (some tag)) ?_ fun left right => by rw [tagged?, htag]; rfl
    cases op <;> cases htag <;> rfl

theorem swapped?_joined (routine : Routine)
    (h : (leftTy, rightTy) ∈ [(Ty.int, Ty.pixel), (.int, .image), (.pixel, .image)]) :
    JoinedBy op leftTy rightTy (swapped? routine op) := by
  cases op with
  | plus =>
    exact .changed (.call routine (some .plus)) rfl (.inl ⟨by simp, h⟩) fun _ _ => rfl
  | times =>
    exact .changed (.call routine (some .times)) rfl (.inl ⟨by simp, h⟩) fun _ _ => rfl
  | _ => exact .unsupported fun _ _ => rfl

/-- Two operands of one type above the integers: a comparison of its own, or arithmetic. -/
theorem compared?_joined (routine comparison : Routine) (tag? : Option Tag)
    (htag : (Joint.call comparison tag?).operator = .eq) :
    JoinedBy op leftTy rightTy fun left right =>
      if op = .eq then some (.call comparison tag? [left, right])
      else tagged? routine op left right := by
  by_cases h : op = .eq
  · exact .inOrder (.call comparison tag?) (htag.trans h.symm) fun _ _ => if_pos h
  · simp only [if_neg h]
    exact tagged?_joined routine

theorem infixed?_joined :
    JoinedBy op leftTy rightTy fun left right =>
      (infixed? op).map fun op => .infixed op left right := by
  cases hinfixed : infixed? op with
  | none => exact .unsupported fun _ _ => rfl
  | some infixedOp =>
    refine .inOrder (.infixed infixedOp) ?_ fun _ _ => rfl
    cases op <;> cases hinfixed <;> rfl

theorem lowerScalars?_joined (hleft : leftTy.isAggregate = false) :
    JoinedBy op leftTy rightTy (lowerScalars? op leftTy rightTy) := by
  cases op with
  | eq =>
    by_cases hstring : leftTy = .string
    · exact .inOrder .equals rfl fun _ _ => if_pos hstring
    · by_cases hstring' : rightTy = .string
      · refine .changed .equals rfl (.inr ⟨rfl, ?_, hstring'⟩) fun _ _ => ?_
        · cases leftTy <;> simp_all [Ty.isAggregate]
        · exact (if_neg hstring).trans (if_pos hstring')
      · exact .inOrder (.infixed .eq) rfl fun _ _ => (if_neg hstring).trans (if_neg hstring')
  | exp => exact .inOrder .power rfl fun _ _ => rfl
  | _ => exact infixed?_joined

/-- Every entry of the table is a joint, in order or with the operands changed around. -/
theorem lowerBinary?_joined (op : Operator) (leftTy rightTy : Ty) :
    JoinedBy op leftTy rightTy (lowerBinary? op leftTy rightTy) := by
  cases leftTy <;> cases rightTy
  case image.image => exact compared?_joined .imageImage .imagesEqual none rfl
  case pixel.pixel => exact compared?_joined .pixelPixel .pixelTest (some .equals) rfl
  case image.pixel => exact tagged?_joined .imagePixel
  case image.int => exact tagged?_joined .imageScalar
  case pixel.int => exact tagged?_joined .pixelInt
  case pixel.image => exact swapped?_joined .imagePixel (by simp)
  case int.image => exact swapped?_joined .imageScalar (by simp)
  case int.pixel => exact swapped?_joined .pixelInt (by simp)
  all_goals first
    | exact .unsupported fun _ _ => rfl
    | exact lowerScalars?_joined rfl

end

end PixelLowering.Lower
