import PixelLowering.Lower.Statement
import PixelLowering.Proofs.Domain.Validity
import PixelLowering.Proofs.Lexical.Lowering

/-! What is lowered in one environment: expressions, and the statements that only read names.

    Both directions are shown at once, node by node: lowering succeeds if and only if the rule of
    the node holds. Nothing depends on what the parts are lowered to, so the conditions of the steps
    of a computation add up:

        do let a ← e₁; let b ← e₂; return f a b      succeeds  iff  e₁ does and e₂ does -/

namespace PixelLowering.Lower

open PixelLowering.Diagnostic
open PixelLowering.Library
open PixelLowering.Source

/-! ### Operators -/

section

variable (op : Operator) (first second : Target.Expr) (routine : Routine)

theorem tagged?_isSome :
    (tagged? routine op first second).isSome ↔ op ∈ [.plus, .minus, .times, .div, .mod] := by
  cases op <;> simp [tagged?, tag?]

theorem swapped?_isSome :
    (swapped? routine op first second).isSome ↔ op ∈ [.plus, .times] := by
  cases op <;> simp [swapped?, Operator.isCommutative, tagged?, tag?]

theorem lowerScalars?_isSome (leftTy rightTy : Ty) :
    (lowerScalars? op leftTy rightTy first second).isSome ↔ op ∉ [.bang, .width, .height] := by
  cases op <;> simp [lowerScalars?, infixed?]
  split
  · rfl
  · split <;> rfl

theorem lowerUnary?_isSome (ty : Ty) : (lowerUnary? op ty first).isSome ↔ op.AppliesTo ty := by
  cases op <;> cases ty <;> simp [lowerUnary?, Operator.AppliesTo]

/-- Two operands of one type above the integers: arithmetic, or a comparison by some call. -/
theorem compared?_isSome (comparison : Target.Expr) :
    (if op = .eq then some comparison else tagged? routine op first second).isSome ↔
      op ∈ [.plus, .minus, .times, .div, .mod] ∨ op = .eq := by
  by_cases h : op = .eq
  · simp [h]
  · rw [if_neg h, tagged?_isSome]
    simp only [h, or_false]

/-- The table of operand types, with its swapped half, is the one the rules describe. -/
theorem lowerBinary?_isSome (leftTy rightTy : Ty) :
    (lowerBinary? op leftTy rightTy first second).isSome ↔ op.Joins leftTy rightTy := by
  cases leftTy <;> cases rightTy <;>
    simp [lowerBinary?, Operator.Joins, Ty.rank, Ty.isAggregate, tagged?_isSome, swapped?_isSome,
      lowerScalars?_isSome, compared?_isSome]
  -- two integers, for which arithmetic is a case of both rules, and the swapped half
  all_goals cases op <;> simp

end

/-! ### Expressions -/

/-- The environment has an entry for the names in scope and for no others. -/
def Env.Covers (env : Env) (scope : List String) : Prop :=
  ∀ name, (∃ emitted, env name = some emitted) ↔ name ∈ scope

theorem Env.Covers.bind {env : Env} {scope : List String} (h : env.Covers scope)
    (name emitted : String) : (env.bind name emitted).Covers (name :: scope) := by
  intro other
  rw [Env.bind, List.mem_cons, ← h other]
  by_cases hother : other = name
  · simp [hother]
  · simp [hother]

section

variable {α β : Type} {result : Except Failure α}

/-- A computation in two steps, the second of which succeeds or fails whatever the first one
    gives. -/
theorem bind_ok_iff {next : α → Except Failure β} {valid valid' : Prop}
    (h : (∃ a, result = .ok a) ↔ valid) (hnext : ∀ a, (∃ b, next a = .ok b) ↔ valid') :
    (∃ b, (result >>= next) = .ok b) ↔ valid ∧ valid' := by
  rw [← h]
  cases result with
  | error reason => simp [bind, Except.bind]
  | ok a =>
    rw [← hnext a]
    exact ⟨fun hb => ⟨⟨a, rfl⟩, hb⟩, fun hb => hb.2⟩

/-- A last step that cannot fail. -/
theorem map_ok_iff {f : α → β} {valid : Prop} (h : (∃ a, result = .ok a) ↔ valid) :
    (∃ b, (result >>= fun a => pure (f a)) = .ok b) ↔ valid := by
  rw [← h]
  cases result with
  | error reason => simp [bind, Except.bind]
  | ok a => exact ⟨fun _ => ⟨a, rfl⟩, fun _ => ⟨f a, rfl⟩⟩

/-- What a computation gives up on has no result. -/
theorem error_ok_iff (reason : Failure) : (∃ a : α, Except.error reason = .ok a) ↔ False := by
  simp

/-- A result that is there already. -/
theorem pure_ok_iff (a : α) : (∃ b, (pure a : Except Failure α) = .ok b) ↔ True :=
  ⟨fun _ => trivial, fun _ => ⟨a, rfl⟩⟩

end

theorem constantLiteral?_isSome (name : String) :
    (constantLiteral? name).isSome ↔ name = "Z" ∨ name ∈ colours.map Prod.fst := by
  rw [constantLiteral?]
  by_cases h : name = "Z"
  · simp [h]
  · rw [if_neg h, or_iff_right h, Option.isSome_map, List.lookup_isSome_iff, List.mem_map]
    simp only [beq_iff_eq, @eq_comm _ name]

section

variable {env : Env} {scope : List String}

theorem resolveName_ok_iff (h : env.Covers scope) (name : String) (pos : Position) :
    (∃ emitted, resolveName env name pos = .ok emitted) ↔ name ∈ scope := by
  rw [← h name, resolveName]
  cases env name <;> simp

/-- The pixel of a selection without coordinates. -/
theorem wholePixel_ok_iff (base : Expr) {value : Except Failure Target.Expr} {valid : Prop}
    (h : (∃ a, value = .ok a) ↔ valid) :
    (∃ a, wholePixel base value = .ok a) ↔ base.ty = .pixel ∧ valid := by
  rw [wholePixel, ← h]
  split
  · next hty => simp [hty]
  · next hty => simp [hty]
  · next hpixel _ =>
    rw [error_ok_iff, false_iff]
    exact fun hvalid => hpixel hvalid.1

/-- The pixel of a selection with coordinates. -/
theorem pixelOf_ok_iff (base : Expr) (coordinates : Position)
    {image x y : Except Failure Target.Expr} {valid validX validY : Prop}
    (h : (∃ a, image = .ok a) ↔ valid) (hx : (∃ a, x = .ok a) ↔ validX)
    (hy : (∃ a, y = .ok a) ↔ validY) :
    (∃ a, pixelOf base coordinates image x y = .ok a) ↔
      base.ty = .image ∧ valid ∧ validX ∧ validY := by
  rw [pixelOf]
  split
  · next hty =>
    rw [and_iff_right hty]
    exact bind_ok_iff h fun _ => bind_ok_iff hx fun _ => map_ok_iff hy
  · next hty => simp [hty]
  · next himage _ =>
    rw [error_ok_iff, false_iff]
    exact fun hvalid => himage hvalid.1

/-- A selection without coordinates takes the whole of a pixel or an image, or a channel of it. -/
theorem lowerExpr_part_ok_iff (info : Info) (base : Expr) (channel? : Option Channel)
    {valid : Prop} (h : (∃ a, lowerExpr env base = .ok a) ↔ valid) :
    (∃ a, lowerExpr env (.part info base channel?) = .ok a) ↔
      base.ty ∈ [.pixel, .image] ∧ valid := by
  cases channel? with
  | none =>
    rw [lowerExpr]
    cases base.ty <;> simp [Ty.isAggregate, h]
  | some channel =>
    rw [lowerExpr]
    split
    · next himage =>
      rw [map_ok_iff h]
      simp [himage]
    · next himage =>
      rw [readChannel, map_ok_iff (wholePixel_ok_iff base h)]
      simp [himage]

/-- An expression is lowered if and only if it is valid. -/
theorem lowerExpr_ok_iff (h : env.Covers scope) (e : Expr) :
    (∃ value, lowerExpr env e = .ok value) ↔ e.Valid scope := by
  induction e with
  | num info text | str info text | bool info text => exact pure_ok_iff _
  | ident info name =>
    rw [lowerExpr, Expr.Valid]
    exact map_ok_iff (resolveName_ok_iff h name info.pos)
  | const info name =>
    rw [lowerExpr, Expr.Valid, ← constantLiteral?_isSome]
    cases constantLiteral? name <;> simp [pure_ok_iff]
  | cond info guard yes no ihGuard ihYes ihNo =>
    rw [lowerExpr, Expr.Valid]
    exact bind_ok_iff ihGuard fun _ => bind_ok_iff ihYes fun _ => map_ok_iff ihNo
  | unary info op operand ih =>
    rw [lowerExpr, Expr.Valid]
    refine bind_ok_iff ih fun value => ?_
    rw [← lowerUnary?_isSome op value]
    cases lowerUnary? op operand.ty value <;> simp [pure_ok_iff]
  | binary info op left right ihLeft ihRight =>
    rw [lowerExpr, Expr.Valid]
    refine bind_ok_iff ihLeft fun leftValue => bind_ok_iff ihRight fun rightValue => ?_
    rw [← lowerBinary?_isSome op leftValue rightValue]
    cases lowerBinary? op left.ty right.ty leftValue rightValue <;> simp [pure_ok_iff]
  | part info base channel? ih => exact lowerExpr_part_ok_iff info base channel? ih
  | pixelAt info base x y coordinates channel? ihBase ihX ihY =>
    have hpixel := pixelOf_ok_iff base coordinates ihBase ihX ihY
    cases channel? with
    | none => exact hpixel
    | some channel => exact map_ok_iff hpixel
  | pixel info red green blue ihRed ihGreen ihBlue =>
    rw [lowerExpr, Expr.Valid]
    exact bind_ok_iff ihRed fun _ => bind_ok_iff ihGreen fun _ => map_ok_iff ihBlue

/-! ### Statements that only read names -/

theorem variableType_ok_iff (ty : Ty) (pos : Position) :
    (∃ a, variableType ty pos = .ok a) ↔ ty ≠ .void := by
  rw [variableType]
  split
  · next h => simp [h]
  · next h => simp [h]

/-- The initial value of an image is made of its source and its dimension. -/
theorem lowerInitial_image_ok_iff (h : env.Covers scope) (target : NameDef) (init? : Option Expr)
    (hty : target.ty = .image) :
    (∃ value?, lowerInitial env target init? = .ok value?) ↔
      (∀ init ∈ init?, init.Valid scope) ∧
        ∀ size ∈ target.dimension?, size.width.Valid scope ∧ size.height.Valid scope := by
  have hexpr := lowerExpr_ok_iff h
  obtain ⟨name, ty, dimension?, pos⟩ := target
  subst hty
  rcases init? with _ | init <;> rcases dimension? with _ | size
  · refine (pure_ok_iff none).trans ?_
    simp
  · refine (bind_ok_iff (hexpr size.width) fun _ => map_ok_iff (hexpr size.height)).trans ?_
    simp
  · refine (map_ok_iff (hexpr init)).trans ?_
    simp
  · refine (bind_ok_iff (hexpr init) fun _ =>
      bind_ok_iff (hexpr size.width) fun _ => map_ok_iff (hexpr size.height)).trans ?_
    simp

/-- The initial value of any other variable is that of its source. -/
theorem lowerInitial_plain_ok_iff (h : env.Covers scope) (target : NameDef) (init? : Option Expr)
    (hty : target.ty ≠ .image) :
    (∃ value?, lowerInitial env target init? = .ok value?) ↔
      ∀ init ∈ init?, init.Valid scope := by
  obtain ⟨name, ty, dimension?, pos⟩ := target
  cases init? with
  | none =>
    have hnone : lowerInitial env ⟨name, ty, dimension?, pos⟩ none = pure none := by
      cases ty <;> first | rfl | exact absurd rfl hty
    simp [hnone, pure_ok_iff]
  | some init =>
    have hsome : lowerInitial env ⟨name, ty, dimension?, pos⟩ (some init) =
        do return some (← lowerExpr env init) := by
      cases ty <;> first | rfl | exact absurd rfl hty
    rw [hsome, map_ok_iff (lowerExpr_ok_iff h init)]
    simp

/-- The initial value of a variable that is not void. -/
theorem lowerInitial_ok_iff (h : env.Covers scope) (target : NameDef) (init? : Option Expr)
    (hty : target.ty ≠ .void) :
    (∃ value?, lowerInitial env target init? = .ok value?) ↔ target.Valid scope init? := by
  by_cases himage : target.ty = .image
  · rw [lowerInitial_image_ok_iff h target init? himage]
    exact ⟨fun ⟨hinit, hsize⟩ => ⟨hty, hinit, fun _ => hsize⟩,
      fun hvalid => ⟨hvalid.init, hvalid.size himage⟩⟩
  · rw [lowerInitial_plain_ok_iff h target init? himage]
    exact ⟨fun hinit => ⟨hty, hinit, fun hty' => absurd hty' himage⟩, fun hvalid => hvalid.init⟩

theorem lowerAssign_ok_iff (h : env.Covers scope) (target : LValue) (value : Expr) :
    (∃ s, lowerAssign env target value = .ok s) ↔ target.Valid scope ∧ value.Valid scope := by
  rw [lowerAssign, LValue.Valid, and_right_comm, and_assoc]
  refine bind_ok_iff (resolveName_ok_iff h _ _) fun name =>
    bind_ok_iff (lowerExpr_ok_iff h value) fun code => ?_
  obtain ⟨targetName, ty, selector?, channel?, pos⟩ := target
  cases selector? with
  | none => cases channel? <;> cases ty <;> simp [pure_ok_iff]
  | some selector =>
    have hexpr := lowerExpr_ok_iff h
    have hselector : (∃ xy, lowerSelector env selector = .ok xy) ↔
        selector.x.Valid scope ∧ selector.y.Valid scope :=
      bind_ok_iff (hexpr selector.x) fun _ => map_ok_iff (hexpr selector.y)
    cases ty with
    | image => exact (map_ok_iff hselector).trans (and_iff_right rfl).symm
    | _ => simp

theorem lowerWrite_ok_iff (h : env.Covers scope) (value : Expr) :
    (∃ s, lowerWrite env value = .ok s) ↔ value.Valid scope := by
  rw [lowerWrite]
  exact map_ok_iff (lowerExpr_ok_iff h value)

/-- A returned channel that is typed as an integer takes the route of a channel read, which has no
    case for a whole image. -/
theorem lowerReturned_channel_ok_iff (h : env.Covers scope) (info : Info) (base : Expr)
    (channel : Channel) :
    (∃ a, lowerReturned env (.part info base (some channel)) = .ok a) ↔
      (Expr.part info base (some channel)).Returnable scope := by
  have hbase := lowerExpr_ok_iff h base
  rw [lowerReturned, Expr.Returnable, Expr.Valid]
  by_cases hint : info.ty = .int
  · have hread : (∃ a, lowerChannelRead env base none channel = .ok a) ↔
        base.ty = .pixel ∧ base.Valid scope :=
      map_ok_iff (wholePixel_ok_iff base hbase)
    rw [if_pos hint, hread]
    constructor
    · rintro ⟨hty, hvalid⟩
      exact ⟨⟨by simp [hty], hvalid⟩, fun _ => hty⟩
    · rintro ⟨⟨_, hvalid⟩, hty⟩
      exact ⟨hty hint, hvalid⟩
  · rw [if_neg hint, lowerExpr_part_ok_iff info base (some channel) hbase]
    simp [hint]

theorem lowerReturned_ok_iff (h : env.Covers scope) (value : Expr) :
    (∃ a, lowerReturned env value = .ok a) ↔ value.Returnable scope := by
  have hvalue := lowerExpr_ok_iff h value
  cases value with
  | part info base channel? =>
    cases channel? with
    | none => exact hvalue.trans (and_iff_left trivial).symm
    | some channel => exact lowerReturned_channel_ok_iff h info base channel
  | pixelAt info base x y coordinates channel? =>
    rw [lowerReturned_pixelAt]
    exact hvalue.trans (and_iff_left trivial).symm
  | _ => exact hvalue.trans (and_iff_left trivial).symm

end

end PixelLowering.Lower
