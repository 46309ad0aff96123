import PixelLowering.Proofs.Reading.Alike
import PixelLowering.Proofs.Reading.Unambiguous

/-! The text of a lowered expression says which expression it was.

    Three steps lead from a source expression to its text, and each one can be taken back:

        e  ── lowerExpr ──▶  tree  ── names ──▶  tree with emitted names  ── render ──▶  text

    The text is cut into tokens and read in one way only; an emitted name belongs to one name in
    scope; and expressions with the same tree are alike. -/

namespace PixelLowering.Target

mutual

/-- The expression with other names for its variables. -/
def Expr.rename (f : String → String) : Expr → Expr
  | .literal text => .literal text
  | .bool value => .bool value
  | .var name => .var (f name)
  | .cond test yes no => .cond (test.rename f) (yes.rename f) (no.rename f)
  | .unary op operand => .unary op (operand.rename f)
  | .measure axis image => .measure axis (image.rename f)
  | .infixed op left right => .infixed op (left.rename f) (right.rename f)
  | .equals receiver argument => .equals (receiver.rename f) (argument.rename f)
  | .power base exponent => .power (base.rename f) (exponent.rename f)
  | .call routine tag? arguments => .call routine tag? (Expr.renameEach f arguments)

/-- Several expressions with other names for their variables. -/
def Expr.renameEach (f : String → String) : List Expr → List Expr
  | [] => []
  | e :: rest => e.rename f :: Expr.renameEach f rest

end

end PixelLowering.Target

namespace PixelLowering.Lower

open PixelLowering.Diagnostic
open PixelLowering.Library
open PixelLowering.Names
open PixelLowering.Source

/-! ### Lowering does not look at emitted names -/

/-- The environment in which every name is emitted differently. -/
def Env.rename (env : Env) (f : String → String) : Env := fun name => (env name).map f

section

variable {α α' β β' : Type}

/-- Two steps on changed data, if the second step follows the change. -/
theorem map_bind_eq_map {result : Except Failure α} {g : α → α'} {g' : β → β'}
    {next : α → Except Failure β} {next' : α' → Except Failure β'}
    (h : ∀ a, next' (g a) = (next a).map g') : (result.map g >>= next') = (result >>= next).map g' := by
  cases result with
  | error reason => rfl
  | ok a => exact h a

end

section

variable (f : String → String) (env : Env)

theorem lowerUnary?_rename (op : Operator) (ty : Ty) (a : Target.Expr) :
    lowerUnary? op ty (a.rename f) = (lowerUnary? op ty a).map (Target.Expr.rename f) := by
  unfold lowerUnary?
  split <;> simp [Target.Expr.rename]

theorem Joint.apply_rename (joint : Joint) (a b : Target.Expr) :
    joint.apply (a.rename f) (b.rename f) = (joint.apply a b).rename f := by
  cases joint <;> simp [apply, Target.Expr.rename, Target.Expr.renameEach]

theorem lowerBinary?_rename (op : Operator) (leftTy rightTy : Ty) (a b : Target.Expr) :
    lowerBinary? op leftTy rightTy (a.rename f) (b.rename f) =
      (lowerBinary? op leftTy rightTy a b).map (Target.Expr.rename f) := by
  cases lowerBinary?_joined op leftTy rightTy with
  | unsupported h => rw [h, h, Option.map_none]
  | inOrder joint _ h => rw [h, h, Option.map_some, joint.apply_rename]
  | changed joint _ _ h => rw [h, h, Option.map_some, joint.apply_rename]

theorem channelOf_rename (channel : Channel) (a : Target.Expr) :
    channelOf channel (a.rename f) = (channelOf channel a).rename f := by
  simp [channelOf, Target.Expr.rename, Target.Expr.renameEach]

theorem readChannel_rename (channel : Channel) (pixel : Except Failure Target.Expr) :
    readChannel channel (pixel.map (Target.Expr.rename f)) =
      (readChannel channel pixel).map (Target.Expr.rename f) := by
  refine map_bind_eq_map fun a => ?_
  rw [channelOf_rename]
  rfl

theorem wholePixel_rename (base : Expr) (value : Except Failure Target.Expr) :
    wholePixel base (value.map (Target.Expr.rename f)) =
      (wholePixel base value).map (Target.Expr.rename f) := by
  rw [wholePixel, wholePixel]
  split <;> rfl

theorem pixelOf_rename (base : Expr) (coordinates : Position)
    (image x y : Except Failure Target.Expr) :
    pixelOf base coordinates (image.map (Target.Expr.rename f)) (x.map (Target.Expr.rename f))
        (y.map (Target.Expr.rename f)) =
      (pixelOf base coordinates image x y).map (Target.Expr.rename f) := by
  rw [pixelOf, pixelOf]
  split
  · refine map_bind_eq_map fun a => map_bind_eq_map fun b => map_bind_eq_map fun c => ?_
    simp [Except.map, pure, Except.pure, Target.Expr.rename, Target.Expr.renameEach]
  · rfl
  · rfl

/-- Lowering in an environment with other names gives the tree with other names. -/
theorem lowerExpr_rename (e : Expr) :
    lowerExpr (env.rename f) e = (lowerExpr env e).map (Target.Expr.rename f) := by
  induction e with
  | num info text | str info text | bool info text =>
    simp [lowerExpr, Except.map, pure, Except.pure, Target.Expr.rename]
  | ident info name =>
    rw [lowerExpr, lowerExpr, resolveName, resolveName, Env.rename]
    cases env name with
    | none => rfl
    | some emitted => simp [Except.map, pure, Except.pure, bind, Except.bind, Target.Expr.rename]
  | const info name =>
    rw [lowerExpr, lowerExpr]
    cases constantLiteral? name with
    | none => rfl
    | some literal => simp [Except.map, pure, Except.pure, Target.Expr.rename]
  | cond info guard yes no ihGuard ihYes ihNo =>
    rw [lowerExpr, lowerExpr, ihGuard, ihYes, ihNo]
    refine map_bind_eq_map fun a => map_bind_eq_map fun b => map_bind_eq_map fun c => ?_
    simp [Except.map, pure, Except.pure, Target.Expr.rename]
  | unary info op operand ih =>
    rw [lowerExpr, lowerExpr, ih]
    refine map_bind_eq_map fun a => ?_
    rw [lowerUnary?_rename]
    cases lowerUnary? op operand.ty a <;> rfl
  | binary info op left right ihLeft ihRight =>
    rw [lowerExpr, lowerExpr, ihLeft, ihRight]
    refine map_bind_eq_map fun a => map_bind_eq_map fun b => ?_
    rw [lowerBinary?_rename]
    cases lowerBinary? op left.ty right.ty a b <;> rfl
  | part info base channel? ih =>
    cases channel? with
    | none =>
      rw [lowerExpr, lowerExpr, ih]
      split <;> rfl
    | some channel =>
      rw [lowerExpr, lowerExpr, ih, wholePixel_rename]
      split
      · refine map_bind_eq_map fun a => ?_
        simp [Except.map, pure, Except.pure, Target.Expr.rename, Target.Expr.renameEach]
      · exact readChannel_rename f channel _
  | pixelAt info base x y coordinates channel? ihBase ihX ihY =>
    cases channel? with
    | none => rw [lowerExpr, lowerExpr, ihBase, ihX, ihY, pixelOf_rename]
    | some channel =>
      rw [lowerExpr, lowerExpr, ihBase, ihX, ihY, pixelOf_rename, readChannel_rename]
  | pixel info red green blue ihRed ihGreen ihBlue =>
    rw [lowerExpr, lowerExpr, ihRed, ihGreen, ihBlue]
    refine map_bind_eq_map fun a => map_bind_eq_map fun b => map_bind_eq_map fun c => ?_
    simp [Except.map, pure, Except.pure, Target.Expr.rename, Target.Expr.renameEach]

end

/-! ### Back to the names in scope -/

/-- The environment in which every name in scope stands for itself. -/
def Env.own (env : Env) : Env := fun name => (env name).map fun _ => name

/-- The target tree of an expression, with variables under the names that the source has for
    them. -/
def sourceTree (table : Table) (e : Expr) : Except Failure Target.Expr :=
  lowerExpr (Env.own table.resolve?) e

/-- The name that is emitted as a given one. -/
def nameOf (table : Table) (emitted : String) : String :=
  ((table.visible.find? (·.emitted == emitted)).map Binding.name).getD emitted

theorem nameOf_resolve? {table : Table} (h : table.Sound) {name emitted : String}
    (hname : table.resolve? name = some emitted) : nameOf table emitted = name := by
  obtain ⟨b, hb, rfl⟩ := Option.map_eq_some_iff.1 hname
  have hmem := List.mem_of_find?_eq_some hb
  obtain ⟨c, hc⟩ : ∃ c, table.visible.find? (·.emitted == b.emitted) = some c :=
    Option.isSome_iff_exists.1 (List.find?_isSome.2 ⟨b, hmem, by simp⟩)
  -- no other binding has this emitted name
  have hcb : c = b := List.inj_on_of_nodup_map h.apart (List.mem_of_find?_eq_some hc) hmem
    (by simpa using List.find?_some hc)
  have hbname : b.name = name := by simpa using List.find?_some hb
  rw [nameOf, hc, hcb, Option.map_some, Option.getD_some, hbname]

theorem own_resolve? {table : Table} (h : table.Sound) :
    Env.own table.resolve? = Env.rename table.resolve? (nameOf table) := by
  funext name
  rw [Env.own, Env.rename]
  cases hname : table.resolve? name with
  | none => rfl
  | some emitted => simp [nameOf_resolve? h hname]

/-- Emitted expressions are uniquely readable. In every state of the names that operations on an
    empty table lead to, with identifiers for the names that it holds, if two expressions spelled
    as they should be are lowered to the same text, then they have the same target tree, and differ
    only in what lowering does not look at. -/
theorem lowered_text_uniquely_readable (ops : List Op)
    (hnames : ∀ b ∈ (({} : Table).run ops).2.visible, Target.isIdentifier b.name)
    (e e' : Expr) (he : e.wellSpelled) (he' : e'.wellSpelled) (text : String)
    (htext : (lowerExpr (({} : Table).run ops).2.resolve? e).map Target.Expr.render = .ok text)
    (htext' : (lowerExpr (({} : Table).run ops).2.resolve? e').map Target.Expr.render = .ok text) :
    (∃ tree, sourceTree (({} : Table).run ops).2 e = .ok tree ∧
      sourceTree (({} : Table).run ops).2 e' = .ok tree) ∧
    Alike e e' := by
  have hsound := Table.sound_empty.run ops
  have henv := legible_run ops hnames
  revert hsound henv htext htext'
  generalize (({} : Table).run ops).2 = table
  intro htext htext' hsound henv
  cases ht : lowerExpr table.resolve? e with
  | error reason =>
    rw [ht] at htext
    cases htext
  | ok t =>
    cases ht' : lowerExpr table.resolve? e' with
    | error reason =>
      rw [ht'] at htext'
      cases htext'
    | ok t' =>
      rw [ht] at htext
      rw [ht'] at htext'
      have hrender : t.render = t'.render := Except.ok.inj (htext.trans htext'.symm)
      obtain rfl : t = t' := Target.render_inj (lowerExpr_readable henv e he t ht)
        (lowerExpr_readable henv e' he' t' ht') hrender
      refine ⟨⟨t.rename (nameOf table), ?_, ?_⟩, ?_⟩
      · rw [sourceTree, own_resolve? hsound, lowerExpr_rename, ht]
        rfl
      · rw [sourceTree, own_resolve? hsound, lowerExpr_rename, ht']
        rfl
      · exact Lowers.alike hsound.resolve?_injective ⟨he, ht⟩ ⟨he', ht'⟩

/-- A variable that hides a parameter of the same name. -/
def hidingNames : List Op := [.parameter "x" .int, .enter, .declare "x" .int]

/-- A string compared with a variable that is not known to be one, from either side. -/
def comparison (stringFirst : Bool) : Expr :=
  let string : Expr := .str ⟨.string, .unknown⟩ "\"a, (b\\\"\""
  let hider : Expr := .ident ⟨.int, .unknown⟩ "x"
  if stringFirst then .binary ⟨.bool, .unknown⟩ .eq string hider
  else .binary ⟨.bool, .unknown⟩ .eq hider string

theorem lowered_text_uniquely_readable_comparison :
    (∃ tree, sourceTree (({} : Table).run hidingNames).2 (comparison true) = .ok tree ∧
      sourceTree (({} : Table).run hidingNames).2 (comparison false) = .ok tree) ∧
    Alike (comparison true) (comparison false) :=
  lowered_text_uniquely_readable hidingNames (by decide) (comparison true) (comparison false)
    (by decide) (by decide) "\"a, (b\\\"\".equals(x_0)" (by rfl) (by rfl)

end PixelLowering.Lower
