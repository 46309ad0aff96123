import PixelLowering.Lower.Expression
import PixelLowering.Proofs.Names.Uniqueness
import PixelLowering.Proofs.Reading.Expression
import PixelLowering.Proofs.Reading.Joint

/-! What is lowered can be read, if what it is lowered from is spelled as it should be: numbers in
    decimal digits, strings in quotes on one line, declared names that are identifiers.

    Literals are copied, so nothing can happen to them. A name is emitted as it is or with a number
    behind it, so it stays an identifier, and it is never one of the forbidden words. -/

namespace PixelLowering.Source

/-- Decimal digits, at least one. -/
def isDecimal (text : String) : Bool := !text.toList.isEmpty && text.toList.all Char.isDigit

/-- Whether the literals of an expression are spelled as they should be. -/
def Expr.wellSpelled : Expr → Bool
  | .num _ text => isDecimal text
  | .str _ text => Text.isStringLiteral text.toList
  | .bool .. | .ident .. | .const .. => true
  | .cond _ guard yes no => guard.wellSpelled && yes.wellSpelled && no.wellSpelled
  | .unary _ _ operand => operand.wellSpelled
  | .binary _ _ left right => left.wellSpelled && right.wellSpelled
  | .part _ base _ => base.wellSpelled
  | .pixelAt _ base x y _ _ => base.wellSpelled && x.wellSpelled && y.wellSpelled
  | .pixel _ red green blue => red.wellSpelled && green.wellSpelled && blue.wellSpelled

end PixelLowering.Source

namespace PixelLowering.Names

open PixelLowering.Source
open PixelLowering.Target

/-! ### Emitted names are identifiers -/

/-- What an identifier becomes when more characters follow. -/
theorem isIdentifier_append {name suffix : String} (h : isIdentifier name)
    (hsuffix : suffix.toList.all isIdentifierPart) : isIdentifier (name ++ suffix) := by
  unfold isIdentifier at h ⊢
  rw [String.toList_append]
  split at h
  · cases h
  · next c rest hname =>
    rw [Bool.and_eq_true] at h
    simp only [hname, List.cons_append, Bool.and_eq_true, List.all_append]
    exact ⟨h.1, h.2, hsuffix⟩

theorem isIdentifier_numbered {stem : String} (h : isIdentifier stem) (n : Nat) :
    isIdentifier (numbered stem n) := by
  refine isIdentifier_append h ?_
  rw [List.all_eq_true]
  intro c hc
  have hdigits : (toString n).toList = Nat.toDigits 10 n := Nat.toList_repr
  rw [hdigits] at hc
  simp [isIdentifierPart, Nat.isDigit_of_mem_toDigits (by decide) (by decide) hc]

/-- A declaration is emitted under its own name, or with an underscore and a number behind it. -/
theorem Table.isIdentifier_emitDeclared (table : Table) {name : String} (h : isIdentifier name) :
    isIdentifier (table.emitDeclared name).1 := by
  rw [emitDeclared]
  split
  · exact isIdentifier_numbered (isIdentifier_append h (by decide)) _
  · exact h

/-- So every binding of an identifier is emitted as an identifier. -/
def Table.Spelled (table : Table) : Prop :=
  ∀ b ∈ table.visible, isIdentifier b.name → isIdentifier b.emitted

theorem Table.Spelled.step {table : Table} (h : table.Spelled) (op : Op) :
    (table.step op).2.Spelled := by
  cases op with
  | enter => exact h
  | leave =>
    intro b hb
    refine h b ?_
    simp only [Table.step, leave?_getD, visible, List.mem_append] at hb ⊢
    refine hb.imp_left ?_
    cases table.scopes with
    | nil => exact id
    | cons inner outer => exact fun hmem => List.mem_append_right _ hmem
  | parameter name ty =>
    have he := table.emitDeclared_emits name
    intro b hb
    simp only [Table.step, declareParameter, Prod.map, id, visible, List.mem_append,
      List.mem_cons] at hb
    rcases hb with hb | rfl | hb
    · exact h b (he.visible ▸ List.mem_append_left _ hb)
    · exact table.isIdentifier_emitDeclared
    · exact h b (he.visible ▸ List.mem_append_right _ hb)
  | declare name ty =>
    have he := table.emitDeclared_emits name
    intro b hb
    simp only [Table.step, Table.declare, Prod.map, id, visible_push, List.mem_cons] at hb
    rcases hb with rfl | hb
    · exact table.isIdentifier_emitDeclared
    · exact h b (he.visible ▸ hb)
  | temporary base =>
    intro b hb
    exact h b ((table.temporary_emits base).visible ▸ hb)

theorem Table.Spelled.run {table : Table} (h : table.Spelled) (ops : List Op) :
    (table.run ops).2.Spelled := by
  induction ops generalizing table with
  | nil => exact h
  | cons op rest ih => exact ih (h.step op)

end PixelLowering.Names

namespace PixelLowering.Lower

open PixelLowering.Diagnostic
open PixelLowering.Library
open PixelLowering.Names
open PixelLowering.Source

/-- Every name in scope is emitted as an identifier that is not forbidden. -/
def Env.Legible (env : Env) : Prop :=
  ∀ name emitted, env name = some emitted → Target.isIdentifier emitted ∧ emitted ∉ forbidden

/-- Whatever was done to a table, what its identifiers resolve to can be read. -/
theorem legible_run (ops : List Op)
    (h : ∀ b ∈ (({} : Table).run ops).2.visible, Target.isIdentifier b.name) :
    Env.Legible (({} : Table).run ops).2.resolve? := by
  have hsound := Table.sound_empty.run ops
  have hspelled : (({} : Table).run ops).2.Spelled :=
    Table.Spelled.run (fun b hb => by simp [Table.visible] at hb) ops
  intro name emitted hresolve
  obtain ⟨b, hlookup, rfl⟩ := Option.map_eq_some_iff.1 hresolve
  have hb := List.mem_of_find?_eq_some hlookup
  exact ⟨hspelled b hb (h b hb), hsound.allowed _ (hsound.inUse b hb)⟩

/-! ### Lowered expressions can be read -/

/-- If a computation has a result, the result satisfies `post`. -/
def Gives {α : Type} (post : α → Prop) (result : Except Failure α) : Prop :=
  ∀ a, result = .ok a → post a

namespace Gives

variable {α β : Type} {post : α → Prop} {result : Except Failure α}

theorem pure {a : α} (h : post a) : Gives post (pure a) := by
  rintro _ ⟨⟩
  exact h

theorem error (reason : Failure) : Gives post (.error reason) := by rintro a ⟨⟩

theorem bind {post' : β → Prop} {next : α → Except Failure β} (h : Gives post result)
    (hnext : ∀ a, post a → Gives post' (next a)) : Gives post' (result >>= next) := by
  cases result with
  | error reason => exact error reason
  | ok a => exact hnext a (h a rfl)

end Gives

theorem isNumeral_of_isDecimal {text : String} (h : isDecimal text) :
    Target.isNumeral text.toList := by
  unfold isDecimal at h
  rw [Bool.and_eq_true, List.all_eq_true] at h
  cases htext : text.toList with
  | nil => simp [htext] at h
  | cons c rest =>
    rw [htext] at h
    simp only [Target.isNumeral, Bool.and_eq_true, List.all_eq_true]
    refine ⟨h.2 c (by simp), ?_⟩
    intro d hd
    simp [Target.isIdentifierPart, h.2 d (by simp [hd])]

/-- Named constants stand for numbers. -/
theorem isNumeral_of_constantLiteral? {name literal : String}
    (h : constantLiteral? name = some literal) : Target.isNumeral literal.toList := by
  have hcolours : ∀ colour ∈ colours, Target.isNumeral (colourLiteral colour.2).toList := by
    decide +kernel
  rw [constantLiteral?] at h
  split at h
  · rw [← Option.some.inj h]
    decide +kernel
  · obtain ⟨value, hvalue, rfl⟩ := Option.map_eq_some_iff.1 h
    obtain ⟨before, after, hsplit, -⟩ := List.lookup_eq_some_iff.1 hvalue
    exact hcolours (name, value) (by simp [hsplit])

section

variable {env : Env}

theorem lowerUnary?_readable {op : Operator} {ty : Ty} {operand lowered : Target.Expr}
    (h : operand.Readable) (hlowered : lowerUnary? op ty operand = some lowered) :
    lowered.Readable := by
  unfold lowerUnary? at hlowered
  split at hlowered <;> cases hlowered <;> simpa [Target.Expr.Readable] using h

theorem Joint.apply_readable (joint : Joint) {first second : Target.Expr} (h : first.Readable)
    (h' : second.Readable) : (joint.apply first second).Readable := by
  cases joint <;> simp [apply, Target.Expr.Readable, Target.Expr.ReadableEach, h, h']

theorem lowerBinary?_readable {op : Operator} {leftTy rightTy : Ty}
    {left right lowered : Target.Expr} (h : left.Readable) (h' : right.Readable)
    (hlowered : lowerBinary? op leftTy rightTy left right = some lowered) : lowered.Readable := by
  cases lowerBinary?_joined op leftTy rightTy with
  | unsupported hjoint => cases (hjoint left right).symm.trans hlowered
  | inOrder joint _ hjoint =>
    rw [← Option.some.inj ((hjoint left right).symm.trans hlowered)]
    exact joint.apply_readable h h'
  | changed joint _ _ hjoint =>
    rw [← Option.some.inj ((hjoint left right).symm.trans hlowered)]
    exact joint.apply_readable h' h

theorem wholePixel_gives {base : Expr} {value : Except Failure Target.Expr}
    {post : Target.Expr → Prop} (h : Gives post value) : Gives post (wholePixel base value) := by
  rw [wholePixel]
  split
  · exact h
  · exact .error _
  · exact .error _

theorem pixelOf_readable {base : Expr} {coordinates : Position}
    {image x y : Except Failure Target.Expr} (h : Gives Target.Expr.Readable image)
    (hx : Gives Target.Expr.Readable x) (hy : Gives Target.Expr.Readable y) :
    Gives Target.Expr.Readable (pixelOf base coordinates image x y) := by
  rw [pixelOf]
  split
  · refine h.bind fun image himage => hx.bind fun x hx => hy.bind fun y hy => .pure ?_
    simp [Target.Expr.Readable, Target.Expr.ReadableEach, himage, hx, hy]
  · exact .error _
  · exact .error _

theorem readChannel_readable (channel : Channel) {pixel : Except Failure Target.Expr}
    (h : Gives Target.Expr.Readable pixel) :
    Gives Target.Expr.Readable (readChannel channel pixel) := by
  refine h.bind fun value hvalue => .pure ?_
  simp [channelOf, Target.Expr.Readable, Target.Expr.ReadableEach, hvalue]

/-- An expression that is spelled as it should be is lowered to one that can be read. -/
theorem lowerExpr_readable (henv : env.Legible) (e : Expr) (h : e.wellSpelled) :
    Gives Target.Expr.Readable (lowerExpr env e) := by
  induction e with
  | num info text =>
    refine .pure ?_
    rw [Target.Expr.Readable]
    exact .inl (isNumeral_of_isDecimal h)
  | str info text =>
    refine .pure ?_
    rw [Target.Expr.Readable]
    exact .inr h
  | bool info text => exact .pure (by simp [Target.Expr.Readable])
  | ident info name =>
    rw [lowerExpr, resolveName]
    cases hname : env name with
    | none => exact .error _
    | some emitted =>
      refine .pure ?_
      rw [Target.Expr.Readable]
      exact henv name emitted hname
  | const info name =>
    rw [lowerExpr]
    cases hliteral : constantLiteral? name with
    | none => exact .error _
    | some literal =>
      refine .pure ?_
      rw [Target.Expr.Readable]
      exact .inl (isNumeral_of_constantLiteral? hliteral)
  | cond info guard yes no ihGuard ihYes ihNo =>
    simp only [Expr.wellSpelled, Bool.and_eq_true] at h
    rw [lowerExpr]
    refine (ihGuard h.1.1).bind fun test htest => (ihYes h.1.2).bind fun yes hyes =>
      (ihNo h.2).bind fun no hno => .pure ?_
    rw [Target.Expr.Readable]
    exact ⟨htest, hyes, hno⟩
  | unary info op operand ih =>
    rw [lowerExpr]
    refine (ih h).bind fun value hvalue => ?_
    cases hlowered : lowerUnary? op operand.ty value with
    | none => exact .error _
    | some lowered => exact .pure (lowerUnary?_readable hvalue hlowered)
  | binary info op left right ihLeft ihRight =>
    simp only [Expr.wellSpelled, Bool.and_eq_true] at h
    rw [lowerExpr]
    refine (ihLeft h.1).bind fun first hfirst => (ihRight h.2).bind fun second hsecond => ?_
    cases hlowered : lowerBinary? op left.ty right.ty first second with
    | none => exact .error _
    | some lowered => exact .pure (lowerBinary?_readable hfirst hsecond hlowered)
  | part info base channel? ih =>
    have hbase := ih h
    cases channel? with
    | none =>
      rw [lowerExpr]
      split
      · exact hbase
      · exact .error _
    | some channel =>
      rw [lowerExpr]
      split
      · refine hbase.bind fun value hvalue => .pure ?_
        simp [Target.Expr.Readable, Target.Expr.ReadableEach, hvalue]
      · exact readChannel_readable channel (wholePixel_gives hbase)
  | pixelAt info base x y coordinates channel? ihBase ihX ihY =>
    simp only [Expr.wellSpelled, Bool.and_eq_true] at h
    have hpixel : Gives Target.Expr.Readable (pixelOf base coordinates (lowerExpr env base)
        (lowerExpr env x) (lowerExpr env y)) :=
      pixelOf_readable (ihBase h.1.1) (ihX h.1.2) (ihY h.2)
    cases channel? with
    | none => exact hpixel
    | some channel => exact readChannel_readable channel hpixel
  | pixel info red green blue ihRed ihGreen ihBlue =>
    simp only [Expr.wellSpelled, Bool.and_eq_true] at h
    rw [lowerExpr]
    refine (ihRed h.1.1).bind fun red hred => (ihGreen h.1.2).bind fun green hgreen =>
      (ihBlue h.2).bind fun blue hblue => .pure ?_
    simp [Target.Expr.Readable, Target.Expr.ReadableEach, hred, hgreen, hblue]

end

end PixelLowering.Lower
