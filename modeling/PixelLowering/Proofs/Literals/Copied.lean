import PixelLowering.Proofs.Literals.Rendered
import PixelLowering.Proofs.Reading.Statement

/-! String literals from the source to the text.

    Lowering copies every literal, and it knows how deep the literal will stand: a choice puts its
    blocks one step further right, a loop its guards one step and its blocks three.

        write("a")              0   "a"
        if "b" == s →           0   "b"         do "d" == s →           1   "d"
          write("c") fi         1   "c"           write("e") od         3   "e"

    So a literal on one line is in the text of the method as it was written. A literal that goes on
    in the next line is not, unless lines do not move: it has the indentation of its block within
    it. -/

namespace PixelLowering.Source

/-- The string literals in an expression. -/
def Expr.literals : Expr → List String
  | .str _ text => [text]
  | .num .. | .bool .. | .ident .. | .const .. => []
  | .cond _ guard yes no => guard.literals ++ yes.literals ++ no.literals
  | .unary _ _ operand => operand.literals
  | .binary _ _ left right => left.literals ++ right.literals
  | .part _ base _ => base.literals
  | .pixelAt _ base x y _ _ => base.literals ++ x.literals ++ y.literals
  | .pixel _ red green blue => red.literals ++ green.literals ++ blue.literals

/-- The string literals of an expression that stands so deep. -/
def Expr.literalsAt (depth : Nat) (e : Expr) : List (Nat × String) := e.literals.map (Prod.mk depth)

mutual

/-- The string literals in the values and guards of a statement, each with how deep it stands. -/
def Stmt.literals (depth : Nat) : Stmt → List (Nat × String)
  | .decl _ init? => init?.toList.flatMap (Expr.literalsAt depth)
  | .assign _ value | .write value | .ret value => value.literalsAt depth
  | .branch arms => Stmt.literalsInArms depth (depth + 1) arms
  | .loop arms => Stmt.literalsInArms (depth + 1) (depth + 3) arms
  | .block body => Stmt.literalsIn (depth + 1) body

/-- The string literals in several statements. -/
def Stmt.literalsIn (depth : Nat) : List Stmt → List (Nat × String)
  | [] => []
  | s :: rest => s.literals depth ++ Stmt.literalsIn depth rest

/-- The string literals in guarded blocks. -/
def Stmt.literalsInArms (guardDepth bodyDepth : Nat) : List (Guarded Stmt) → List (Nat × String)
  | [] => []
  | ⟨guard, body⟩ :: rest =>
    guard.literalsAt guardDepth ++ Stmt.literalsIn bodyDepth body ++
      Stmt.literalsInArms guardDepth bodyDepth rest

end

/-- The string literals in the values and guards of a program, each with how deep it stands. -/
def Program.literals (program : Program) : List (Nat × String) := Stmt.literalsIn 1 program.body

theorem Expr.le_of_mem_literalsAt {depth d : Nat} {text : String} {e : Expr}
    (h : (d, text) ∈ e.literalsAt depth) : depth ≤ d := by
  obtain ⟨_, _, heq⟩ := List.mem_map.1 h
  cases heq
  exact Nat.le_refl _

mutual

/-- No literal of a statement stands less deep than the statement. -/
theorem Stmt.le_of_mem_literals {depth d : Nat} {text : String} : ∀ s : Stmt,
    (d, text) ∈ s.literals depth → depth ≤ d
  | .decl target init?, h => by
    rw [Stmt.literals] at h
    obtain ⟨_, _, h⟩ := List.mem_flatMap.1 h
    exact Expr.le_of_mem_literalsAt h
  | .assign target value, h | .write value, h | .ret value, h => by
    rw [Stmt.literals] at h
    exact Expr.le_of_mem_literalsAt h
  | .branch arms, h => by
    rw [Stmt.literals] at h
    exact Stmt.le_of_mem_literalsInArms (Nat.le_succ depth) arms h
  | .loop arms, h => by
    rw [Stmt.literals] at h
    have hdepth : depth + 1 ≤ depth + 3 := by omega
    exact Nat.le_of_succ_le (Stmt.le_of_mem_literalsInArms hdepth arms h)
  | .block body, h => by
    rw [Stmt.literals] at h
    exact Nat.le_of_succ_le (Stmt.le_of_mem_literalsIn body h)

theorem Stmt.le_of_mem_literalsIn {depth d : Nat} {text : String} : ∀ body : List Stmt,
    (d, text) ∈ Stmt.literalsIn depth body → depth ≤ d
  | [], h => by
    rw [Stmt.literalsIn] at h
    cases h
  | s :: rest, h => by
    rw [Stmt.literalsIn, List.mem_append] at h
    rcases h with h | h
    · exact Stmt.le_of_mem_literals s h
    · exact Stmt.le_of_mem_literalsIn rest h

theorem Stmt.le_of_mem_literalsInArms {guardDepth bodyDepth d : Nat} {text : String}
    (hdepth : guardDepth ≤ bodyDepth) : ∀ arms : List (Guarded Stmt),
    (d, text) ∈ Stmt.literalsInArms guardDepth bodyDepth arms → guardDepth ≤ d
  | [], h => by
    rw [Stmt.literalsInArms] at h
    cases h
  | ⟨guard, body⟩ :: rest, h => by
    rw [Stmt.literalsInArms, List.mem_append, List.mem_append] at h
    rcases h with (h | h) | h
    · exact Expr.le_of_mem_literalsAt h
    · exact Nat.le_trans hdepth (Stmt.le_of_mem_literalsIn body h)
    · exact Stmt.le_of_mem_literalsInArms hdepth rest h

end

end PixelLowering.Source

namespace PixelLowering.Lower

open PixelLowering.Diagnostic
open PixelLowering.Library
open PixelLowering.Source

/-! ### Lowered expressions keep the literals -/

/-- What is lowered has all string literals of what it is lowered from. -/
def Keeps (source : Expr) (lowered : Target.Expr) : Prop := source.literals ⊆ lowered.literals

theorem Keeps.literalsAt {source : Expr} {lowered : Target.Expr} (h : Keeps source lowered)
    (depth : Nat) : source.literalsAt depth ⊆ lowered.literalsAt depth :=
  List.map_subset _ h

theorem Keeps.trans {source : Expr} {lowered outer : Target.Expr} (h : Keeps source lowered)
    (h' : lowered.literals ⊆ outer.literals) : Keeps source outer :=
  List.Subset.trans h h'

theorem subset_call {arguments : List Target.Expr} {argument : Target.Expr}
    (hmem : argument ∈ arguments) (routine : Routine) (tag? : Option Tag) :
    argument.literals ⊆ (Target.Expr.call routine tag? arguments).literals := by
  rw [Target.Expr.literals]
  induction arguments with
  | nil => cases hmem
  | cons first rest ih =>
    rw [Target.Expr.literalsEach]
    rcases List.mem_cons.1 hmem with rfl | hmem
    · exact List.subset_append_left _ _
    · exact List.Subset.trans (ih hmem) (List.subset_append_right _ _)

section

variable {env : Env}

theorem literals_lowerUnary? {op : Operator} {ty : Ty} {operand lowered : Target.Expr}
    (h : lowerUnary? op ty operand = some lowered) : operand.literals ⊆ lowered.literals := by
  unfold lowerUnary? at h
  split at h <;> cases h <;> rw [Target.Expr.literals] <;> exact List.Subset.refl _

theorem literals_joint (joint : Joint) (first second : Target.Expr) :
    first.literals ⊆ (joint.apply first second).literals ∧
      second.literals ⊆ (joint.apply first second).literals := by
  cases joint <;> simp [Joint.apply, Target.Expr.literals, Target.Expr.literalsEach]

theorem literals_lowerBinary? {op : Operator} {leftTy rightTy : Ty}
    {left right lowered : Target.Expr}
    (h : lowerBinary? op leftTy rightTy left right = some lowered) :
    left.literals ⊆ lowered.literals ∧ right.literals ⊆ lowered.literals := by
  cases lowerBinary?_joined op leftTy rightTy with
  | unsupported hjoint => cases (hjoint left right).symm.trans h
  | inOrder joint _ hjoint =>
    rw [← Option.some.inj ((hjoint left right).symm.trans h)]
    exact literals_joint joint left right
  | changed joint _ _ hjoint =>
    rw [← Option.some.inj ((hjoint left right).symm.trans h)]
    exact (literals_joint joint right left).symm

/-- One channel of a pixel keeps what the pixel keeps. -/
theorem readChannel_keeps {source : Expr} {pixel : Except Failure Target.Expr}
    (h : Gives (Keeps source) pixel) (channel : Channel) :
    Gives (Keeps source) (readChannel channel pixel) :=
  h.bind fun _ hvalue => .pure (hvalue.trans (subset_call (List.mem_singleton_self _) _ _))

theorem pixelOf_gives {base : Expr} {coordinates : Position} {base' x y : Expr}
    {image left right : Except Failure Target.Expr} (h : Gives (Keeps base') image)
    (hx : Gives (Keeps x) left) (hy : Gives (Keeps y) right) :
    Gives (fun lowered => base'.literals ++ x.literals ++ y.literals ⊆ lowered.literals)
      (pixelOf base coordinates image left right) := by
  rw [pixelOf]
  split
  · refine h.bind fun image himage => hx.bind fun left hleft => hy.bind fun right hright => .pure ?_
    refine List.append_subset.2 ⟨List.append_subset.2 ⟨?_, ?_⟩, ?_⟩
    · exact himage.trans (subset_call (by simp) _ _)
    · exact hleft.trans (subset_call (by simp) _ _)
    · exact hright.trans (subset_call (by simp) _ _)
  · exact .error _
  · exact .error _

/-- Lowering an expression keeps its string literals. -/
theorem lowerExpr_keeps (env : Env) (e : Expr) : Gives (Keeps e) (lowerExpr env e) := by
  induction e with
  | num info text => exact .pure (List.nil_subset _)
  | str info text =>
    refine .pure ?_
    rw [Keeps, Expr.literals, Target.Expr.literals]
    exact List.Subset.refl _
  | bool info text => exact .pure (List.nil_subset _)
  | ident info name =>
    rw [lowerExpr]
    exact (Lexical.gives_any _).bind fun emitted _ => .pure (List.nil_subset _)
  | const info name =>
    rw [lowerExpr]
    split
    · exact .pure (List.nil_subset _)
    · exact .error _
  | cond info guard yes no ihGuard ihYes ihNo =>
    rw [lowerExpr]
    refine ihGuard.bind fun test htest => ihYes.bind fun yes hyes =>
      ihNo.bind fun no hno => .pure ?_
    rw [Keeps, Expr.literals, Target.Expr.literals]
    intro text htext
    rw [List.mem_append, List.mem_append] at htext ⊢
    rcases htext with (htext | htext) | htext
    · exact .inl (.inl (htest htext))
    · exact .inl (.inr (hyes htext))
    · exact .inr (hno htext)
  | unary info op operand ih =>
    rw [lowerExpr]
    refine ih.bind fun value hvalue => ?_
    split
    · next lowered hlowered => exact .pure (hvalue.trans (literals_lowerUnary? hlowered))
    · exact .error _
  | binary info op left right ihLeft ihRight =>
    rw [lowerExpr]
    refine ihLeft.bind fun first hfirst => ihRight.bind fun second hsecond => ?_
    split
    · next lowered hlowered =>
      obtain ⟨hleft, hright⟩ := literals_lowerBinary? hlowered
      refine .pure ?_
      rw [Keeps, Expr.literals]
      exact List.append_subset.2 ⟨hfirst.trans hleft, hsecond.trans hright⟩
    · exact .error _
  | part info base channel? ih =>
    cases channel? with
    | none =>
      rw [lowerExpr]
      split
      · exact ih
      · exact .error _
    | some channel =>
      rw [lowerExpr]
      split
      · exact ih.bind fun value hvalue =>
          .pure (hvalue.trans (subset_call (List.mem_singleton_self _) _ _))
      · exact readChannel_keeps (wholePixel_gives ih) channel
  | pixelAt info base x y coordinates channel? ihBase ihX ihY =>
    have hpixel : Gives (Keeps (.pixelAt info base x y coordinates channel?))
        (pixelOf base coordinates (lowerExpr env base) (lowerExpr env x) (lowerExpr env y)) :=
      pixelOf_gives ihBase ihX ihY
    cases channel? with
    | none =>
      rw [lowerExpr]
      exact hpixel
    | some channel =>
      rw [lowerExpr]
      exact readChannel_keeps hpixel channel
  | pixel info red green blue ihRed ihGreen ihBlue =>
    rw [lowerExpr]
    refine ihRed.bind fun red hred => ihGreen.bind fun green hgreen =>
      ihBlue.bind fun blue hblue => .pure ?_
    rw [Keeps, Expr.literals]
    refine List.append_subset.2 ⟨List.append_subset.2 ⟨?_, ?_⟩, ?_⟩
    · exact hred.trans (subset_call (by simp) _ _)
    · exact hgreen.trans (subset_call (by simp) _ _)
    · exact hblue.trans (subset_call (by simp) _ _)

/-! ### So do lowered statements -/

/-- The value that a variable starts with keeps the string literals of its initializer. -/
theorem lowerInitial_keeps (env : Env) (target : NameDef) (init? : Option Expr) :
    Gives (fun value? => ∀ init ∈ init?, ∃ value ∈ value?, Keeps init value)
      (lowerInitial env target init?) := by
  have hexpr := lowerExpr_keeps env
  unfold lowerInitial
  split
  · next init size _ _ =>
    refine (hexpr init).bind fun value hvalue => (hexpr _).bind fun width _ =>
      (hexpr _).bind fun height _ => .pure ?_
    rintro _ ⟨⟩
    exact ⟨_, rfl, hvalue.trans (subset_call (by simp) _ _)⟩
  · next init _ _ =>
    refine (hexpr init).bind fun value hvalue => .pure ?_
    rintro _ ⟨⟩
    refine ⟨_, rfl, ?_⟩
    split
    · exact hvalue.trans (subset_call (by simp) _ _)
    · exact hvalue
  · next size _ _ =>
    refine (hexpr _).bind fun width _ => (hexpr _).bind fun height _ => .pure ?_
    rintro _ ⟨⟩
  · next init _ _ =>
    refine (hexpr init).bind fun value hvalue => .pure ?_
    rintro _ ⟨⟩
    exact ⟨value, rfl, hvalue⟩
  · exact .pure (by rintro init ⟨⟩)

theorem lowerAssign_keeps (env : Env) (target : LValue) (value : Expr) :
    Gives (fun code => ∀ depth, value.literalsAt depth ⊆ code.literals depth)
      (lowerAssign env target value) := by
  rw [lowerAssign]
  refine (Lexical.gives_any _).bind fun name _ =>
    (lowerExpr_keeps env value).bind fun lowered hlowered => ?_
  have hassign {e : Target.Expr} (he : Keeps value e) (depth : Nat) :
      value.literalsAt depth ⊆ (Target.Stmt.assign name e).literals depth := by
    rw [Target.Stmt.literals]
    exact he.literalsAt depth
  split
  · exact .pure (hassign (hlowered.trans (subset_call (by simp) _ _)))
  · next selector channel? _ _ =>
    refine (Lexical.gives_any _).bind fun pair _ => .pure fun depth => ?_
    rw [Target.Stmt.literals]
    refine Keeps.literalsAt (Keeps.trans ?_ (subset_call (List.mem_of_getLast? rfl) _ _)) depth
    -- the pixel that is set is the value, or one with the value for a channel
    cases target.channel? with
    | none => exact hlowered
    | some channel => exact hlowered.trans (subset_call (by simp) _ _)
  · refine .pure (hassign ?_)
    split
    · exact hlowered.trans (subset_call (by simp) _ _)
    · exact hlowered
  · exact .pure (hassign hlowered)
  · exact .error _
  · exact .error _

theorem lowerWrite_keeps (env : Env) (value : Expr) :
    Gives (fun code => ∀ depth, value.literalsAt depth ⊆ code.literals depth)
      (lowerWrite env value) := by
  refine (lowerExpr_keeps env value).bind fun lowered hlowered => .pure fun depth => ?_
  rw [Target.Stmt.literals]
  exact Keeps.literalsAt (hlowered.trans (subset_call (by simp) _ _)) depth

theorem lowerReturned_keeps (env : Env) (value : Expr) :
    Gives (Keeps value) (lowerReturned env value) := by
  have hvalue := lowerExpr_keeps env value
  cases value with
  | part info base channel? =>
    cases channel? with
    | none => exact hvalue
    | some channel =>
      rw [lowerReturned]
      split
      · exact readChannel_keeps (wholePixel_gives (lowerExpr_keeps env base)) channel
      · exact hvalue
  | pixelAt info base x y coordinates channel? =>
    rw [lowerReturned_pixelAt]
    exact hvalue
  | _ => exact hvalue

end

/-! ### Arms -/

/-- The literals of an arm, when its test and its block stand so deep. -/
def Arm.literals (testDepth bodyDepth : Nat) (arm : Arm) : List (Nat × String) :=
  arm.test.literalsAt testDepth ++ Target.Stmt.literalsIn bodyDepth arm.body

theorem literals_chain (depth : Nat) (last? : Option Target.Stmt) (arms : List Arm) :
    arms.flatMap (Arm.literals depth (depth + 1)) ⊆
      Target.Stmt.literalsIn depth (chain last? arms).toList := by
  induction arms with
  | nil => exact List.nil_subset _
  | cons arm rest ih =>
    rw [List.flatMap_cons, Arm.literals, chain]
    cases hrest : chain last? rest with
    | none =>
      rw [hrest] at ih
      rw [List.eq_nil_of_subset_nil ih]
      simp [Target.Stmt.literalsIn, Target.Stmt.literals]
    | some other =>
      rw [hrest] at ih
      simp only [Option.toList_some, Target.Stmt.literalsIn, Target.Stmt.literals, List.append_nil]
        at ih ⊢
      exact List.append_subset.2
        ⟨List.subset_append_left _ _, List.Subset.trans ih (List.subset_append_right _ _)⟩

/-- The block of an arm stands one step further right in a loop. -/
theorem literals_loopArm (testDepth bodyDepth : Nat) (flag : String) (arm : Arm) :
    (loopArm flag arm).literals testDepth bodyDepth = arm.literals testDepth (bodyDepth + 1) := by
  simp [loopArm, Arm.literals, Target.Stmt.literalsIn, Target.Stmt.literals,
    Target.Expr.literalsAt, Target.Expr.literals]

theorem literals_loopStmts (depth : Nat) (flag : String) (arms : List Arm) :
    arms.flatMap (Arm.literals (depth + 1) (depth + 3)) ⊆
      Target.Stmt.literalsIn depth (loopStmts flag arms) := by
  have hround := literals_chain (depth + 1) none (arms.map (loopArm flag))
  simp only [List.flatMap_map, literals_loopArm] at hround
  refine List.Subset.trans hround ?_
  intro found hfound
  simp [loopStmts, Target.Stmt.literalsIn, Target.Stmt.literals, hfound]

end PixelLowering.Lower

namespace PixelLowering.Lower.Lexical

open PixelLowering.Names
open PixelLowering.Source

mutual

/-- The code of a statement has the string literals of the statement, each at its depth. -/
theorem lowerStmt_keeps (env : Env) : ∀ s : Stmt,
    Yields (fun result => ∀ depth, s.literals depth ⊆ Target.Stmt.literalsIn depth result.1)
      (lowerStmt tableSupply env s)
  | .decl target init? => by
    rw [lowerStmt]
    refine (Yields.ofExcept (gives_any _)).bind fun ty _ => ?_
    refine (Yields.ofExcept (lowerInitial_keeps env target init?)).bind fun value? hvalue => ?_
    refine Yields.bind (fun _ _ _ _ => trivial) fun emitted (_ : True) => .pure fun depth => ?_
    rw [Target.Stmt.literalsIn_singleton, Target.Stmt.literals, Stmt.literals]
    intro found hfound
    obtain ⟨init, hinit, hfound⟩ := List.mem_flatMap.1 hfound
    obtain ⟨value, hmem, hkeeps⟩ := hvalue init (Option.mem_toList.1 hinit)
    exact List.mem_flatMap.2 ⟨value, Option.mem_toList.2 hmem, hkeeps.literalsAt depth hfound⟩
  | .assign target value => by
    rw [lowerStmt]
    refine (Yields.ofExcept (lowerAssign_keeps env target value)).bind fun code hcode =>
      .pure fun depth => ?_
    rw [Target.Stmt.literalsIn_singleton, Stmt.literals]
    exact hcode depth
  | .write value => by
    rw [lowerStmt]
    refine (Yields.ofExcept (lowerWrite_keeps env value)).bind fun code hcode =>
      .pure fun depth => ?_
    rw [Target.Stmt.literalsIn_singleton, Stmt.literals]
    exact hcode depth
  | .ret value => by
    rw [lowerStmt]
    refine (Yields.ofExcept (lowerReturned_keeps env value)).bind fun code hcode =>
      .pure fun depth => ?_
    rw [Target.Stmt.literalsIn_singleton, Stmt.literals, Target.Stmt.literals]
    exact hcode.literalsAt depth
  | .branch arms => by
    rw [lowerStmt]
    refine (lowerArms_keeps env arms).bind fun lowered hlowered => .pure fun depth => ?_
    rw [Stmt.literals]
    exact List.Subset.trans (hlowered depth (depth + 1)) (literals_chain depth _ lowered)
  | .loop arms => by
    rw [lowerStmt]
    split
    -- a loop without arms has no code, and nothing is lost
    · next hempty =>
      refine .pure fun depth => ?_
      rw [List.isEmpty_iff.1 hempty, Stmt.literals, Stmt.literalsInArms]
      exact List.nil_subset _
    · refine Yields.bind (fun _ _ _ _ => trivial) fun flag (_ : True) => ?_
      refine (lowerArms_keeps env arms).bind fun lowered hlowered => .pure fun depth => ?_
      rw [Stmt.literals]
      exact List.Subset.trans (hlowered (depth + 1) (depth + 3))
        (literals_loopStmts depth flag lowered)
  | .block body => by
    rw [lowerStmt]
    refine (lowerStmts_keeps env body).bind fun code hcode => .pure fun depth => ?_
    rw [Target.Stmt.literalsIn_singleton, Stmt.literals, Target.Stmt.literals]
    exact hcode (depth + 1)

theorem lowerStmts_keeps (env : Env) : ∀ body : List Stmt,
    Yields (fun code => ∀ depth, Stmt.literalsIn depth body ⊆ Target.Stmt.literalsIn depth code)
      (lowerStmts tableSupply env body)
  | [] => by
    rw [lowerStmts]
    refine .pure fun depth => ?_
    rw [Stmt.literalsIn]
    exact List.nil_subset _
  | s :: rest => by
    rw [lowerStmts]
    refine (lowerStmt_keeps env s).bind fun result hresult => ?_
    refine (lowerStmts_keeps result.2 rest).bind fun others hothers => .pure fun depth => ?_
    rw [Stmt.literalsIn, Target.Stmt.literalsIn_append, List.append_subset]
    exact ⟨List.Subset.trans (hresult depth) (List.subset_append_left _ _),
      List.Subset.trans (hothers depth) (List.subset_append_right _ _)⟩

theorem lowerArms_keeps (env : Env) : ∀ arms : List (Guarded Stmt),
    Yields (fun lowered => ∀ guardDepth bodyDepth,
      Stmt.literalsInArms guardDepth bodyDepth arms ⊆
        lowered.flatMap (Arm.literals guardDepth bodyDepth)) (lowerArms tableSupply env arms)
  | [] => by
    rw [lowerArms]
    refine .pure fun guardDepth bodyDepth => ?_
    rw [Stmt.literalsInArms]
    exact List.nil_subset _
  | ⟨guard, body⟩ :: rest => by
    rw [lowerArms]
    refine (Yields.ofExcept (lowerExpr_keeps env guard)).bind fun test htest => ?_
    refine (lowerStmts_keeps env body).bind fun code hcode => ?_
    refine (lowerArms_keeps env rest).bind fun others hothers =>
      .pure fun guardDepth bodyDepth => ?_
    rw [Stmt.literalsInArms, List.flatMap_cons, Arm.literals]
    intro found hfound
    rw [List.mem_append, List.mem_append] at hfound ⊢
    rcases hfound with (hfound | hfound) | hfound
    · exact .inl (.inl (htest.literalsAt guardDepth hfound))
    · exact .inl (.inr (hcode bodyDepth hfound))
    · exact .inr (hothers guardDepth bodyDepth hfound)

end

/-- The body of the method has the string literals of the program. -/
theorem lowerProgram_keeps (program : Program) :
    Yields (fun method => program.literals ⊆ Target.Stmt.literalsIn 1 method.body)
      (lowerProgram tableSupply program) := by
  rw [lowerProgram]
  cases hname : Target.isMethodName program.name with
  | false =>
    rintro given _ after ⟨⟩
  | true =>
    refine Yields.bind (fun _ _ _ _ => trivial) fun result (_ : True) => ?_
    exact (lowerStmts_keeps result.2 program.body).bind fun body hbody => .pure (hbody 1)

end PixelLowering.Lower.Lexical

namespace PixelLowering.Lower

open PixelLowering.Names
open PixelLowering.Source
open PixelLowering.Text

theorem moved_infix_compile {width : Nat} {program : Program} {text : String}
    (h : (compile width program).1 = .ok text) {depth : Nat} {literal : String}
    (hliteral : (depth, literal) ∈ program.literals) :
    moved (width * depth) literal.toList <:+: text.toList := by
  have hempty : Table.SameSupply {} {} := ⟨rfl, rfl⟩
  rw [Lexical.compile_eq Lexical.tableSupply_follows hempty width program fun _ _ => trivial,
    Lexical.compile] at h
  cases hrun : (Lexical.lowerProgram Lexical.tableSupply program).run {} with
  | error reason =>
    rw [hrun] at h
    cases h
  | ok result =>
    rw [hrun] at h
    cases h
    have hkeeps := Lexical.lowerProgram_keeps program {} result.1 result.2 hrun
    exact Target.moved_infix_render width result.1 (hkeeps hliteral)

/-- String literals go with their lines. Take any program that has a text, at any width, and any of
    its string literals, in the value of a write, a return or an assignment, in an initializer or in
    a guard. What the text has of it is the literal with the indentation of its lines after its line
    breaks. This is the literal itself if and only if steps have no width or the literal has no line
    to move: none after the first one but blank ones that end within it. In that case there is a
    copy of the literal in the text, character for character. -/
theorem literals_move_with_lines (width : Nat) (program : Program) (text : String)
    (h : (compile width program).1 = .ok text) (depth : Nat) (literal : String)
    (hliteral : (depth, literal) ∈ program.literals) :
    moved (width * depth) literal.toList <:+: text.toList ∧
    (moved (width * depth) literal.toList = literal.toList ↔
      width = 0 ∨ OneLined literal.toList) ∧
    (width = 0 ∨ OneLined literal.toList → literal.toList <:+: text.toList) := by
  have hmoved := moved_infix_compile h hliteral
  have hdepth : 1 ≤ depth := Stmt.le_of_mem_literalsIn program.body hliteral
  have hsame : moved (width * depth) literal.toList = literal.toList ↔
      width = 0 ∨ OneLined literal.toList := by
    rw [moved_eq_self_iff, Nat.mul_eq_zero]
    have hpositive : depth ≠ 0 := by omega
    rw [or_iff_left hpositive]
  refine ⟨hmoved, hsame, fun hstays => ?_⟩
  rw [← hsame.2 hstays]
  exact hmoved

/-- A string that goes on in the next line. -/
def twoLines : Program :=
  ⟨"f", .void, [], [.write (.str ⟨.string, .unknown⟩ "\"a\nb\"")], .unknown⟩

theorem literals_move_with_lines_twoLines :
    ∃ text, (compile 4 twoLines).1 = .ok text ∧ (1, "\"a\nb\"") ∈ twoLines.literals ∧
      "\"a\n    b\"".toList <:+: text.toList := by
  have hok : (compile 4 twoLines).1.isOk = true := by decide +kernel
  have hliteral : (1, "\"a\nb\"") ∈ twoLines.literals := by decide +kernel
  cases htext : (compile 4 twoLines).1 with
  | error reason =>
    rw [htext] at hok
    cases hok
  | ok text =>
    exact ⟨text, rfl, hliteral, (literals_move_with_lines 4 twoLines text htext 1 _ hliteral).1⟩

/-- So it is not copied as it stands: nowhere in the text are its characters next to each other. -/
theorem twoLines_not_copied :
    (1, "\"a\nb\"") ∈ twoLines.literals ∧
      ∃ text, (compile 4 twoLines).1 = .ok text ∧ ¬ "\"a\nb\"".toList <:+: text.toList := by
  refine ⟨by decide +kernel, ?_⟩
  have htext : (compile 4 twoLines).1.toOption =
      some "void f() \x7b\n    ConsoleIO.write(\"a\n    b\");\n\x7d\n" := by decide +kernel
  cases hresult : (compile 4 twoLines).1 with
  | error reason =>
    rw [hresult] at htext
    cases htext
  | ok text =>
    rw [hresult] at htext
    cases htext
    exact ⟨_, rfl, by decide +kernel⟩

end PixelLowering.Lower
