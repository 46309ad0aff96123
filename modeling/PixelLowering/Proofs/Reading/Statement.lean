import PixelLowering.Proofs.Lexical.Scoping
import PixelLowering.Proofs.Reading.Lowered

/-! A program that is spelled as it should be is lowered to a method that can be read.

    Statements add no words of their own to those of their expressions, except for variables and
    the flags of loops, which are identifiers like all emitted names. The environment is what has
    to be followed: it stays legible, because a declaration binds a name that is given just then. -/

namespace PixelLowering.Source

/-! ### Spelling of a program -/

/-- Whether the literals of a dimension are spelled as they should be. -/
def Dimension.wellSpelled (size : Dimension) : Bool :=
  size.width.wellSpelled && size.height.wellSpelled

/-- Whether the literals of coordinates are spelled as they should be. -/
def Selector.wellSpelled (selector : Selector) : Bool :=
  selector.x.wellSpelled && selector.y.wellSpelled

mutual

/-- Whether the literals of a statement are spelled as they should be. -/
def Stmt.wellSpelled : Stmt → Bool
  | .decl target init? =>
    target.dimension?.all Dimension.wellSpelled && init?.all Expr.wellSpelled
  | .assign target value => target.selector?.all Selector.wellSpelled && value.wellSpelled
  | .write value | .ret value => value.wellSpelled
  | .branch arms | .loop arms => Stmt.wellSpelledArms arms
  | .block body => Stmt.wellSpelledIn body

/-- Whether the literals of statements are spelled as they should be. -/
def Stmt.wellSpelledIn : List Stmt → Bool
  | [] => true
  | s :: rest => s.wellSpelled && Stmt.wellSpelledIn rest

/-- Whether the literals of guarded blocks are spelled as they should be. -/
def Stmt.wellSpelledArms : List (Guarded Stmt) → Bool
  | [] => true
  | ⟨guard, body⟩ :: rest =>
    guard.wellSpelled && Stmt.wellSpelledIn body && Stmt.wellSpelledArms rest

end

/-- Whether a program is spelled as it should be: its literals, and the names that it introduces.
    Dimensions of parameters are not looked at. -/
def Program.wellSpelled (program : Program) : Bool :=
  program.declaredNames.all Target.isIdentifier && Stmt.wellSpelledIn program.body

end PixelLowering.Source

namespace PixelLowering.Target

/-! ### Readable statements -/

mutual

/-- Statements made of identifiers and expressions that can be read. -/
def Stmt.Readable : Stmt → Prop
  | .declare _ name value? => isIdentifier name ∧ ∀ value ∈ value?, value.Readable
  | .assign name value => isIdentifier name ∧ value.Readable
  | .perform action => action.Readable
  | .ret value => value.Readable
  | .ifThen test body | .whileLoop test body => test.Readable ∧ Stmt.ReadableAll body
  | .ifElse test body other => test.Readable ∧ Stmt.ReadableAll body ∧ other.Readable
  | .block body => Stmt.ReadableAll body

/-- Several such statements. -/
def Stmt.ReadableAll : List Stmt → Prop
  | [] => True
  | s :: rest => s.Readable ∧ Stmt.ReadableAll rest

end

/-- Methods whose names are identifiers and whose statements can be read. -/
structure Method.Readable (method : Method) : Prop where
  name : isIdentifier method.name
  params : ∀ param ∈ method.params, isIdentifier param.name
  body : Stmt.ReadableAll method.body

theorem Stmt.readableAll_iff {body : List Stmt} :
    Stmt.ReadableAll body ↔ ∀ s ∈ body, s.Readable := by
  induction body with
  | nil => simp [Stmt.ReadableAll]
  | cons s rest ih => rw [Stmt.ReadableAll, ih, List.forall_mem_cons]

end PixelLowering.Target

namespace PixelLowering.Lower

open PixelLowering.Diagnostic
open PixelLowering.Library
open PixelLowering.Names
open PixelLowering.Source

/-! ### Statements that only read names

    What their parts are lowered to is put together by calls. So a property that a call has as soon
    as its arguments have it goes from the parts to the whole. -/

/-- A property that a call has if its arguments have it. -/
def HeldByCalls (good : Target.Expr → Prop) : Prop :=
  ∀ {routine : Routine} {tag? : Option Tag} {arguments : List Target.Expr},
    (∀ a ∈ arguments, good a) → good (.call routine tag? arguments)

section

variable {env : Env} {good : Target.Expr → Prop} {goodStmt : Target.Stmt → Prop}

theorem lowerSelector_gives {selector : Selector} (hx : Gives good (lowerExpr env selector.x))
    (hy : Gives good (lowerExpr env selector.y)) :
    Gives (fun pair => good pair.1 ∧ good pair.2) (lowerSelector env selector) :=
  hx.bind fun _ hx => hy.bind fun _ hy => .pure ⟨hx, hy⟩

theorem lowerInitial_gives (hcall : HeldByCalls good) {target : NameDef} {init? : Option Expr}
    (hinit : ∀ init, init? = some init → Gives good (lowerExpr env init))
    (hsize : ∀ size, target.dimension? = some size →
      Gives good (lowerExpr env size.width) ∧ Gives good (lowerExpr env size.height)) :
    Gives (fun value? => ∀ value ∈ value?, good value) (lowerInitial env target init?) := by
  unfold lowerInitial
  split
  · next init size _ hdimension =>
    obtain ⟨hwidth, hheight⟩ := hsize size hdimension
    refine (hinit init rfl).bind fun value hvalue => hwidth.bind fun width hwidth =>
      hheight.bind fun height hheight => .pure ?_
    rintro _ ⟨⟩
    exact hcall (by simp [hvalue, hwidth, hheight])
  · next init _ _ =>
    refine (hinit init rfl).bind fun value hvalue => .pure ?_
    rintro _ ⟨⟩
    split
    · exact hcall (by simp [hvalue])
    · exact hvalue
  · next size _ hdimension =>
    obtain ⟨hwidth, hheight⟩ := hsize size hdimension
    refine hwidth.bind fun width hwidth => hheight.bind fun height hheight => .pure ?_
    rintro _ ⟨⟩
    exact hcall (by simp [hwidth, hheight])
  · next init _ _ =>
    refine (hinit init rfl).bind fun value hvalue => .pure ?_
    rintro _ ⟨⟩
    exact hvalue
  · exact .pure (by rintro value ⟨⟩)

theorem lowerAssign_gives (hcall : HeldByCalls good) {target : LValue} {value : Expr}
    (hname : Gives (fun name => good (.var name) ∧
      ∀ e, good e → goodStmt (.assign name e)) (resolveName env target.name target.pos))
    (hvalue : Gives good (lowerExpr env value))
    (hselector : ∀ selector, target.selector? = some selector →
      Gives (fun pair => good pair.1 ∧ good pair.2) (lowerSelector env selector))
    (hperform : ∀ e, good e → goodStmt (.perform e)) :
    Gives goodStmt (lowerAssign env target value) := by
  rw [lowerAssign]
  refine hname.bind fun name hname => hvalue.bind fun value hvalue => ?_
  obtain ⟨hvar, hassign⟩ := hname
  split
  · exact .pure (hassign _ (hcall (by simp [hvar, hvalue])))
  · next _ selector _ hsome =>
    refine (hselector selector hsome).bind fun pair hpair => .pure (hperform _ (hcall ?_))
    have hread : good (.call .getRGB none [.var name, pair.1, pair.2]) :=
      hcall (by simp [hvar, hpair.1, hpair.2])
    cases target.channel? with
    | none => simp [hvar, hpair.1, hpair.2, hvalue]
    | some channel =>
      have hset : good (.call (.setChannel channel) none
          [.call .getRGB none [.var name, pair.1, pair.2], value]) :=
        hcall (by simp [hread, hvalue])
      simp [hvar, hpair.1, hpair.2, hset]
  · refine .pure (hassign _ ?_)
    split
    · exact hcall (by simp [hvalue])
    · exact hvalue
  · exact .pure (hassign _ hvalue)
  · exact .error _
  · exact .error _

theorem lowerWrite_gives (hcall : HeldByCalls good) {value : Expr}
    (hvalue : Gives good (lowerExpr env value)) (hperform : ∀ e, good e → goodStmt (.perform e)) :
    Gives goodStmt (lowerWrite env value) :=
  hvalue.bind fun _ hlowered => .pure (hperform _ (hcall (by simp [hlowered])))

theorem lowerReturned_gives (hcall : HeldByCalls good) {value : Expr}
    (hvalue : Gives good (lowerExpr env value))
    (hbase : ∀ info base channel?, value = .part info base channel? →
      Gives good (lowerExpr env base)) :
    Gives good (lowerReturned env value) := by
  cases value with
  | part info base channel? =>
    cases channel? with
    | none => exact hvalue
    | some channel =>
      rw [lowerReturned]
      split
      · refine (wholePixel_gives (hbase info base _ rfl)).bind fun pixel hpixel => .pure ?_
        exact hcall (by simp [hpixel])
      · exact hvalue
  | pixelAt info base x y coordinates channel? =>
    rw [lowerReturned_pixelAt]
    exact hvalue
  | _ => exact hvalue

end

theorem Env.Legible.bind {env : Env} (h : env.Legible) {name emitted : String}
    (hemitted : Target.isIdentifier emitted ∧ emitted ∉ forbidden) :
    (env.bind name emitted).Legible := by
  intro other found hfound
  rw [Env.bind] at hfound
  split at hfound
  · cases hfound
    exact hemitted
  · exact h other found hfound

section

variable {env : Env}

theorem call_readable : HeldByCalls Target.Expr.Readable := by
  intro routine tag? arguments h
  rw [Target.Expr.Readable]
  induction arguments with
  | nil => simp [Target.Expr.ReadableEach]
  | cons a rest ih =>
    rw [List.forall_mem_cons] at h
    rw [Target.Expr.ReadableEach]
    exact ⟨h.1, ih h.2⟩

theorem perform_readable (e : Target.Expr) (h : e.Readable) : (Target.Stmt.perform e).Readable := by
  rw [Target.Stmt.Readable]
  exact h

theorem resolveName_readable (henv : env.Legible) (name : String) (pos : Position) :
    Gives (fun emitted => (Target.Expr.var emitted).Readable ∧
      ∀ e : Target.Expr, e.Readable → (Target.Stmt.assign emitted e).Readable)
      (resolveName env name pos) := by
  rw [resolveName]
  cases hname : env name with
  | none => exact .error _
  | some emitted =>
    refine .pure ⟨?_, fun e he => ?_⟩
    · rw [Target.Expr.Readable]
      exact henv name emitted hname
    · rw [Target.Stmt.Readable]
      exact ⟨(henv name emitted hname).1, he⟩

theorem lowerInitial_readable (henv : env.Legible) (target : NameDef) (init? : Option Expr)
    (hsize : target.dimension?.all Dimension.wellSpelled) (hinit : init?.all Expr.wellSpelled) :
    Gives (fun value? => ∀ value ∈ value?, value.Readable) (lowerInitial env target init?) := by
  refine lowerInitial_gives call_readable ?_ ?_
  · rintro init rfl
    exact lowerExpr_readable henv init hinit
  · intro size hdimension
    rw [hdimension, Option.all_some, Dimension.wellSpelled, Bool.and_eq_true] at hsize
    exact ⟨lowerExpr_readable henv _ hsize.1, lowerExpr_readable henv _ hsize.2⟩

theorem lowerAssign_readable (henv : env.Legible) (target : LValue) (value : Expr)
    (hselector : target.selector?.all Selector.wellSpelled) (hvalue : value.wellSpelled) :
    Gives Target.Stmt.Readable (lowerAssign env target value) := by
  refine lowerAssign_gives call_readable (resolveName_readable henv _ _)
    (lowerExpr_readable henv value hvalue) ?_ perform_readable
  intro selector hsome
  rw [hsome, Option.all_some, Selector.wellSpelled, Bool.and_eq_true] at hselector
  exact lowerSelector_gives (lowerExpr_readable henv _ hselector.1)
    (lowerExpr_readable henv _ hselector.2)

theorem lowerWrite_readable (henv : env.Legible) (value : Expr) (h : value.wellSpelled) :
    Gives Target.Stmt.Readable (lowerWrite env value) :=
  lowerWrite_gives call_readable (lowerExpr_readable henv value h) perform_readable

theorem lowerReturned_readable (henv : env.Legible) (value : Expr) (h : value.wellSpelled) :
    Gives Target.Expr.Readable (lowerReturned env value) := by
  refine lowerReturned_gives call_readable (lowerExpr_readable henv value h) ?_
  rintro info base channel? rfl
  exact lowerExpr_readable henv base h

end

/-! ### Arms -/

/-- An arm with a test and a block that can be read. -/
structure Arm.Readable (arm : Arm) : Prop where
  test : arm.test.Readable
  body : Target.Stmt.ReadableAll arm.body

theorem chain_readable {last? : Option Target.Stmt} (hlast : ∀ s ∈ last?, s.Readable) :
    ∀ {arms : List Arm}, (∀ arm ∈ arms, arm.Readable) → ∀ s ∈ chain last? arms, s.Readable
  | [], _, s, hs => hlast s hs
  | arm :: rest, h, s, hs => by
    rw [List.forall_mem_cons] at h
    rw [chain] at hs
    cases hrest : chain last? rest with
    | none =>
      rw [hrest] at hs
      cases hs
      rw [Target.Stmt.Readable]
      exact ⟨h.1.test, h.1.body⟩
    | some other =>
      rw [hrest] at hs
      cases hs
      rw [Target.Stmt.Readable]
      exact ⟨h.1.test, h.1.body, chain_readable hlast h.2 other hrest⟩

theorem lastResort?_readable (arms : List (Guarded Stmt)) : ∀ s ∈ lastResort? arms, s.Readable := by
  intro s hs
  unfold lastResort? at hs
  split at hs
  · cases hs
  · split at hs
    · cases hs
    · cases hs
      rw [Target.Stmt.Readable, Target.Stmt.ReadableAll]
      trivial

theorem loopStmts_readable {flag : String}
    (hflag : Target.isIdentifier flag ∧ flag ∉ forbidden) {arms : List Arm}
    (h : ∀ arm ∈ arms, arm.Readable) : ∀ s ∈ loopStmts flag arms, s.Readable := by
  have hbool : ∀ value, (Target.Expr.bool value).Readable := fun value => by
    rw [Target.Expr.Readable]
    trivial
  have hassign : ∀ value, (Target.Stmt.assign flag (.bool value)).Readable := fun value => by
    rw [Target.Stmt.Readable]
    exact ⟨hflag.1, hbool value⟩
  have harms : ∀ arm ∈ arms.map (loopArm flag), arm.Readable := by
    intro arm harm
    obtain ⟨inner, hinner, rfl⟩ := List.mem_map.1 harm
    refine ⟨(h inner hinner).test, ?_⟩
    rw [loopArm, Target.Stmt.ReadableAll, Target.Stmt.ReadableAll, Target.Stmt.ReadableAll,
      Target.Stmt.Readable]
    exact ⟨hassign true, (h inner hinner).body, trivial⟩
  have hround := @chain_readable none (by rintro s ⟨⟩) _ harms
  intro s hs
  simp only [loopStmts, List.mem_cons, List.not_mem_nil, or_false] at hs
  rcases hs with rfl | rfl
  · rw [Target.Stmt.Readable]
    exact ⟨hflag.1, by rintro _ ⟨⟩; exact hbool true⟩
  · rw [Target.Stmt.Readable, Target.Expr.Readable, Target.Stmt.readableAll_iff]
    refine ⟨hflag, ?_⟩
    rw [List.forall_mem_cons]
    exact ⟨hassign false, by simpa using hround⟩

end PixelLowering.Lower

namespace PixelLowering.Lower.Lexical

open PixelLowering.Diagnostic
open PixelLowering.Names
open PixelLowering.Source

/-! ### Statements that declare names -/

/-- If an action has a result, the result satisfies `post`, whatever names were given before. -/
def Yields {α : Type} (post : α → Prop) (action : LexicalM Table α) : Prop :=
  ∀ given a after, action.run given = .ok (a, after) → post a

namespace Yields

variable {α β : Type} {post : α → Prop} {action : LexicalM Table α}

theorem pure {a : α} (h : post a) : Yields post (pure a) := by
  rintro given _ after ⟨⟩
  exact h

theorem bind {post' : β → Prop} {next : α → LexicalM Table β} (h : Yields post action)
    (hnext : ∀ a, post a → Yields post' (next a)) : Yields post' (action >>= next) := by
  intro given b after hrun
  rw [StateT.run_bind] at hrun
  cases hfirst : action.run given with
  | error reason =>
    rw [hfirst] at hrun
    cases hrun
  | ok result =>
    rw [hfirst] at hrun
    exact hnext result.1 (h given result.1 result.2 hfirst) result.2 b after hrun

theorem ofExcept {result : Except Failure α} (h : Gives post result) :
    Yields post (liftM result) := by
  intro given a after hrun
  cases result with
  | error reason => cases hrun
  | ok b =>
    cases hrun
    exact h _ rfl

theorem declare {name : String} (h : Target.isIdentifier name) :
    Yields (fun emitted => Target.isIdentifier emitted ∧ emitted ∉ forbidden)
      (declare tableSupply name) := by
  intro given emitted after hrun
  obtain rfl : (given.emitDeclared name).1 = emitted := congrArg Prod.fst (Except.ok.inj hrun)
  exact ⟨given.isIdentifier_emitDeclared h, (given.emitDeclared_emits name).allowed⟩

theorem flag : Yields (fun emitted => Target.isIdentifier emitted ∧ emitted ∉ forbidden)
    (flag tableSupply) := by
  rintro given _ after ⟨⟩
  exact ⟨isIdentifier_numbered (by decide) _, (given.temporary_emits flagBase).allowed⟩

end Yields

theorem gives_any {α : Type} (result : Except Failure α) : Gives (fun _ => True) result :=
  fun _ _ => trivial

mutual

/-- A statement is lowered to code that can be read, and leaves a legible environment. -/
theorem lowerStmt_readable {env : Env} (henv : env.Legible) : ∀ s : Stmt, s.wellSpelled →
    (∀ name ∈ s.declaredNames, Target.isIdentifier name) →
    Yields (fun result => (∀ t ∈ result.1, t.Readable) ∧ result.2.Legible)
      (lowerStmt tableSupply env s)
  | .decl target init?, h, hnames => by
    rw [Stmt.wellSpelled, Bool.and_eq_true] at h
    rw [lowerStmt]
    refine (Yields.ofExcept (gives_any _)).bind fun ty _ => ?_
    refine (Yields.ofExcept (lowerInitial_readable henv target init? h.1 h.2)).bind
      fun value? hvalue => ?_
    refine (Yields.declare (hnames _ (by simp [Stmt.declaredNames]))).bind fun emitted hemitted => ?_
    refine .pure ⟨?_, henv.bind hemitted⟩
    rw [List.forall_mem_singleton, Target.Stmt.Readable]
    exact ⟨hemitted.1, hvalue⟩
  | .assign target value, h, _ => by
    rw [Stmt.wellSpelled, Bool.and_eq_true] at h
    rw [lowerStmt]
    exact (Yields.ofExcept (lowerAssign_readable henv target value h.1 h.2)).bind fun code hcode =>
      .pure ⟨List.forall_mem_singleton.2 hcode, henv⟩
  | .write value, h, _ => by
    rw [lowerStmt]
    exact (Yields.ofExcept (lowerWrite_readable henv value h)).bind fun code hcode =>
      .pure ⟨List.forall_mem_singleton.2 hcode, henv⟩
  | .ret value, h, _ => by
    rw [lowerStmt]
    refine (Yields.ofExcept (lowerReturned_readable henv value h)).bind fun code hcode =>
      .pure ⟨List.forall_mem_singleton.2 ?_, henv⟩
    rw [Target.Stmt.Readable]
    exact hcode
  | .branch arms, h, hnames => by
    rw [Stmt.wellSpelled] at h
    rw [Stmt.declaredNames] at hnames
    rw [lowerStmt]
    refine (lowerArms_readable henv arms h hnames).bind fun lowered hlowered => .pure ⟨?_, henv⟩
    simpa using chain_readable (lastResort?_readable arms) hlowered
  | .loop arms, h, hnames => by
    rw [Stmt.wellSpelled] at h
    rw [Stmt.declaredNames] at hnames
    rw [lowerStmt]
    split
    · exact .pure ⟨by simp, henv⟩
    · refine Yields.flag.bind fun name hname => ?_
      refine (lowerArms_readable henv arms h hnames).bind fun lowered hlowered => ?_
      exact .pure ⟨loopStmts_readable hname hlowered, henv⟩
  | .block body, h, hnames => by
    rw [Stmt.wellSpelled] at h
    rw [Stmt.declaredNames] at hnames
    rw [lowerStmt]
    refine (lowerStmts_readable henv body h hnames).bind fun code hcode =>
      .pure ⟨List.forall_mem_singleton.2 ?_, henv⟩
    rw [Target.Stmt.Readable]
    exact hcode

theorem lowerStmts_readable {env : Env} (henv : env.Legible) : ∀ body : List Stmt,
    Stmt.wellSpelledIn body → (∀ name ∈ Stmt.declaredIn body, Target.isIdentifier name) →
    Yields Target.Stmt.ReadableAll (lowerStmts tableSupply env body)
  | [], _, _ => by
    rw [lowerStmts]
    exact .pure (by rw [Target.Stmt.ReadableAll]; trivial)
  | s :: rest, h, hnames => by
    rw [Stmt.wellSpelledIn, Bool.and_eq_true] at h
    rw [Stmt.declaredIn, List.forall_mem_append] at hnames
    rw [lowerStmts]
    refine (lowerStmt_readable henv s h.1 hnames.1).bind fun result hresult => ?_
    refine (lowerStmts_readable hresult.2 rest h.2 hnames.2).bind fun others hothers => .pure ?_
    rw [Target.Stmt.readableAll_iff] at hothers ⊢
    exact List.forall_mem_append.2 ⟨hresult.1, hothers⟩

theorem lowerArms_readable {env : Env} (henv : env.Legible) : ∀ arms : List (Guarded Stmt),
    Stmt.wellSpelledArms arms → (∀ name ∈ Stmt.declaredInArms arms, Target.isIdentifier name) →
    Yields (fun lowered => ∀ arm ∈ lowered, arm.Readable) (lowerArms tableSupply env arms)
  | [], _, _ => by
    rw [lowerArms]
    exact .pure (by simp)
  | ⟨guard, body⟩ :: rest, h, hnames => by
    rw [Stmt.wellSpelledArms, Bool.and_eq_true, Bool.and_eq_true] at h
    rw [Stmt.declaredInArms, List.forall_mem_append] at hnames
    rw [lowerArms]
    refine (Yields.ofExcept (lowerExpr_readable henv guard h.1.1)).bind fun test htest => ?_
    refine (lowerStmts_readable henv body h.1.2 hnames.1).bind fun code hcode => ?_
    refine (lowerArms_readable henv rest h.2 hnames.2).bind fun others hothers => .pure ?_
    exact List.forall_mem_cons.2 ⟨⟨htest, hcode⟩, hothers⟩

end

theorem lowerParams_readable {env : Env} (henv : env.Legible) : ∀ params : List NameDef,
    (∀ name ∈ params.map NameDef.name, Target.isIdentifier name) →
    Yields (fun result => (∀ param ∈ result.1, Target.isIdentifier param.name) ∧ result.2.Legible)
      (lowerParams tableSupply env params)
  | [], _ => by
    rw [lowerParams]
    exact .pure ⟨by simp, henv⟩
  | param :: rest, hnames => by
    rw [List.map_cons, List.forall_mem_cons] at hnames
    rw [lowerParams]
    refine (Yields.ofExcept (gives_any _)).bind fun ty _ => ?_
    refine (Yields.declare hnames.1).bind fun emitted hemitted => ?_
    refine (lowerParams_readable (henv.bind hemitted) rest hnames.2).bind fun result hresult => ?_
    exact .pure ⟨List.forall_mem_cons.2 ⟨hemitted.1, hresult.1⟩, hresult.2⟩

/-- A program that is spelled as it should be is lowered to a method that can be read. -/
theorem lowerProgram_readable (program : Program) (h : program.wellSpelled) :
    Yields Target.Method.Readable (lowerProgram tableSupply program) := by
  rw [Program.wellSpelled, Bool.and_eq_true, List.all_eq_true, Program.declaredNames] at h
  obtain ⟨hparams, hbody⟩ := List.forall_mem_append.1 h.1
  rw [lowerProgram]
  cases hname : Target.isMethodName program.name with
  | false =>
    rintro given _ after ⟨⟩
  | true =>
    have hempty : Env.empty.Legible := by rintro name emitted ⟨⟩
    rw [Target.isMethodName, Bool.and_eq_true] at hname
    refine (lowerParams_readable hempty program.params hparams).bind fun result hresult => ?_
    refine (lowerStmts_readable hresult.2 program.body h.2 hbody).bind fun body hbody => ?_
    exact .pure ⟨hname.1, hresult.1, hbody⟩

end PixelLowering.Lower.Lexical
