import PixelLowering.Proofs.Reading.Unique
import PixelLowering.Proofs.Scopes.Discipline

/-! The flag of a loop is left alone.

    A flag is in use and has no binding. What code reads or assigns, it finds through a binding;
    what it declares was not in use before. So the code of guards and blocks, nested loops included,
    does not mention the flag of the loop around them:

        do a > 0 → { int b ← a;  do b > 0 → { b ← b - 1 } od } od

        flag of the outer loop        continue$0
        mentioned in its block        b, a, continue$1 -/

namespace PixelLowering.Target

/-! ### Names that code mentions -/

mutual

/-- The variables that an expression reads. -/
def Expr.vars : Expr → List String
  | .literal _ | .bool _ => []
  | .var name => [name]
  | .cond test yes no => test.vars ++ yes.vars ++ no.vars
  | .unary _ operand | .measure _ operand => operand.vars
  | .infixed _ left right | .equals left right | .power left right => left.vars ++ right.vars
  | .call _ _ arguments => Expr.varsEach arguments

/-- The variables that several expressions read. -/
def Expr.varsEach : List Expr → List String
  | [] => []
  | e :: rest => e.vars ++ Expr.varsEach rest

end

mutual

/-- The names that a statement declares, assigns or reads. -/
def Stmt.mentioned : Stmt → List String
  | .declare _ name none => [name]
  | .declare _ name (some value) | .assign name value => name :: value.vars
  | .perform value | .ret value => value.vars
  | .ifThen test body | .whileLoop test body => test.vars ++ Stmt.mentionedIn body
  | .ifElse test body other => test.vars ++ Stmt.mentionedIn body ++ other.mentioned
  | .block body => Stmt.mentionedIn body

/-- The names that statements declare, assign or read. -/
def Stmt.mentionedIn : List Stmt → List String
  | [] => []
  | s :: rest => s.mentioned ++ Stmt.mentionedIn rest

end

theorem Expr.not_mem_varsEach {name : String} {es : List Expr} :
    name ∉ Expr.varsEach es ↔ ∀ e ∈ es, name ∉ e.vars := by
  induction es with
  | nil => simp [Expr.varsEach]
  | cons e rest ih => rw [Expr.varsEach, List.mem_append, not_or, ih, List.forall_mem_cons]

theorem Stmt.not_mem_mentionedIn {name : String} {body : List Stmt} :
    name ∉ Stmt.mentionedIn body ↔ ∀ s ∈ body, name ∉ s.mentioned := by
  induction body with
  | nil => simp [Stmt.mentionedIn]
  | cons s rest ih => rw [Stmt.mentionedIn, List.mem_append, not_or, ih, List.forall_mem_cons]

mutual

/-- With other names for its variables, an expression reads these. -/
theorem Expr.vars_rename (f : String → String) : ∀ e : Expr, (e.rename f).vars = e.vars.map f
  | .literal _ | .bool _ | .var _ => by simp [Expr.rename, Expr.vars]
  | .cond test yes no => by
    simp [Expr.rename, Expr.vars, vars_rename f test, vars_rename f yes, vars_rename f no]
  | .unary _ operand | .measure _ operand => by
    simp [Expr.rename, Expr.vars, vars_rename f operand]
  | .infixed _ left right | .equals left right | .power left right => by
    simp [Expr.rename, Expr.vars, vars_rename f left, vars_rename f right]
  | .call _ _ arguments => by simp [Expr.rename, Expr.vars, varsEach_rename f arguments]

theorem Expr.varsEach_rename (f : String → String) :
    ∀ es : List Expr, Expr.varsEach (Expr.renameEach f es) = (Expr.varsEach es).map f
  | [] => by simp [Expr.renameEach, Expr.varsEach]
  | e :: rest => by
    simp [Expr.renameEach, Expr.varsEach, vars_rename f e, varsEach_rename f rest]

end

end PixelLowering.Target

namespace PixelLowering.Lower

open PixelLowering.Diagnostic
open PixelLowering.Library
open PixelLowering.Names
open PixelLowering.Source

variable {α β : Type} {flag : String}

/-! ### Lowering with the names in scope -/

section

variable {env : Env}

/-- Lowered expressions read what the environment gives. A name that it does not give could be any
    other name, and nothing would change. -/
theorem lowerExpr_avoids (henv : ∀ name, env name ≠ some flag) (e : Expr) :
    Gives (fun t => flag ∉ t.vars) (lowerExpr env e) := by
  intro t ht hmem
  let other (name : String) : String := if name = flag then flag ++ "_" else name
  have hsame : env.rename other = env := by
    funext name
    cases hname : env name with
    | none => simp [Env.rename, hname]
    | some emitted =>
      have hne : emitted ≠ flag := fun heq => henv name (heq ▸ hname)
      simp [Env.rename, hname, other, hne]
  have hrename := lowerExpr_rename other env e
  rw [hsame, ht, Except.map, Except.ok.injEq] at hrename
  have hvars := congrArg Target.Expr.vars hrename
  rw [Target.Expr.vars_rename] at hvars
  have hfixed : other flag = flag :=
    List.map_inj_left.1 (hvars.symm.trans (List.map_id t.vars).symm) flag hmem
  have hlength := congrArg String.length hfixed
  simp [other] at hlength

theorem call_avoids : HeldByCalls fun e => flag ∉ e.vars := by
  intro routine tag? arguments h
  rw [Target.Expr.vars]
  exact Target.Expr.not_mem_varsEach.2 h

theorem perform_avoids (e : Target.Expr) (h : flag ∉ e.vars) :
    flag ∉ (Target.Stmt.perform e).mentioned := by
  rw [Target.Stmt.mentioned]
  exact h

theorem resolveName_avoids (henv : ∀ name, env name ≠ some flag) (name : String)
    (pos : Position) :
    Gives (fun emitted => flag ∉ (Target.Expr.var emitted).vars ∧
      ∀ e : Target.Expr, flag ∉ e.vars → flag ∉ (Target.Stmt.assign emitted e).mentioned)
      (resolveName env name pos) := by
  rw [resolveName]
  cases hname : env name with
  | none => exact .error _
  | some emitted =>
    have hne : flag ≠ emitted := fun heq => henv name (heq ▸ hname)
    refine .pure ⟨by simpa [Target.Expr.vars] using hne, fun e he => ?_⟩
    rw [Target.Stmt.mentioned, List.mem_cons, not_or]
    exact ⟨hne, he⟩

theorem lowerInitial_avoids (henv : ∀ name, env name ≠ some flag) (target : NameDef)
    (init? : Option Expr) :
    Gives (fun value? => ∀ value ∈ value?, flag ∉ value.vars) (lowerInitial env target init?) :=
  lowerInitial_gives call_avoids (fun init _ => lowerExpr_avoids henv init) fun size _ =>
    ⟨lowerExpr_avoids henv size.width, lowerExpr_avoids henv size.height⟩

theorem lowerAssign_avoids (henv : ∀ name, env name ≠ some flag) (target : LValue)
    (value : Expr) :
    Gives (fun code => flag ∉ code.mentioned) (lowerAssign env target value) :=
  lowerAssign_gives call_avoids (resolveName_avoids henv _ _) (lowerExpr_avoids henv value)
    (fun selector _ => lowerSelector_gives (lowerExpr_avoids henv selector.x)
      (lowerExpr_avoids henv selector.y)) perform_avoids

theorem lowerWrite_avoids (henv : ∀ name, env name ≠ some flag) (value : Expr) :
    Gives (fun code => flag ∉ code.mentioned) (lowerWrite env value) :=
  lowerWrite_gives call_avoids (lowerExpr_avoids henv value) perform_avoids

theorem lowerReturned_avoids (henv : ∀ name, env name ≠ some flag) (value : Expr) :
    Gives (fun t => flag ∉ t.vars) (lowerReturned env value) :=
  lowerReturned_gives call_avoids (lowerExpr_avoids henv value) fun _ base _ _ =>
    lowerExpr_avoids henv base

end

/-! ### Actions that leave a name alone -/

/-- A name in use that belongs to no binding. -/
structure Pass.Withholds (pass : Pass) (flag : String) : Prop where
  inUse : flag ∈ pass.names.emitted
  unbound : ∀ b ∈ pass.names.visible, b.emitted ≠ flag

theorem Pass.Withholds.resolve?_ne {pass : Pass} (h : pass.Withholds flag) (name : String) :
    pass.names.resolve? name ≠ some flag := by
  intro hresolve
  obtain ⟨b, hlookup, hb⟩ := Option.map_eq_some_iff.1 hresolve
  exact h.unbound b (List.mem_of_find?_eq_some hlookup) hb

/-- An action that succeeds where a name is withheld gives a good result, and still withholds it. -/
def Avoids (flag : String) (action : LowerM α) (good : α → Prop) : Prop :=
  ∀ (pass : Pass) (a : α) (after : Pass), pass.Withholds flag →
    pass.run action = (.ok a, after) → good a ∧ after.Withholds flag

namespace Avoids

variable {action : LowerM α} {good : α → Prop}

theorem pure {a : α} (h : good a) : Avoids flag (pure a) good := by
  intro pass _ after hflag hrun
  cases hrun
  exact ⟨h, hflag⟩

theorem bind {next : α → LowerM β} {good' : β → Prop} (h : Avoids flag action good)
    (hnext : ∀ a, good a → Avoids flag (next a) good') : Avoids flag (action >>= next) good' := by
  intro pass b after hflag hrun
  obtain ⟨a, middle, hfirst, hsecond⟩ := (pass.run_bind_eq_ok).1 hrun
  obtain ⟨hgood, hmiddle⟩ := h pass a middle hflag hfirst
  exact hnext a hgood middle b after hmiddle hsecond

theorem ofExcept {result : Except Failure α} (h : Gives good result) :
    Avoids flag (ofExcept result) good := by
  intro pass a after hflag hrun
  rw [Pass.run_ofExcept] at hrun
  cases result with
  | error reason => cases hrun
  | ok b =>
    cases hrun
    exact ⟨h _ rfl, hflag⟩

theorem inScope {f : Env → Except Failure α}
    (h : ∀ env : Env, (∀ name, env name ≠ some flag) → Gives good (f env)) :
    Avoids flag (inScope f) good := by
  intro pass a after hflag hrun
  exact ofExcept (h pass.names.resolve? hflag.resolve?_ne) pass a after hflag hrun

theorem record (event : Event) : Avoids flag (record event) fun _ => True := by
  intro pass a after hflag hrun
  cases hrun
  exact ⟨trivial, hflag.inUse, hflag.unbound⟩

theorem declare (name : String) (ty : Ty) :
    Avoids flag (declare name ty) fun emitted => emitted ≠ flag := by
  intro pass emitted after hflag hrun
  obtain ⟨rfl, hnames⟩ := run_declare_eq_ok hrun
  have hemits := pass.names.emitDeclared_emits name
  have hne : (pass.names.declare name ty).1 ≠ flag := fun heq => hemits.fresh (heq ▸ hflag.inUse)
  refine ⟨hne, ?_, ?_⟩
  · rw [hnames, Table.declare, Table.emitted_push, hemits.emitted]
    exact List.mem_cons_of_mem _ hflag.inUse
  · rw [hnames, Table.declare, Table.visible_push, hemits.visible, List.forall_mem_cons]
    exact ⟨hne, hflag.unbound⟩

theorem temporary (base : String) :
    Avoids flag (temporary base) fun emitted => emitted ≠ flag := by
  intro pass emitted after hflag hrun
  cases hrun
  have hne : (pass.names.temporary base).1 ≠ flag :=
    fun heq => (pass.names.temporary_emits base).fresh (heq ▸ hflag.inUse)
  refine ⟨hne, ?_, ?_⟩
  · exact List.mem_cons_of_mem _ hflag.inUse
  · exact hflag.unbound

theorem enter : Avoids flag enter fun _ => True := by
  intro pass a after hflag hrun
  cases hrun
  exact ⟨trivial, hflag.inUse, hflag.unbound⟩

/-- Bindings go when a scope is closed, and none is added. -/
theorem leave : Avoids flag leave fun _ => True := by
  intro pass a after hflag hrun
  rw [Pass.run_leave, Table.leave?] at hrun
  cases hscopes : pass.names.scopes with
  | nil =>
    rw [hscopes] at hrun
    cases hrun
  | cons inner outer =>
    rw [hscopes] at hrun
    cases hrun
    refine ⟨trivial, hflag.inUse, fun b hb => hflag.unbound b ?_⟩
    rw [Table.visible, hscopes, List.flatten_cons, List.append_assoc]
    exact List.mem_append_right inner hb

theorem withScope (h : Avoids flag action good) : Avoids flag (withScope action) good :=
  enter.bind fun _ _ => h.bind fun _ hgood => leave.bind fun _ _ => pure hgood

end Avoids

/-! ### Arms -/

/-- An arm whose test and block leave a name alone. -/
structure Arm.Avoids (flag : String) (arm : Arm) : Prop where
  test : flag ∉ arm.test.vars
  body : flag ∉ Target.Stmt.mentionedIn arm.body

theorem chain_avoids {last? : Option Target.Stmt} (hlast : ∀ s ∈ last?, flag ∉ s.mentioned) :
    ∀ {arms : List Arm}, (∀ arm ∈ arms, arm.Avoids flag) →
      ∀ s ∈ chain last? arms, flag ∉ s.mentioned
  | [], _ => hlast
  | arm :: rest, h => by
    rw [List.forall_mem_cons] at h
    have ih := chain_avoids hlast h.2
    rw [chain]
    cases hrest : chain last? rest with
    | none =>
      rintro _ ⟨⟩
      simp [Target.Stmt.mentioned, h.1.test, h.1.body]
    | some other =>
      rintro _ ⟨⟩
      simp [Target.Stmt.mentioned, h.1.test, h.1.body, ih other hrest]

theorem lastResort?_avoids (arms : List (Guarded Stmt)) :
    ∀ s ∈ lastResort? arms, flag ∉ s.mentioned := by
  rw [lastResort?]
  split
  · rintro s ⟨⟩
  · split
    · rintro s ⟨⟩
    · rintro s ⟨⟩
      simp [Target.Stmt.mentioned, Target.Stmt.mentionedIn]

theorem loopArm_avoids {own : String} (hne : own ≠ flag) {arm : Arm} (h : arm.Avoids flag) :
    (loopArm own arm).Avoids flag := by
  refine ⟨h.test, ?_⟩
  simp [loopArm, Target.Stmt.mentionedIn, Target.Stmt.mentioned, Target.Expr.vars, hne.symm, h.body]

/-- A loop with a flag of its own leaves any other flag alone that its arms leave alone. -/
theorem loopStmts_avoids {own : String} (hne : own ≠ flag) {arms : List Arm}
    (h : ∀ arm ∈ arms, arm.Avoids flag) :
    flag ∉ Target.Stmt.mentionedIn (loopStmts own arms) := by
  have htests : ∀ s ∈ chain none (arms.map (loopArm own)), flag ∉ s.mentioned := by
    refine chain_avoids (by rintro s ⟨⟩) ?_
    intro arm harm
    obtain ⟨arm', harm', rfl⟩ := List.mem_map.1 harm
    exact loopArm_avoids hne (h arm' harm')
  have hround : flag ∉ Target.Stmt.mentionedIn (chain none (arms.map (loopArm own))).toList :=
    Target.Stmt.not_mem_mentionedIn.2 fun s hs => htests s (Option.mem_toList.1 hs)
  simp [loopStmts, Target.Stmt.mentionedIn, Target.Stmt.mentioned, Target.Expr.vars, hne.symm,
    hround]

/-! ### Statements -/

theorem not_mem_mentionedIn_append {first second : List Target.Stmt}
    (h : flag ∉ Target.Stmt.mentionedIn first) (h' : flag ∉ Target.Stmt.mentionedIn second) :
    flag ∉ Target.Stmt.mentionedIn (first ++ second) := by
  rw [Target.Stmt.not_mem_mentionedIn] at h h' ⊢
  exact List.forall_mem_append.2 ⟨h, h'⟩

theorem not_mem_mentionedIn_singleton {s : Target.Stmt} (h : flag ∉ s.mentioned) :
    flag ∉ Target.Stmt.mentionedIn [s] :=
  Target.Stmt.not_mem_mentionedIn.2 (by simpa using h)

theorem lowerDecl_avoids (target : NameDef) (init? : Option Expr) :
    Avoids flag (lowerDecl target init?) fun code => flag ∉ code.mentioned := by
  rw [lowerDecl]
  refine (Avoids.ofExcept (Lexical.gives_any _)).bind fun ty _ => ?_
  refine (Avoids.inScope fun env henv => lowerInitial_avoids henv target init?).bind
    fun value? hvalue => ?_
  refine (Avoids.declare target.name target.ty).bind fun emitted hemitted => ?_
  refine (Avoids.record _).bind fun _ _ => .pure ?_
  cases value? with
  | none => simpa [Target.Stmt.mentioned] using hemitted.symm
  | some value => simp [Target.Stmt.mentioned, hemitted.symm, hvalue value rfl]

mutual

/-- Code that is lowered while a name is withheld does not mention it. -/
theorem lowerStmt_avoids : ∀ s : Stmt,
    Avoids flag (lowerStmt s) fun code => flag ∉ Target.Stmt.mentionedIn code
  | .decl target init? => by
    rw [lowerStmt]
    exact (lowerDecl_avoids target init?).bind fun _ h => .pure (not_mem_mentionedIn_singleton h)
  | .assign target value => by
    rw [lowerStmt]
    exact (Avoids.inScope fun _ henv => lowerAssign_avoids henv target value).bind fun _ h =>
      .pure (not_mem_mentionedIn_singleton h)
  | .write value => by
    rw [lowerStmt]
    exact (Avoids.inScope fun _ henv => lowerWrite_avoids henv value).bind fun _ h =>
      .pure (not_mem_mentionedIn_singleton h)
  | .ret value => by
    rw [lowerStmt]
    refine (Avoids.inScope fun _ henv => lowerReturned_avoids henv value).bind fun code h =>
      .pure ?_
    exact not_mem_mentionedIn_singleton (by rw [Target.Stmt.mentioned]; exact h)
  | .branch arms => by
    rw [lowerStmt]
    refine (lowerArms_avoids arms).bind fun lowered h => .pure ?_
    refine Target.Stmt.not_mem_mentionedIn.2 fun s hs => ?_
    exact chain_avoids (lastResort?_avoids arms) h s (Option.mem_toList.1 hs)
  | .loop arms => by
    rw [lowerStmt]
    split
    · exact .pure (by simp [Target.Stmt.mentionedIn])
    · refine (Avoids.temporary flagBase).bind fun own hne => ?_
      exact (lowerArms_avoids arms).bind fun lowered h => .pure (loopStmts_avoids hne h)
  | .block body => by
    rw [lowerStmt]
    refine (Avoids.withScope (lowerStmts_avoids body)).bind fun code h => .pure ?_
    exact not_mem_mentionedIn_singleton (by rw [Target.Stmt.mentioned]; exact h)

theorem lowerStmts_avoids : ∀ body : List Stmt,
    Avoids flag (lowerStmts body) fun code => flag ∉ Target.Stmt.mentionedIn code
  | [] => by
    rw [lowerStmts]
    exact .pure (by simp [Target.Stmt.mentionedIn])
  | s :: rest => by
    rw [lowerStmts]
    exact (lowerStmt_avoids s).bind fun _ h => (lowerStmts_avoids rest).bind fun _ h' =>
      .pure (not_mem_mentionedIn_append h h')

theorem lowerArms_avoids : ∀ arms : List (Guarded Stmt),
    Avoids flag (lowerArms arms) fun lowered => ∀ arm ∈ lowered, arm.Avoids flag
  | [] => by
    rw [lowerArms]
    exact .pure (by simp)
  | ⟨guard, body⟩ :: rest => by
    rw [lowerArms]
    refine (Avoids.inScope fun _ henv => lowerExpr_avoids henv guard).bind fun test htest => ?_
    refine (Avoids.withScope (lowerStmts_avoids body)).bind fun code hcode => ?_
    refine (lowerArms_avoids rest).bind fun others hothers => .pure ?_
    exact List.forall_mem_cons.2 ⟨⟨htest, hcode⟩, hothers⟩

end

/-! ### The flag of a loop -/

/-- A flag that stands apart from all other names: it is new when it is taken, the code of the loop
    declares it once and not in its blocks, and neither tests nor blocks mention it. -/
structure FlagApart (pass : Pass) (flag : String) (lowered : List Arm)
    (code : List Target.Stmt) : Prop where
  given : flag = (pass.names.temporary flagBase).1
  new : flag ∉ pass.names.emitted
  once : (Target.Stmt.declaredIn code).count flag = 1
  inside : flag ∉ declaredInArms lowered
  untouched : ∀ arm ∈ lowered, arm.Avoids flag

/-- A name that is taken for internal use is withheld from then on. -/
theorem withholds_temporary {pass : Pass} (h : pass.names.Sound) (base : String) :
    (pass.temporary base).2.Withholds (pass.temporary base).1 := by
  refine ⟨List.mem_cons_self, ?_⟩
  intro b hb heq
  exact (pass.names.temporary_emits base).fresh (heq ▸ h.inUse b hb)

/-- What lowering the arms of a loop declares is not in use when it starts. -/
theorem not_mem_declaredInArms {before after : Pass} {arms : List (Guarded Stmt)}
    {lowered : List Arm} (hrun : before.run (lowerArms arms) = (.ok lowered, after))
    (hsound : after.names.Sound) {name : String} (hname : name ∈ before.names.emitted) :
    name ∉ declaredInArms lowered := by
  obtain ⟨names, rfl, hemitted⟩ := lowerArms_uses arms before lowered after hrun
  have hdistinct := hsound.distinct
  rw [hemitted] at hdistinct
  intro hmem
  exact (List.nodup_append.1 hdistinct).2.2 name (by simpa using hmem) name hname rfl

theorem flagApart_of_run {pass after : Pass} {arms : List (Guarded Stmt)} {lowered : List Arm}
    (hsound : pass.names.Sound) (hafter : after.names.Sound)
    (hrun : (pass.temporary flagBase).2.run (lowerArms arms) = (.ok lowered, after)) :
    FlagApart pass (pass.temporary flagBase).1 lowered
      (loopStmts (pass.temporary flagBase).1 lowered) := by
  have hinside : (pass.temporary flagBase).1 ∉ declaredInArms lowered :=
    not_mem_declaredInArms hrun hafter List.mem_cons_self
  refine ⟨rfl, (pass.names.temporary_emits flagBase).fresh, ?_, hinside, ?_⟩
  · rw [declaredIn_loopStmts, List.count_cons_self, List.count_eq_zero.2 hinside]
  · exact (lowerArms_avoids arms _ _ _ (withholds_temporary hsound flagBase) hrun).1

end PixelLowering.Lower
