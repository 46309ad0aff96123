import PixelLowering.Proofs.Domain.Lowerable
import PixelLowering.Proofs.Lexical.Scoping

/-! Exactly the valid programs have a text.

    Lexical lowering hands environments down the tree just as the rules hand down scopes. At every
    point of the walk the environment covers the scope, whatever supply the names come from, so each
    statement is lowered if and only if its rule holds. The pass does what lexical lowering does
    when the table of names is its own supply. -/

namespace PixelLowering.Lower.Lexical

open PixelLowering.Diagnostic
open PixelLowering.Names
open PixelLowering.Source

variable {ν α β : Type}

/-- An action succeeds if and only if `valid` holds, and then its result is as `post` says. -/
def Decides (action : LexicalM ν α) (valid : Prop) (post : α → Prop) : Prop :=
  ∀ given, match action.run given with
    | .ok (a, _) => valid ∧ post a
    | .error _ => ¬valid

namespace Decides

variable {action : LexicalM ν α} {valid : Prop} {post : α → Prop}

theorem pure {a : α} (h : post a) : Decides (pure a : LexicalM ν α) True post :=
  fun _ => ⟨trivial, h⟩

/-- The conditions of two steps add up when the second one's does not depend on the first result,
    apart from what is known of it. -/
theorem bind {next : α → LexicalM ν β} {valid' : Prop} {post' : β → Prop}
    (h : Decides action valid post) (hnext : valid → ∀ a, post a → Decides (next a) valid' post') :
    Decides (action >>= next) (valid ∧ valid') post' := by
  intro given
  have hfirst := h given
  rw [StateT.run_bind]
  cases hrun : action.run given with
  | error reason =>
    rw [hrun] at hfirst
    exact fun hvalid => hfirst hvalid.1
  | ok result =>
    rw [hrun] at hfirst
    have hsecond := hnext hfirst.1 result.1 hfirst.2 result.2
    change match (next result.1).run result.2 with
      | .ok (b, _) => (valid ∧ valid') ∧ post' b
      | .error _ => ¬(valid ∧ valid')
    cases hrun' : (next result.1).run result.2 with
    | error reason =>
      rw [hrun'] at hsecond
      exact fun hvalid => hsecond hvalid.2
    | ok result' =>
      rw [hrun'] at hsecond
      exact ⟨⟨hfirst.1, hsecond.1⟩, hsecond.2⟩

theorem congr {valid' : Prop} (h : Decides action valid post) (hvalid : valid ↔ valid') :
    Decides action valid' post := by
  rwa [← hvalid]

/-- A result that is there already. -/
theorem ofExcept {result : Except Failure α} (h : (∃ a, result = .ok a) ↔ valid) :
    Decides (liftM result : LexicalM ν α) valid fun _ => True := by
  intro given
  cases result with
  | error reason => exact fun hvalid => by simpa using h.mpr hvalid
  | ok a => exact ⟨h.mp ⟨a, rfl⟩, trivial⟩

theorem declare (supply : Supply ν) (name : String) :
    Decides (declare supply name) True fun _ => True :=
  fun _ => ⟨trivial, trivial⟩

theorem flag (supply : Supply ν) : Decides (flag supply) True fun _ => True :=
  fun _ => ⟨trivial, trivial⟩

/-- A last step that cannot fail. -/
theorem map {f : α → β} {post' : β → Prop} (h : Decides action valid post)
    (hpost : ∀ a, post a → post' (f a)) :
    Decides (action >>= fun a => Pure.pure (f a)) valid post' :=
  (h.bind fun _ a ha => pure (hpost a ha)).congr (and_iff_left trivial)

end Decides

/-! ### Statements -/

section

variable (supply : Supply ν)

/-- A declaration. What is known of the type is needed for the value: a void variable is not looked
    at any further. -/
theorem lowerDecl_decides {env : Env} {scope : List String} (h : env.Covers scope)
    (target : NameDef) (init? : Option Expr) :
    Decides (lowerStmt supply env (.decl target init?)) (target.Valid scope init?)
      fun result => result.2.Covers (target.name :: scope) := by
  rw [lowerStmt]
  have hvalid : target.ty ≠ .void ∧ target.Valid scope init? ∧ True ↔ target.Valid scope init? :=
    ⟨fun hall => hall.2.1, fun hall => ⟨hall.ty, hall, trivial⟩⟩
  refine Decides.congr ?_ hvalid
  refine (Decides.ofExcept (variableType_ok_iff target.ty target.pos)).bind fun hty ty _ => ?_
  refine (Decides.ofExcept (lowerInitial_ok_iff h target init? hty)).bind fun _ value? _ => ?_
  exact (Decides.declare supply target.name).map fun emitted _ => h.bind target.name emitted

mutual

/-- A statement is lowered if and only if it is valid, and the environment that it leaves covers
    the scope that it leaves. -/
theorem lowerStmt_decides {env : Env} {scope : List String} (h : env.Covers scope) : ∀ s : Stmt,
    Decides (lowerStmt supply env s) (s.Valid scope)
      fun result => result.2.Covers (s.scopeAfter scope)
  | .decl target init? => by
    rw [Stmt.Valid]
    exact lowerDecl_decides supply h target init?
  | .assign target value => by
    rw [lowerStmt, Stmt.Valid]
    exact (Decides.ofExcept (lowerAssign_ok_iff h target value)).map fun _ _ => h
  | .write value => by
    rw [lowerStmt, Stmt.Valid]
    exact (Decides.ofExcept (lowerWrite_ok_iff h value)).map fun _ _ => h
  | .ret value => by
    rw [lowerStmt, Stmt.Valid]
    exact (Decides.ofExcept (lowerReturned_ok_iff h value)).map fun _ _ => h
  | .branch arms => by
    rw [lowerStmt, Stmt.Valid]
    exact (lowerArms_decides h arms).map fun _ _ => h
  | .loop arms => by
    rw [lowerStmt, Stmt.Valid]
    split
    · next hempty =>
      rw [List.isEmpty_iff.mp hempty, Stmt.ValidArms]
      exact .pure h
    · refine ((Decides.flag supply).bind fun _ name _ => ?_).congr (and_iff_right trivial)
      exact (lowerArms_decides h arms).map fun _ _ => h
  | .block body => by
    rw [lowerStmt, Stmt.Valid]
    exact (lowerStmts_decides h body).map fun _ _ => h

theorem lowerStmts_decides {env : Env} {scope : List String} (h : env.Covers scope) :
    ∀ body : List Stmt,
      Decides (lowerStmts supply env body) (Stmt.ValidBlock scope body) fun _ => True
  | [] => by
    rw [lowerStmts, Stmt.ValidBlock]
    exact .pure trivial
  | s :: rest => by
    rw [lowerStmts, Stmt.ValidBlock]
    refine (lowerStmt_decides h s).bind fun _ result hnext => ?_
    exact (lowerStmts_decides hnext rest).map fun _ _ => trivial

theorem lowerArms_decides {env : Env} {scope : List String} (h : env.Covers scope) :
    ∀ arms : List (Guarded Stmt),
      Decides (lowerArms supply env arms) (Stmt.ValidArms scope arms) fun _ => True
  | [] => by
    rw [lowerArms, Stmt.ValidArms]
    exact .pure trivial
  | ⟨guard, body⟩ :: rest => by
    rw [lowerArms, Stmt.ValidArms]
    refine (Decides.ofExcept (lowerExpr_ok_iff h guard)).bind fun _ test _ => ?_
    refine (lowerStmts_decides h body).bind fun _ code _ => ?_
    exact (lowerArms_decides h rest).map fun _ _ => trivial

end

/-! ### Programs -/

/-- Parameters are lowered if and only if none is void, and all of them are in scope then. -/
theorem lowerParams_decides {env : Env} {scope : List String} (h : env.Covers scope) :
    ∀ params : List NameDef,
      Decides (lowerParams supply env params) (∀ param ∈ params, param.ty ≠ .void)
        fun result => result.2.Covers (scope ++ params.map NameDef.name)
  | [] => by
    rw [lowerParams]
    refine (Decides.pure ?_).congr (by simp)
    simpa using h
  | param :: rest => by
    rw [lowerParams, List.forall_mem_cons]
    refine (Decides.ofExcept (variableType_ok_iff param.ty param.pos)).bind fun _ ty _ => ?_
    refine ((Decides.declare supply param.name).bind fun _ emitted _ => ?_).congr
      (and_iff_right trivial)
    refine (lowerParams_decides (h.bind param.name emitted) rest).map fun result hresult => ?_
    intro name
    rw [hresult name]
    simp only [List.mem_append, List.mem_cons, List.map_cons, or_assoc, or_left_comm]

end

theorem isIdentifierStart_iff (c : Char) : Target.isIdentifierStart c ↔ NameStart c := by
  have hupper : c.isUpper ↔ 'A' ≤ c ∧ c ≤ 'Z' := decide_eq_true_iff
  have hlower : c.isLower ↔ 'a' ≤ c ∧ c ≤ 'z' :=
    Bool.and_eq_true_iff.trans (and_congr decide_eq_true_iff decide_eq_true_iff)
  have halpha : c.isAlpha ↔ ('A' ≤ c ∧ c ≤ 'Z') ∨ ('a' ≤ c ∧ c ≤ 'z') :=
    Bool.or_eq_true_iff.trans (or_congr hupper hlower)
  rw [Target.isIdentifierStart, NameStart, Bool.or_eq_true, Bool.or_eq_true, halpha, beq_iff_eq,
    beq_iff_eq, or_assoc, or_assoc]

theorem isIdentifierPart_iff (c : Char) :
    Target.isIdentifierPart c ↔ NameStart c ∨ ('0' ≤ c ∧ c ≤ '9') := by
  have hdigit : c.isDigit ↔ '0' ≤ c ∧ c ≤ '9' :=
    Bool.and_eq_true_iff.trans (and_congr decide_eq_true_iff decide_eq_true_iff)
  rw [Target.isIdentifierPart, Bool.or_eq_true, isIdentifierStart_iff, hdigit]

theorem isMethodName_iff (name : String) :
    Target.isMethodName name ↔ NameText name.toList ∧ name ∉ Target.reserved := by
  have hname : Target.isIdentifier name ↔ NameText name.toList := by
    rw [Target.isIdentifier, NameText]
    cases name.toList with
    | nil => simp
    | cons c rest =>
      rw [Bool.and_eq_true, isIdentifierStart_iff, List.all_eq_true]
      simp only [isIdentifierPart_iff]
      constructor
      · rintro ⟨hfirst, hrest⟩
        exact ⟨c, rest, rfl, hfirst, hrest⟩
      · rintro ⟨_, _, hcons, hfirst, hrest⟩
        cases hcons
        exact ⟨hfirst, hrest⟩
  rw [Target.isMethodName, Bool.and_eq_true, hname]
  simp

/-- A program is lowered if and only if it is valid. -/
theorem lowerProgram_decides (supply : Supply ν) (program : Program) :
    Decides (lowerProgram supply program) program.Valid fun _ => True := by
  have hvalid : Target.isMethodName program.name ∧
      (∀ param ∈ program.params, param.ty ≠ .void) ∧
      Stmt.ValidBlock (program.params.map NameDef.name) program.body ↔ program.Valid := by
    rw [isMethodName_iff]
    exact ⟨fun ⟨⟨hname, hfree⟩, hparams, hbody⟩ => ⟨hname, hfree, hparams, hbody⟩,
      fun h => ⟨⟨h.name, h.free⟩, h.params, h.body⟩⟩
  have hempty : Env.empty.Covers [] := fun name => by simp [Env.empty]
  rw [← hvalid, lowerProgram]
  cases Target.isMethodName program.name with
  | false => exact fun _ hall => by cases hall.1
  | true =>
    refine Decides.congr ?_ (and_iff_right rfl).symm
    refine (lowerParams_decides supply hempty program.params).bind fun _ result hresult => ?_
    exact (lowerStmts_decides supply hresult program.body).map fun _ _ => trivial

end PixelLowering.Lower.Lexical

namespace PixelLowering.Lower

open PixelLowering.Names
open PixelLowering.Source

/-- Exact domain of lowering: at every width a program has a text if and only if it is valid. -/
theorem compiles_iff_valid (width : Nat) (program : Program) :
    (∃ text, (compile width program).1 = .ok text) ↔ program.Valid := by
  have hempty : Table.SameSupply {} {} := ⟨rfl, rfl⟩
  rw [Lexical.compile_eq Lexical.tableSupply_follows hempty width program fun _ _ => trivial,
    Lexical.compile]
  have hdecides := Lexical.lowerProgram_decides Lexical.tableSupply program {}
  cases hrun : (Lexical.lowerProgram Lexical.tableSupply program).run {} with
  | error reason =>
    rw [hrun] at hdecides
    constructor
    · rintro ⟨_, htext⟩
      cases htext
    · intro hvalid
      exact absurd hvalid hdecides
  | ok result =>
    rw [hrun] at hdecides
    exact ⟨fun _ => hdecides.1, fun _ => ⟨result.1.render width, rfl⟩⟩

end PixelLowering.Lower
