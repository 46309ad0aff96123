import PixelLowering.Proofs.Lexical.Lowering
import PixelLowering.Proofs.Names.Run

/-! The pass and lexical lowering do the same, step by step.

    The pass keeps a stack of scopes in its state; lexical lowering has an environment instead. At
    every point of the walk the environment is what the stack resolves names to, and the supply
    stands in a relation to the table that lets both give the same next name.

        pass, table  ── lowerStmt s ──▶  after, table'
          │ resolve?                       │ resolve?
        env, given   ── lowerStmt s ──▶  env', given'

    `Agrees` is this square for one action; its rules follow the way actions are put together. -/

namespace PixelLowering.Names.Table

/-- What statements may do to the bindings of a table: parameters and outer scopes stay, and the
    innermost scope stays open. -/
structure Within (table after : Table) : Prop where
  parameters : after.parameters = table.parameters
  outer : after.scopes.tail = table.scopes.tail
  opened : table.scopes ≠ [] → after.scopes ≠ []

/-- All bindings are the same. -/
structure SameBindings (table after : Table) : Prop where
  parameters : after.parameters = table.parameters
  scopes : after.scopes = table.scopes

/-- Names are given the same way: the same ones are in use and searches start at the same place. -/
structure SameSupply (table after : Table) : Prop where
  emitted : after.emitted = table.emitted
  counters : after.counters = table.counters

theorem Within.trans {first second third : Table} (h : first.Within second)
    (h' : second.Within third) : first.Within third :=
  ⟨h'.parameters.trans h.parameters, h'.outer.trans h.outer, fun hne => h'.opened (h.opened hne)⟩

theorem SameBindings.refl (table : Table) : table.SameBindings table := ⟨rfl, rfl⟩

theorem SameBindings.trans {first second third : Table} (h : first.SameBindings second)
    (h' : second.SameBindings third) : first.SameBindings third :=
  ⟨h'.parameters.trans h.parameters, h'.scopes.trans h.scopes⟩

theorem SameBindings.within {table after : Table} (h : table.SameBindings after) :
    table.Within after :=
  ⟨h.parameters, by rw [h.scopes], fun hne => by rwa [h.scopes]⟩

theorem SameBindings.resolve? {table after : Table} (h : table.SameBindings after) :
    after.resolve? = table.resolve? := by
  funext name
  rw [Table.resolve?, Table.resolve?, lookup, lookup, visible, visible, h.parameters, h.scopes]

theorem Emits.sameBindings {table after : Table} {name : String} (h : table.Emits name after) :
    table.SameBindings after :=
  ⟨h.parameters, h.scopes⟩

theorem within_push (table : Table) (binding : Binding) : table.Within (table.push binding) := by
  refine ⟨parameters_push table binding, ?_, ?_⟩
  · rw [push]
    split
    · next h => rw [h]; rfl
    · next h => rw [h]; rfl
  · intro _
    rw [push]
    split <;> simp

theorem sameSupply_enter (table : Table) : table.SameSupply table.enter := ⟨rfl, rfl⟩

theorem sameSupply_declareParameter (table : Table) (name : String) (ty : Source.Ty) :
    (table.emitDeclared name).2.SameSupply (table.declareParameter name ty).2 :=
  ⟨rfl, rfl⟩

theorem sameSupply_push (table : Table) (binding : Binding) :
    table.SameSupply (table.push binding) :=
  ⟨emitted_push table binding, counters_push table binding⟩

end PixelLowering.Names.Table

namespace PixelLowering.Lower.Lexical

open PixelLowering.Diagnostic
open PixelLowering.Names
open PixelLowering.Source

variable {ν α β γ δ : Type}

/-- An action of the pass and a lexical one, both from a given state, have the same result: they
    fail for the same reason, or both succeed and end as `post` says. -/
def Agrees (post : α → β → Pass → ν → Prop) (pass : Pass) (given : ν) (action : LowerM α)
    (lexical : LexicalM ν β) : Prop :=
  match lexical.run given with
  | .ok (b, given') => ∃ a after, pass.run action = (.ok a, after) ∧ post a b after given'
  | .error reason => ∃ after, pass.run action = (.error (.failure reason), after)

namespace Agrees

variable {post : α → β → Pass → ν → Prop} {pass : Pass} {given : ν}

theorem pure {a : α} {b : β} (h : post a b pass given) :
    Agrees post pass given (pure a) (pure b) :=
  ⟨a, pass, rfl, h⟩

theorem bind {post' : γ → δ → Pass → ν → Prop} {action : LowerM α} {lexical : LexicalM ν β}
    {next : α → LowerM γ} {next' : β → LexicalM ν δ} (h : Agrees post pass given action lexical)
    (hnext : ∀ a b after given', post a b after given' →
      Agrees post' after given' (next a) (next' b)) :
    Agrees post' pass given (action >>= next) (lexical >>= next') := by
  rw [Agrees, StateT.run_bind]
  rw [Agrees] at h
  cases hrun : lexical.run given with
  | error reason =>
    rw [hrun] at h
    obtain ⟨after, hafter⟩ := h
    exact ⟨after, by rw [Pass.run_bind, hafter]⟩
  | ok result =>
    rw [hrun] at h
    obtain ⟨a, after, hafter, hpost⟩ := h
    have hstep := hnext a result.1 after result.2 hpost
    rw [Agrees] at hstep
    rw [Pass.run_bind, hafter]
    exact hstep

theorem mono {post' : α → β → Pass → ν → Prop} {action : LowerM α} {lexical : LexicalM ν β}
    (h : Agrees post pass given action lexical)
    (hpost : ∀ a b after given', post a b after given' → post' a b after given') :
    Agrees post' pass given action lexical := by
  rw [Agrees] at h ⊢
  cases hrun : lexical.run given with
  | error reason => rwa [hrun] at h
  | ok result =>
    rw [hrun] at h
    obtain ⟨a, after, hafter, ha⟩ := h
    exact ⟨a, after, hafter, hpost _ _ _ _ ha⟩

/-- A result that is there already is the same on both sides and changes neither state. -/
theorem ofExcept (result : Except Failure α) :
    Agrees (fun a b after given' => a = b ∧ pass = after ∧ given = given') pass given
      (ofExcept result) (liftM result) := by
  cases result with
  | error reason => exact ⟨pass, rfl⟩
  | ok a => exact ⟨a, pass, rfl, rfl, rfl, rfl⟩

/-- What only reads the names in scope may read them in the environment instead. -/
theorem inScope {env : Env} (henv : env = pass.names.resolve?) (f : Env → Except Failure α) :
    Agrees (fun a b after given' => a = b ∧ pass = after ∧ given = given') pass given
      (inScope f) (liftM (f env)) := by
  subst henv
  exact ofExcept (f pass.names.resolve?)

end Agrees

/-- A supply follows the table: from related states both give the same names and stay related, as
    long as declared names satisfy `ok`. Bindings play no part in this. -/
structure Follows (supply : Supply ν) (ok : String → Prop) (related : Table → ν → Prop) : Prop where
  frame : ∀ {table after : Table} {given : ν}, table.SameSupply after → related table given →
    related after given
  declared : ∀ {table : Table} {given : ν} {name : String}, ok name → related table given →
    (supply.declared name given).1 = (table.emitDeclared name).1 ∧
      related (table.emitDeclared name).2 (supply.declared name given).2
  flag : ∀ {table : Table} {given : ν}, related table given →
    (supply.flag given).1 = (table.temporary flagBase).1 ∧
      related (table.temporary flagBase).2 (supply.flag given).2

section

variable {supply : Supply ν} {ok : String → Prop} {related : Table → ν → Prop} {env : Env}
  {pass : Pass} {given : ν}

theorem recordRenaming_names (pass : Pass) (name emitted : String) :
    (pass.recordRenaming name emitted).names = pass.names := by
  rw [Pass.recordRenaming]
  split <;> rfl

/-- After a binding is added, that name resolves to it and all others as before. -/
theorem resolve?_push (table : Table) (binding : Binding) :
    (table.push binding).resolve? = Env.bind table.resolve? binding.name binding.emitted := by
  funext name
  rw [Env.bind, Table.resolve?, Table.lookup, Table.visible_push, List.find?_cons]
  by_cases h : name = binding.name
  · simp [h]
  · have h' : (binding.name == name) = false := by simpa using Ne.symm h
    rw [if_neg h, h']
    rfl

/-- A variable is declared: same name on both sides, and the environment is extended by it. -/
theorem declare_agrees (hs : Follows supply ok related) (henv : env = pass.names.resolve?)
    (hrel : related pass.names given) {name : String} (hok : ok name) (ty : Ty) :
    Agrees (fun a b after given' => a = b ∧ env.bind name a = after.names.resolve? ∧
        related after.names given' ∧ pass.names.Within after.names)
      pass given (Lower.declare name ty) (declare supply name) := by
  obtain ⟨hname, hrel'⟩ := hs.declared hok hrel
  have hemits := pass.names.emitDeclared_emits name
  refine ⟨(pass.declare name ty).1, (pass.declare name ty).2, rfl, hname.symm, ?_, ?_, ?_⟩
  · rw [Pass.declare, recordRenaming_names, Table.declare]
    rw [resolve?_push, henv, hemits.sameBindings.resolve?]
  · rw [Pass.declare, recordRenaming_names, Table.declare]
    exact hs.frame (Table.sameSupply_push _ _) hrel'
  · rw [Pass.declare, recordRenaming_names, Table.declare]
    exact hemits.sameBindings.within.trans (Table.within_push _ _)

/-- The flag of a loop: same name on both sides, and no binding changes. -/
theorem flag_agrees (hs : Follows supply ok related) (hrel : related pass.names given) :
    Agrees (fun a b after given' => a = b ∧ related after.names given' ∧
        pass.names.SameBindings after.names)
      pass given (temporary flagBase) (flag supply) := by
  obtain ⟨hname, hrel'⟩ := hs.flag hrel
  exact ⟨(pass.temporary flagBase).1, (pass.temporary flagBase).2, rfl, hname.symm, hrel',
    (pass.names.temporary_emits flagBase).sameBindings⟩

/-- Closing a scope after statements inside it brings back the bindings from before. -/
theorem withScope_agrees (hs : Follows supply ok related) {action : LowerM α}
    {lexical : LexicalM ν α}
    (h : Agrees (fun a b after given' => a = b ∧ related after.names given' ∧
        pass.names.enter.Within after.names)
      { pass with names := pass.names.enter } given action lexical) :
    Agrees (fun a b after given' => a = b ∧ related after.names given' ∧
        pass.names.SameBindings after.names)
      pass given (withScope action) lexical := by
  rw [Agrees] at h ⊢
  cases hrun : lexical.run given with
  | error reason =>
    rw [hrun] at h
    obtain ⟨after, hafter⟩ := h
    refine ⟨after, ?_⟩
    rw [withScope, Pass.run_bind, Pass.run_enter]
    simp only [Pass.run_bind, hafter]
  | ok result =>
    rw [hrun] at h
    obtain ⟨a, after, hafter, ha, hrel, hwithin⟩ := h
    obtain ⟨inner, hscopes⟩ : ∃ inner, after.names.scopes = inner :: pass.names.scopes := by
      cases hscopes : after.names.scopes with
      | nil => exact absurd hscopes (hwithin.opened (by simp [Table.enter]))
      | cons inner outer =>
        have houter := hwithin.outer
        rw [hscopes] at houter
        exact ⟨inner, by rw [← show outer = pass.names.scopes from houter]⟩
    have hleave : after.names.leave? = some { after.names with scopes := pass.names.scopes } := by
      rw [Table.leave?, hscopes]
    have hsupply : after.names.SameSupply { after.names with scopes := pass.names.scopes } :=
      ⟨rfl, rfl⟩
    refine ⟨a, { after with names := { after.names with scopes := pass.names.scopes } }, ?_, ha,
      hs.frame hsupply hrel, hwithin.parameters, rfl⟩
    rw [withScope, Pass.run_bind, Pass.run_enter]
    simp only [Pass.run_bind, hafter, Pass.run_leave, hleave, Pass.run_pure]

/-- How a statement ends: the same code on both sides, and the environment for what follows is what
    names resolve to. -/
def StmtPost (related : Table → ν → Prop) (pass : Pass) (code : List Target.Stmt)
    (result : List Target.Stmt × Env) (after : Pass) (given : ν) : Prop :=
  result = (code, after.names.resolve?) ∧ related after.names given ∧
    pass.names.Within after.names

/-- How the statements of a block end; what was declared in it is dropped next. -/
def BlockPost (related : Table → ν → Prop) (table : Table) (code code' : List Target.Stmt)
    (after : Pass) (given : ν) : Prop :=
  code = code' ∧ related after.names given ∧ table.Within after.names

/-- How something ends that leaves all bindings as they were. -/
def Restored (related : Table → ν → Prop) (pass : Pass) (a b : α) (after : Pass) (given : ν) :
    Prop :=
  a = b ∧ related after.names given ∧ pass.names.SameBindings after.names

/-- An action that leaves all bindings as they were is a statement whose environment goes on. -/
theorem stmtPost_of_restored (henv : env = pass.names.resolve?) {action : LowerM α}
    {lexical : LexicalM ν α} (h : Agrees (Restored related pass) pass given action lexical)
    (code : α → List Target.Stmt) :
    Agrees (StmtPost related pass) pass given (action >>= fun a => pure (code a))
      (lexical >>= fun a => pure (code a, env)) := by
  refine h.bind ?_
  rintro a b after given' ⟨rfl, hrel, hsame⟩
  exact .pure ⟨by rw [hsame.resolve?, henv], hrel, hsame.within⟩

/-- Reading the names in scope leaves all bindings as they were. -/
theorem inScope_restored (henv : env = pass.names.resolve?) (hrel : related pass.names given)
    (f : Env → Except Failure α) :
    Agrees (Restored related pass) pass given (inScope f) (liftM (f env)) := by
  refine (Agrees.inScope henv f).mono ?_
  rintro a b after given' ⟨rfl, rfl, rfl⟩
  exact ⟨rfl, hrel, .refl _⟩

theorem lowerDecl_agrees (hs : Follows supply ok related) (henv : env = pass.names.resolve?)
    (hrel : related pass.names given) (target : NameDef) (init? : Option Expr)
    (hok : ok target.name) :
    Agrees (StmtPost related pass) pass given (Lower.lowerStmt (.decl target init?))
      (lowerStmt supply env (.decl target init?)) := by
  rw [Lower.lowerStmt, lowerDecl, lowerStmt]
  simp only [bind_assoc]
  refine (Agrees.ofExcept _).bind ?_
  rintro ty _ _ _ ⟨rfl, rfl, rfl⟩
  refine (Agrees.inScope henv (lowerInitial · target init?)).bind ?_
  rintro value? _ _ _ ⟨rfl, rfl, rfl⟩
  refine (declare_agrees hs henv hrel hok target.ty).bind ?_
  rintro emitted _ after given' ⟨rfl, henv', hrel', hwithin⟩
  refine ⟨[.declare ty emitted value?], after.record (.declared target.name emitted target.ty), rfl,
    ?_, hrel', hwithin⟩
  rw [henv']
  rfl

mutual

theorem lowerStmt_agrees (hs : Follows supply ok related) (env : Env) (pass : Pass) (given : ν)
    (henv : env = pass.names.resolve?) (hrel : related pass.names given) :
    ∀ s : Stmt, (∀ name ∈ s.declaredNames, ok name) →
      Agrees (StmtPost related pass) pass given (Lower.lowerStmt s) (lowerStmt supply env s)
  | .decl target init?, hok =>
    lowerDecl_agrees hs henv hrel target init? (hok _ (by simp [Stmt.declaredNames]))
  | .assign target value, _ => by
    rw [Lower.lowerStmt, lowerStmt]
    exact stmtPost_of_restored henv (inScope_restored henv hrel (lowerAssign · target value)) _
  | .write value, _ => by
    rw [Lower.lowerStmt, lowerStmt]
    exact stmtPost_of_restored henv (inScope_restored henv hrel (lowerWrite · value)) _
  | .ret value, _ => by
    rw [Lower.lowerStmt, lowerStmt]
    exact stmtPost_of_restored henv (inScope_restored henv hrel (lowerReturned · value)) _
  | .branch arms, hok => by
    rw [Lower.lowerStmt, lowerStmt]
    rw [Stmt.declaredNames] at hok
    exact stmtPost_of_restored henv (lowerArms_agrees hs env pass given henv hrel arms hok) _
  | .loop arms, hok => by
    rw [Lower.lowerStmt, lowerStmt]
    rw [Stmt.declaredNames] at hok
    split
    · exact .pure ⟨by rw [henv], hrel, (Table.SameBindings.refl _).within⟩
    · refine (flag_agrees hs hrel).bind ?_
      rintro name _ after given' ⟨rfl, hrel', hsame⟩
      have henv' : env = after.names.resolve? := by rw [hsame.resolve?, henv]
      refine (stmtPost_of_restored henv'
        (lowerArms_agrees hs env after given' henv' hrel' arms hok) _).mono ?_
      rintro code result last given'' ⟨rfl, hrel'', hwithin⟩
      exact ⟨rfl, hrel'', hsame.within.trans hwithin⟩
  | .block body, hok => by
    rw [Lower.lowerStmt, lowerStmt]
    rw [Stmt.declaredNames] at hok
    refine stmtPost_of_restored henv ?_ _
    exact withScope_agrees hs
      (lowerStmts_agrees hs env { pass with names := pass.names.enter } given henv
        (hs.frame pass.names.sameSupply_enter hrel) body hok)

theorem lowerStmts_agrees (hs : Follows supply ok related) (env : Env) (pass : Pass) (given : ν)
    (henv : env = pass.names.resolve?) (hrel : related pass.names given) :
    ∀ body : List Stmt, (∀ name ∈ Stmt.declaredIn body, ok name) →
      Agrees (BlockPost related pass.names) pass given (Lower.lowerStmts body)
        (lowerStmts supply env body)
  | [], _ => .pure ⟨rfl, hrel, (Table.SameBindings.refl _).within⟩
  | s :: rest, hok => by
    rw [Stmt.declaredIn, List.forall_mem_append] at hok
    rw [Lower.lowerStmts, lowerStmts]
    refine (lowerStmt_agrees hs env pass given henv hrel s hok.1).bind ?_
    rintro code _ after given' ⟨rfl, hrel', hwithin⟩
    refine (lowerStmts_agrees hs _ after given' rfl hrel' rest hok.2).bind ?_
    rintro others _ last given'' ⟨rfl, hrel'', hwithin'⟩
    exact .pure ⟨rfl, hrel'', hwithin.trans hwithin'⟩

theorem lowerArms_agrees (hs : Follows supply ok related) (env : Env) (pass : Pass) (given : ν)
    (henv : env = pass.names.resolve?) (hrel : related pass.names given) :
    ∀ arms : List (Guarded Stmt), (∀ name ∈ Stmt.declaredInArms arms, ok name) →
      Agrees (Restored related pass) pass given (Lower.lowerArms arms) (lowerArms supply env arms)
  | [], _ => .pure ⟨rfl, hrel, .refl _⟩
  | ⟨guard, body⟩ :: rest, hok => by
    rw [Stmt.declaredInArms, List.forall_mem_append] at hok
    rw [Lower.lowerArms, lowerArms]
    refine (Agrees.inScope henv (lowerExpr · guard)).bind ?_
    rintro test _ _ _ ⟨rfl, rfl, rfl⟩
    refine (withScope_agrees hs (lowerStmts_agrees hs env { pass with names := pass.names.enter }
      given henv (hs.frame pass.names.sameSupply_enter hrel) body hok.1)).bind ?_
    rintro code _ after given' ⟨rfl, hrel', hsame⟩
    have henv' : env = after.names.resolve? := by rw [hsame.resolve?, henv]
    refine (lowerArms_agrees hs env after given' henv' hrel' rest hok.2).bind ?_
    rintro others _ last given'' ⟨rfl, hrel'', hsame'⟩
    exact .pure ⟨rfl, hrel'', hsame.trans hsame'⟩

end

/-- A parameter is bound while no scope is open: the environment is extended by it. -/
theorem declareParameter_agrees (hs : Follows supply ok related)
    (henv : env = pass.names.resolve?) (hrel : related pass.names given)
    (hscopes : pass.names.scopes = []) {name : String} (hok : ok name) (ty : Ty) :
    Agrees (fun a b after given' => a = b ∧ env.bind name a = after.names.resolve? ∧
        related after.names given' ∧ after.names.scopes = [])
      pass given (Lower.declareParameter name ty) (declare supply name) := by
  obtain ⟨hname, hrel'⟩ := hs.declared hok hrel
  have hemits := pass.names.emitDeclared_emits name
  have hscopes' : (pass.names.emitDeclared name).2.scopes = [] := by rw [hemits.scopes, hscopes]
  -- with no scope open, a new parameter is found before every other binding
  have hresolve : (pass.names.declareParameter name ty).2.resolve? =
      ((pass.names.emitDeclared name).2.push
        ⟨name, (pass.names.emitDeclared name).1, ty, 0⟩).resolve? := by
    funext other
    rw [Table.resolve?, Table.lookup, Table.resolve?, Table.lookup, Table.visible_push,
      Table.declareParameter, Table.visible, Table.visible, hscopes']
    rfl
  refine ⟨(pass.declareParameter name ty).1, (pass.declareParameter name ty).2, rfl, hname.symm,
    ?_, ?_, ?_⟩
  · rw [Pass.declareParameter, recordRenaming_names, hresolve, resolve?_push, henv,
      hemits.sameBindings.resolve?]
    rfl
  · rw [Pass.declareParameter, recordRenaming_names]
    exact hs.frame (pass.names.sameSupply_declareParameter name ty) hrel'
  · rw [Pass.declareParameter, recordRenaming_names]
    exact hscopes'

theorem lowerParams_agrees (hs : Follows supply ok related) (env : Env) (pass : Pass) (given : ν)
    (henv : env = pass.names.resolve?) (hrel : related pass.names given)
    (hscopes : pass.names.scopes = []) :
    ∀ params : List NameDef, (∀ name ∈ params.map NameDef.name, ok name) →
      Agrees (fun code result after given' => result = (code, after.names.resolve?) ∧
          related after.names given')
        pass given (Lower.lowerParams params) (lowerParams supply env params)
  | [], _ => .pure ⟨by rw [henv], hrel⟩
  | param :: rest, hok => by
    rw [List.map_cons, List.forall_mem_cons] at hok
    rw [Lower.lowerParams, lowerParam, lowerParams]
    simp only [bind_assoc, pure_bind]
    refine (Agrees.ofExcept _).bind ?_
    rintro ty _ _ _ ⟨rfl, rfl, rfl⟩
    refine (declareParameter_agrees hs henv hrel hscopes hok.1 param.ty).bind ?_
    rintro emitted _ after given' ⟨rfl, henv', hrel', hscopes'⟩
    refine (lowerParams_agrees hs _ after given' henv' hrel' hscopes' rest hok.2).bind ?_
    rintro params _ last given'' ⟨rfl, hrel''⟩
    exact .pure ⟨rfl, hrel''⟩

theorem lowerProgram_agrees (hs : Follows supply ok related) (log : List Event)
    (hrel : related {} given) (program : Program) (hok : ∀ name ∈ program.declaredNames, ok name) :
    Agrees (fun method method' _ _ => method = method') ⟨{}, log⟩ given
      (Lower.lowerProgram program) (lowerProgram supply program) := by
  rw [Program.declaredNames, List.forall_mem_append] at hok
  rw [Lower.lowerProgram, lowerProgram]
  cases Target.isMethodName program.name with
  | false => exact ⟨⟨{}, log⟩, rfl⟩
  | true =>
    simp only [if_true]
    refine (lowerParams_agrees hs .empty ⟨{}, log⟩ given rfl hrel rfl program.params hok.1).bind ?_
    rintro params _ after given' ⟨rfl, hrel'⟩
    refine (withScope_agrees hs (lowerStmts_agrees hs _
      { after with names := after.names.enter } given' rfl
      (hs.frame after.names.sameSupply_enter hrel') program.body hok.2)).bind ?_
    rintro body _ last given'' ⟨rfl, -, -⟩
    exact .pure rfl

/-- A supply that follows the table from the start gives the same text or the same failure. -/
theorem compile_eq (hs : Follows supply ok related) (hrel : related {} given) (width : Nat)
    (program : Program) (hok : ∀ name ∈ program.declaredNames, ok name) :
    (Lower.compile width program).1 = (compile supply given width program).mapError .failure := by
  have h := lowerProgram_agrees hs [.compiling program.name program.params.length] hrel program hok
  rw [Agrees] at h
  rw [Lower.compile, compileProgram, compile, Pass.run_bind, Pass.run_record]
  simp only [Pass.record, List.nil_append, Pass.run_bind]
  cases hrun : (lowerProgram supply program).run given with
  | error reason =>
    rw [hrun] at h
    obtain ⟨after, hafter⟩ := h
    rw [hafter]
    rfl
  | ok result =>
    rw [hrun] at h
    obtain ⟨method, after, hafter, rfl⟩ := h
    rw [hafter]
    rfl

end

end PixelLowering.Lower.Lexical
