import PixelLowering.Proofs.Lexical.Agreement

/-! What lowering does to the names of the pass.

    Two things are read off here. A block that is lowered brings back the bindings it met, because
    the table can serve as the supply of lexical lowering. And whatever is lowered, with or without
    success, the table goes through a run of its own operations and nothing else, so what holds of
    all runs holds at every point of a pass. -/

namespace PixelLowering.Lower.Lexical

open PixelLowering.Names
open PixelLowering.Source

/-- The table as a supply. Its bindings play no part. -/
def tableSupply : Supply Table where
  declared name table := table.emitDeclared name
  flag table := table.temporary flagBase

/-- Where the next name comes from does not depend on bindings. -/
theorem sameSupply_emitNumbered {table after : Table} (h : table.SameSupply after)
    (key stem : String) (used : List String) :
    (after.emitNumbered key stem used).1 = (table.emitNumbered key stem used).1 ∧
      (table.emitNumbered key stem used).2.SameSupply (after.emitNumbered key stem used).2 := by
  have hcounter : after.counter key = table.counter key := by
    rw [Table.counter, Table.counter, h.counters]
  refine ⟨?_, ?_, ?_⟩
  · simp only [Table.emitNumbered, Table.emit, hcounter]
  · simp only [Table.emitNumbered, Table.emit, hcounter, h.emitted]
  · simp only [Table.emitNumbered, Table.emit, hcounter, h.counters]

theorem tableSupply_follows : Follows tableSupply (fun _ => True) Table.SameSupply where
  frame := by
    intro table after given hsame h
    exact ⟨h.emitted.trans hsame.emitted.symm, h.counters.trans hsame.counters.symm⟩
  declared := by
    intro table given name _ h
    have hunavailable : given.unavailable = table.unavailable := by
      rw [Table.unavailable, Table.unavailable, h.emitted]
    simp only [tableSupply, Table.emitDeclared, hunavailable]
    split
    · exact sameSupply_emitNumbered h _ _ _
    · exact ⟨rfl, by rw [Table.emit, Table.emit]; simp [h.emitted], h.counters⟩
  flag := by
    intro table given h
    simp only [tableSupply, Table.temporary, h.emitted]
    exact sameSupply_emitNumbered h _ _ _

/-- From an action of the pass that succeeds, the lexical one succeeds too. -/
theorem Agrees.ok {ν α β : Type} {post : α → β → Pass → ν → Prop} {pass after : Pass} {given : ν}
    {action : LowerM α} {lexical : LexicalM ν β} {a : α}
    (h : Agrees post pass given action lexical) (hrun : pass.run action = (.ok a, after)) :
    ∃ b given', lexical.run given = .ok (b, given') ∧ post a b after given' := by
  rw [Agrees] at h
  cases hlexical : lexical.run given with
  | error reason =>
    rw [hlexical] at h
    obtain ⟨last, hlast⟩ := h
    rw [hrun] at hlast
    cases hlast
  | ok result =>
    rw [hlexical] at h
    obtain ⟨a', after', hafter', hpost⟩ := h
    rw [hrun] at hafter'
    cases hafter'
    exact ⟨result.1, result.2, rfl, hpost⟩

/-- Lowering a block brings back all bindings. -/
theorem lowerBlock_sameBindings {pass after : Pass} {body : List Stmt} {code : List Target.Stmt}
    (h : pass.run (lowerBlock body) = (.ok code, after)) : pass.names.SameBindings after.names := by
  have hinside := lowerStmts_agrees tableSupply_follows pass.names.resolve?
    { pass with names := pass.names.enter } pass.names.enter rfl ⟨rfl, rfl⟩ body fun _ _ => trivial
  obtain ⟨_, _, _, _, _, hsame⟩ := (withScope_agrees tableSupply_follows hinside).ok h
  exact hsame

end PixelLowering.Lower.Lexical

namespace PixelLowering.Lower

open PixelLowering.Diagnostic
open PixelLowering.Names
open PixelLowering.Source

/-- The table after an action is the end of a run from the table before it. -/
def Pass.Reaches (pass after : Pass) : Prop := ∃ ops, after.names = (pass.names.run ops).2

theorem Pass.Reaches.refl (pass : Pass) : pass.Reaches pass := ⟨[], rfl⟩

theorem Pass.Reaches.trans {first second third : Pass} (h : first.Reaches second)
    (h' : second.Reaches third) : first.Reaches third := by
  obtain ⟨ops, hops⟩ := h
  obtain ⟨ops', hops'⟩ := h'
  exact ⟨ops ++ ops', by rw [Table.run_append, hops', hops]⟩

/-- One operation of the table. -/
theorem Pass.Reaches.step {pass after : Pass} (op : Op)
    (h : after.names = (pass.names.step op).2) : pass.Reaches after :=
  ⟨[op], h⟩

/-- An action whose effect on names is a run of table operations, however it ends. -/
def Steers {α : Type} (action : LowerM α) : Prop := ∀ pass : Pass, pass.Reaches (pass.run action).2

namespace Steers

variable {α β : Type}

theorem pure (a : α) : Steers (pure a) := fun pass => .refl pass

theorem bind {action : LowerM α} {next : α → LowerM β} (h : Steers action)
    (hnext : ∀ a, Steers (next a)) : Steers (action >>= next) := by
  intro pass
  have hfirst := h pass
  rw [Pass.run_bind]
  rcases hrun : pass.run action with ⟨result, after⟩
  rw [hrun] at hfirst
  cases result with
  | error stop => exact hfirst
  | ok a => exact hfirst.trans (hnext a after)

theorem ofExcept (result : Except Failure α) : Steers (ofExcept result) := by
  intro pass
  rw [Pass.run_ofExcept]
  exact .refl pass

theorem inScope (f : Env → Except Failure α) : Steers (inScope f) := by
  intro pass
  rw [Pass.run_inScope]
  exact .refl pass

theorem record (event : Event) : Steers (record event) := fun _ => ⟨[], rfl⟩

theorem declare (name : String) (ty : Ty) : Steers (declare name ty) := fun _ =>
  .step (.declare name ty) (Lexical.recordRenaming_names _ _ _)

theorem temporary (base : String) : Steers (temporary base) := fun _ =>
  .step (.temporary base) rfl

theorem withScope {action : LowerM α} (h : Steers action) : Steers (withScope action) := by
  have henter : Steers enter := fun _ => .step .enter rfl
  have hleave : Steers leave := by
    intro pass
    refine .step .leave ?_
    rw [Pass.run_leave, Table.step]
    cases pass.names.leave? <;> rfl
  exact henter.bind fun _ => h.bind fun a => hleave.bind fun _ => .pure a

end Steers

mutual

/-- Lowering a statement is a run of table operations. -/
theorem lowerStmt_steers : ∀ s : Stmt, Steers (lowerStmt s)
  | .decl target init? => by
    rw [lowerStmt, lowerDecl]
    refine .bind ?_ fun _ => .pure _
    exact (Steers.ofExcept _).bind fun ty => (Steers.inScope _).bind fun value? =>
      (Steers.declare _ _).bind fun emitted => (Steers.record _).bind fun _ => .pure _
  | .assign target value => by
    rw [lowerStmt]
    exact (Steers.inScope _).bind fun _ => .pure _
  | .write value => by
    rw [lowerStmt]
    exact (Steers.inScope _).bind fun _ => .pure _
  | .ret value => by
    rw [lowerStmt]
    exact (Steers.inScope _).bind fun _ => .pure _
  | .branch arms => by
    rw [lowerStmt]
    exact (lowerArms_steers arms).bind fun _ => .pure _
  | .loop arms => by
    rw [lowerStmt]
    split
    · exact .pure _
    · exact (Steers.temporary _).bind fun _ => (lowerArms_steers arms).bind fun _ => .pure _
  | .block body => by
    rw [lowerStmt]
    exact (lowerStmts_steers body).withScope.bind fun _ => .pure _

theorem lowerStmts_steers : ∀ body : List Stmt, Steers (lowerStmts body)
  | [] => .pure _
  | s :: rest => by
    rw [lowerStmts]
    exact (lowerStmt_steers s).bind fun _ => (lowerStmts_steers rest).bind fun _ => .pure _

theorem lowerArms_steers : ∀ arms : List (Guarded Stmt), Steers (lowerArms arms)
  | [] => .pure _
  | ⟨guard, body⟩ :: rest => by
    rw [lowerArms]
    exact (Steers.inScope _).bind fun _ => (lowerStmts_steers body).withScope.bind fun _ =>
      (lowerArms_steers rest).bind fun _ => .pure _

end

end PixelLowering.Lower
