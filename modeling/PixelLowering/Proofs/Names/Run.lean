import PixelLowering.Names.Table

/-! Runs of table operations, and what a single operation can do to a table.

    A run is any list of operations, whether or not scopes are opened and closed in pairs; closing
    a scope when none is open changes nothing. The names that come back are kept in order, so the
    history of a run stands beside the table that it ends in.

        enter   declare x   declare x   temporary b   leave        operations
                x           x_0         b$0                        names given

    Every name is given in one of two ways, by `emitDeclared` or by `temporary`, and `Emits` says
    all that later proofs need to know about either. -/

namespace PixelLowering.Names

open PixelLowering.Source

/-- An operation on the names of a method. -/
inductive Op where
  | enter
  | leave
  | parameter (name : String) (ty : Ty)
  | declare (name : String) (ty : Ty)
  | temporary (base : String)
  deriving Repr, DecidableEq

namespace Table

/-- One operation: the name it gives, if it gives one, and the table after it. -/
def step (table : Table) : Op → Option String × Table
  | .enter => (none, table.enter)
  | .leave => (none, table.leave?.getD table)
  | .parameter name ty => (table.declareParameter name ty).map some id
  | .declare name ty => (table.declare name ty).map some id
  | .temporary base => (table.temporary base).map some id

/-- A run: the names it gives, in order, and the table it ends in. -/
def run (table : Table) : List Op → List String × Table
  | [] => ([], table)
  | op :: rest =>
    let (name?, next) := table.step op
    let (names, last) := next.run rest
    (name?.toList ++ names, last)

@[simp] theorem run_nil (table : Table) : table.run [] = ([], table) := rfl

@[simp] theorem run_cons (table : Table) (op : Op) (rest : List Op) :
    table.run (op :: rest) =
      ((table.step op).1.toList ++ ((table.step op).2.run rest).1,
        ((table.step op).2.run rest).2) := rfl

/-- A run in two parts: the second part starts where the first one ends. -/
theorem run_append (table : Table) (first second : List Op) :
    table.run (first ++ second) =
      ((table.run first).1 ++ ((table.run first).2.run second).1,
        ((table.run first).2.run second).2) := by
  induction first generalizing table with
  | nil => rfl
  | cons op rest ih => simp [ih]

/-! ### What giving a name does -/

/-- A name is given: one that nothing in the method has and that is not forbidden. It is in use
    from now on; bindings stay as they are. -/
structure Emits (table : Table) (name : String) (after : Table) : Prop where
  fresh : name ∉ table.emitted
  allowed : name ∉ forbidden
  emitted : after.emitted = name :: table.emitted
  parameters : after.parameters = table.parameters
  scopes : after.scopes = table.scopes

theorem Emits.visible {table after : Table} {name : String} (he : table.Emits name after) :
    after.visible = table.visible := by
  rw [Table.visible, Table.visible, he.scopes, he.parameters]

theorem emitDeclared_emits (table : Table) (name : String) :
    table.Emits (table.emitDeclared name).1 (table.emitDeclared name).2 := by
  have hfree : (table.emitDeclared name).1 ∉ table.unavailable := by
    rw [emitDeclared]
    split
    · exact numbered_firstFree_not_mem _ _ _
    · next h => simpa [emit] using h
  rw [unavailable, List.mem_append, not_or] at hfree
  refine ⟨hfree.1, hfree.2, ?_, ?_, ?_⟩ <;>
    · rw [emitDeclared]
      split <;> rfl

/-- No forbidden name has a dollar sign. -/
theorem dollar_not_mem_of_forbidden : ∀ name ∈ forbidden, '$' ∉ name.toList := by
  decide +kernel

theorem temporary_emits (table : Table) (base : String) :
    table.Emits (table.temporary base).1 (table.temporary base).2 := by
  refine ⟨numbered_firstFree_not_mem _ _ _, ?_, rfl, rfl, rfl⟩
  -- the forbidden names are not asked, but a name with a dollar sign is none of them
  intro hmem
  apply dollar_not_mem_of_forbidden _ hmem
  simp [temporary, emitNumbered, emit, numbered]

/-! ### Views of the table after each operation -/

@[simp] theorem visible_enter (table : Table) : table.enter.visible = table.visible := rfl

@[simp] theorem visible_push (table : Table) (binding : Binding) :
    (table.push binding).visible = binding :: table.visible := by
  rw [push, visible, visible]
  split
  · next h => simp [h]
  · next h => simp [h]

@[simp] theorem emitted_push (table : Table) (binding : Binding) :
    (table.push binding).emitted = table.emitted := by
  rw [push]
  split <;> rfl

@[simp] theorem counters_push (table : Table) (binding : Binding) :
    (table.push binding).counters = table.counters := by
  rw [push]
  split <;> rfl

@[simp] theorem parameters_push (table : Table) (binding : Binding) :
    (table.push binding).parameters = table.parameters := by
  rw [push]
  split <;> rfl

/-- Closing a scope, if one is open, drops the innermost scope and nothing else. -/
theorem leave?_getD (table : Table) :
    table.leave?.getD table = { table with scopes := table.scopes.tail } := by
  cases table with
  | mk parameters scopes emitted counters => cases scopes <;> rfl

/-- The names in use after an operation: those before it and the name it gives. -/
theorem emitted_step (table : Table) (op : Op) :
    (table.step op).2.emitted = (table.step op).1.toList ++ table.emitted := by
  cases op with
  | enter => rfl
  | leave => simp [step, leave?_getD]
  | parameter name ty => exact (table.emitDeclared_emits name).emitted
  | declare name ty =>
    simp only [step, declare, Prod.map, id, emitted_push]
    exact (table.emitDeclared_emits name).emitted
  | temporary base => rfl

/-- The names in use after a run: those before it and the names it gives, the latest first. -/
theorem emitted_run (table : Table) (ops : List Op) :
    (table.run ops).2.emitted = (table.run ops).1.reverse ++ table.emitted := by
  induction ops generalizing table with
  | nil => rfl
  | cons op rest ih =>
    rw [run_cons, ih, emitted_step]
    cases (table.step op).1 <;> simp

end Table

end PixelLowering.Names
