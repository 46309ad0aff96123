import PixelLowering.Lower.Statement
import PixelLowering.Proofs.Faults.Visits
import PixelLowering.Proofs.Names.Run

/-! The walk of a statement: everything that lowering looks at and everything that it does to the
    names of the method, in the order of evaluation.

        { int x ← a;  do g → { int y ← b; write(y) } od }

        enter  look a  declare x  flag  look g  enter  look b   declare y  look y    leave  leave
               [ ]                      [x]            [ ] [x]             [y] [x]

    Below every look stand the blocks that are open there, the innermost one first, each with the
    names declared in it by then. They are read off the tree alone. The table agrees: wherever a
    walk has come to, the scopes of the table are one for each open block, on top of the scopes from
    before the statement, which nothing inside the statement can touch. -/

namespace PixelLowering.Lower

open PixelLowering.Names
open PixelLowering.Source

/-- A step of a walk: a look at a node from within some open blocks, or an operation on names. -/
inductive Step where
  | look (blocks : List (List String)) (node : Node)
  | act (op : Op)

/-- The operations on names among some steps. -/
def ops (steps : List Step) : List Op :=
  steps.filterMap fun
    | .look .. => none
    | .act op => some op

/-- Looks at nodes from one place. -/
def looks (blocks : List (List String)) (nodes : List Node) : List Step := nodes.map (.look blocks)

mutual

/-- The walk of a statement inside of `blocks`. The blocks themselves see the names `outer`. -/
def walkStmt (outer : List String) (blocks : List (List String)) : Stmt → List Step
  | .decl target init? =>
    looks blocks (target.visits (blocks.flatten ++ outer) init?) ++
      [.act (.declare target.name target.ty)]
  | .assign target value => looks blocks (target.visits (blocks.flatten ++ outer) value)
  | .write value => looks blocks (value.visits (blocks.flatten ++ outer))
  | .ret value => looks blocks (.returned value :: value.visits (blocks.flatten ++ outer))
  | .branch arms => walkArms outer blocks arms
  | .loop arms =>
    if arms.isEmpty then [] else .act (.temporary flagBase) :: walkArms outer blocks arms
  | .block body => .act .enter :: (walkInside outer blocks [] body ++ [.act .leave])

/-- The walk of the statements that follow in a block in which `inner` is declared by now. -/
def walkInside (outer : List String) (blocks : List (List String)) (inner : List String) :
    List Stmt → List Step
  | [] => []
  | s :: rest =>
    walkStmt outer (inner :: blocks) s ++ walkInside outer blocks (s.scopeAfter inner) rest

/-- The walk of guarded blocks, each guard before its block. -/
def walkArms (outer : List String) (blocks : List (List String)) :
    List (Guarded Stmt) → List Step
  | [] => []
  | ⟨guard, body⟩ :: rest =>
    looks blocks (guard.visits (blocks.flatten ++ outer)) ++
      ((.act .enter :: (walkInside outer blocks [] body ++ [.act .leave])) ++
        walkArms outer blocks rest)

end

/-- The walk of a block. -/
def walkBlock (outer : List String) (blocks : List (List String)) (body : List Stmt) : List Step :=
  .act .enter :: (walkInside outer blocks [] body ++ [.act .leave])

theorem walkStmt_block (outer : List String) (blocks : List (List String)) (body : List Stmt) :
    walkStmt outer blocks (.block body) = walkBlock outer blocks body := rfl

theorem walkArms_cons (outer : List String) (blocks : List (List String)) (guard : Expr)
    (body : List Stmt) (rest : List (Guarded Stmt)) :
    walkArms outer blocks (⟨guard, body⟩ :: rest) =
      looks blocks (guard.visits (blocks.flatten ++ outer)) ++
        (walkBlock outer blocks body ++ walkArms outer blocks rest) := rfl

@[simp] theorem ops_nil : ops [] = [] := rfl

@[simp] theorem ops_cons_look (blocks : List (List String)) (node : Node) (rest : List Step) :
    ops (.look blocks node :: rest) = ops rest := rfl

@[simp] theorem ops_cons_act (op : Op) (rest : List Step) :
    ops (.act op :: rest) = op :: ops rest := rfl

@[simp] theorem ops_append (first second : List Step) :
    ops (first ++ second) = ops first ++ ops second :=
  List.filterMap_append

@[simp] theorem ops_looks (blocks : List (List String)) (nodes : List Node) :
    ops (looks blocks nodes) = [] := by
  rw [looks, ops, List.filterMap_map]
  exact List.filterMap_eq_nil_iff.2 fun _ _ => rfl

end PixelLowering.Lower

namespace PixelLowering.Names.Table

open PixelLowering.Source

theorem run_append_snd (table : Table) (first second : List Op) :
    (table.run (first ++ second)).2 = ((table.run first).2.run second).2 := by
  rw [run_append]

/-! ### Where a table stands -/

/-- A table stands inside of `blocks`, seen from `base`: parameters are those of `base`, and above
    the scopes of `base` there is one scope for each block, with bindings for its names. -/
structure Stands (base table : Table) (blocks : List (List String)) : Prop where
  parameters : table.parameters = base.parameters
  scopes : ∃ extra, table.scopes = extra ++ base.scopes ∧
    extra.map (List.map Binding.name) = blocks

namespace Stands

variable {base table : Table} {blocks : List (List String)} {inner : List String}

theorem start (base : Table) : base.Stands base [] := ⟨rfl, [], rfl, rfl⟩

theorem enter (h : base.Stands table blocks) :
    base.Stands (table.step .enter).2 ([] :: blocks) := by
  obtain ⟨extra, hscopes, rfl⟩ := h.scopes
  refine ⟨h.parameters, [] :: extra, ?_, rfl⟩
  simp [step, Table.enter, hscopes]

/-- The innermost scope of a table that stands in a block. -/
theorem scopes_cons (h : base.Stands table (inner :: blocks)) :
    ∃ scope extra, table.scopes = scope :: (extra ++ base.scopes) ∧
      scope.map Binding.name = inner ∧ extra.map (List.map Binding.name) = blocks := by
  obtain ⟨extra, hscopes, hnames⟩ := h.scopes
  cases extra with
  | nil => cases hnames
  | cons scope extra =>
    obtain ⟨hscope, hextra⟩ := List.cons_eq_cons.1 hnames
    exact ⟨scope, extra, hscopes, hscope, hextra⟩

theorem leave (h : base.Stands table (inner :: blocks)) :
    base.Stands (table.step .leave).2 blocks := by
  obtain ⟨scope, extra, hscopes, -, hextra⟩ := h.scopes_cons
  rw [step, leave?_getD]
  exact ⟨h.parameters, extra, by simp [hscopes], hextra⟩

theorem declare (h : base.Stands table (inner :: blocks)) (name : String) (ty : Ty) :
    base.Stands (table.step (.declare name ty)).2 ((name :: inner) :: blocks) := by
  obtain ⟨scope, extra, hscopes, rfl, rfl⟩ := h.scopes_cons
  have hemits := table.emitDeclared_emits name
  simp only [step, Table.declare, Prod.map, id]
  refine ⟨?_, ?_⟩
  · rw [parameters_push, hemits.parameters]
    exact h.parameters
  · rw [push, hemits.scopes, hscopes]
    exact ⟨_ :: extra, rfl, rfl⟩

theorem temporary (h : base.Stands table blocks) (stem : String) :
    base.Stands (table.step (.temporary stem)).2 blocks :=
  ⟨h.parameters, h.scopes⟩

/-- The names that are visible: those of the blocks, then those from before. -/
theorem map_name_visible (h : base.Stands table blocks) :
    table.visible.map Binding.name = blocks.flatten ++ base.visible.map Binding.name := by
  obtain ⟨extra, hscopes, rfl⟩ := h.scopes
  simp [visible, hscopes, h.parameters, List.map_flatten]

/-- A name that no block declares means what it meant before. -/
theorem lookup_eq (h : base.Stands table blocks) {name : String} (hname : name ∉ blocks.flatten) :
    table.lookup name = base.lookup name := by
  obtain ⟨extra, hscopes, rfl⟩ := h.scopes
  have hnone : extra.flatten.find? (·.name == name) = none := by
    rw [List.find?_eq_none]
    intro b hb hbname
    refine hname ?_
    rw [← List.map_flatten, ← eq_of_beq hbname]
    exact List.mem_map_of_mem hb
  rw [lookup, lookup, visible, visible, hscopes, h.parameters, List.flatten_append,
    List.append_assoc, List.find?_append, hnone, Option.none_or]

end Stands

end PixelLowering.Names.Table

namespace PixelLowering.Lower

open PixelLowering.Names
open PixelLowering.Source

/-! ### Where a walk comes to -/

/-- The blocks after a statement: a declaration adds its name to the innermost one. -/
def blocksAfter (s : Stmt) : List (List String) → List (List String)
  | [] => []
  | inner :: blocks => s.scopeAfter inner :: blocks

section

variable (outer : List String) {base : Table}

/-- A block ends outside of it again, if its statements end inside. -/
theorem stands_walkBlock {table : Table} {blocks : List (List String)} {body : List Stmt}
    (h : ∃ last, base.Stands
      ((table.step .enter).2.run (ops (walkInside outer blocks [] body))).2 (last :: blocks)) :
    base.Stands (table.run (ops (walkBlock outer blocks body))).2 blocks := by
  obtain ⟨last, hlast⟩ := h
  simp only [walkBlock, ops_cons_act, ops_append, ops_nil, Table.run_cons, Table.run_append_snd,
    Table.run_nil]
  exact hlast.leave

mutual

/-- After a statement the table stands where it stood, with the name of a declaration added to the
    innermost block. A declaration outside of all blocks is left out here. -/
theorem stands_walkStmt {table : Table} {blocks : List (List String)}
    (h : base.Stands table blocks) : ∀ s : Stmt,
    (∀ target init?, s = .decl target init? → blocks ≠ []) →
      base.Stands (table.run (ops (walkStmt outer blocks s))).2 (blocksAfter s blocks)
  | .decl target init?, hs => by
    obtain ⟨inner, blocks, rfl⟩ := List.exists_cons_of_ne_nil (hs target init? rfl)
    simp only [walkStmt, ops_append, ops_looks, ops_cons_act, ops_nil, List.nil_append]
    exact h.declare target.name target.ty
  -- no other statement changes the blocks that it stands in
  | .assign target value, _ | .write value, _ | .ret value, _ => by
    simp only [walkStmt, ops_looks]
    cases blocks <;> exact h
  | .branch arms, _ => by
    simp only [walkStmt]
    cases blocks <;> exact stands_walkArms h arms
  | .loop arms, _ => by
    rw [walkStmt]
    split
    · cases blocks <;> exact h
    · cases blocks <;> exact stands_walkArms (h.temporary flagBase) arms
  | .block body, _ => by
    rw [walkStmt_block]
    have hblock := stands_walkBlock outer (stands_walkInside h.enter body)
    cases blocks <;> exact hblock

/-- After the statements of a block the table still stands in that block. -/
theorem stands_walkInside {table : Table} {blocks : List (List String)} {inner : List String}
    (h : base.Stands table (inner :: blocks)) : ∀ body : List Stmt,
      ∃ last, base.Stands (table.run (ops (walkInside outer blocks inner body))).2 (last :: blocks)
  | [] => ⟨inner, h⟩
  | s :: rest => by
    rw [walkInside, ops_append, Table.run_append_snd]
    exact stands_walkInside (stands_walkStmt h s fun _ _ _ => List.cons_ne_nil _ _) rest

theorem stands_walkArms {table : Table} {blocks : List (List String)}
    (h : base.Stands table blocks) : ∀ arms : List (Guarded Stmt),
      base.Stands (table.run (ops (walkArms outer blocks arms))).2 blocks
  | [] => h
  | ⟨guard, body⟩ :: rest => by
    rw [walkArms_cons, ops_append, ops_looks, List.nil_append, ops_append, Table.run_append_snd]
    exact stands_walkArms (stands_walkBlock outer (stands_walkInside h.enter body)) rest

end

/-! ### What every look sees -/

/-- From a table on, every look of a walk is taken from where the table stands then. -/
def Placed (base : Table) : Table → List Step → Prop
  | _, [] => True
  | table, .look blocks _ :: rest => base.Stands table blocks ∧ Placed base table rest
  | table, .act op :: rest => Placed base (table.step op).2 rest

theorem placed_append {table : Table} {first second : List Step} :
    Placed base table (first ++ second) ↔
      Placed base table first ∧ Placed base (table.run (ops first)).2 second := by
  induction first generalizing table with
  | nil => simp [Placed]
  | cons step rest ih =>
    cases step with
    | look blocks node => simp only [List.cons_append, Placed, ih, ops_cons_look, and_assoc]
    | act op => simp only [List.cons_append, Placed, ih, ops_cons_act, Table.run_cons]

theorem placed_looks {table : Table} {blocks : List (List String)} (h : base.Stands table blocks)
    (nodes : List Node) : Placed base table (looks blocks nodes) := by
  induction nodes with
  | nil => trivial
  | cons node rest ih => exact ⟨h, ih⟩

/-- At a look the table stands inside of the blocks of that look. -/
theorem Placed.stands {table : Table} {before rest : List Step} {blocks : List (List String)}
    {node : Node} (h : Placed base table (before ++ .look blocks node :: rest)) :
    base.Stands (table.run (ops before)).2 blocks :=
  (placed_append.1 h).2.1

theorem placed_walkBlock {table : Table} {blocks : List (List String)} {body : List Stmt}
    (h : Placed base (table.step .enter).2 (walkInside outer blocks [] body)) :
    Placed base table (walkBlock outer blocks body) :=
  placed_append.2 ⟨h, trivial⟩

mutual

theorem placed_walkStmt {table : Table} {blocks : List (List String)}
    (h : base.Stands table blocks) : ∀ s : Stmt, Placed base table (walkStmt outer blocks s)
  | .decl target init? => by
    rw [walkStmt]
    exact placed_append.2 ⟨placed_looks h _, trivial⟩
  | .assign target value | .write value | .ret value => by
    rw [walkStmt]
    exact placed_looks h _
  | .branch arms => by
    rw [walkStmt]
    exact placed_walkArms h arms
  | .loop arms => by
    rw [walkStmt]
    split
    · trivial
    · exact placed_walkArms (h.temporary flagBase) arms
  | .block body => by
    rw [walkStmt_block]
    exact placed_walkBlock outer (placed_walkInside h.enter body)

theorem placed_walkInside {table : Table} {blocks : List (List String)} {inner : List String}
    (h : base.Stands table (inner :: blocks)) : ∀ body : List Stmt,
      Placed base table (walkInside outer blocks inner body)
  | [] => trivial
  | s :: rest => by
    have hnext := stands_walkStmt outer h s fun _ _ _ => List.cons_ne_nil _ _
    rw [walkInside]
    exact placed_append.2 ⟨placed_walkStmt h s, placed_walkInside hnext rest⟩

theorem placed_walkArms {table : Table} {blocks : List (List String)}
    (h : base.Stands table blocks) : ∀ arms : List (Guarded Stmt),
      Placed base table (walkArms outer blocks arms)
  | [] => trivial
  | ⟨guard, body⟩ :: rest => by
    have hafter := stands_walkBlock outer (stands_walkInside outer h.enter body)
    rw [walkArms_cons]
    refine placed_append.2 ⟨placed_looks h _, ?_⟩
    rw [ops_looks]
    exact placed_append.2
      ⟨placed_walkBlock outer (placed_walkInside h.enter body), placed_walkArms hafter rest⟩

end

end

end PixelLowering.Lower
