import PixelLowering.Proofs.Faults.Provenance
import PixelLowering.Proofs.Log.Journal
import PixelLowering.Proofs.Scopes.Walk

/-! What a failure leaves behind.

    A statement that cannot be lowered is not undone. The pass stops at a node and keeps what it had
    done by then: names stay given, and blocks that it was inside of stay open.

        { int x ← a;  do g → { int y ← b; write(nowhere) } od }

        scopes before   S                        names in use before   E
        scopes after    {y} {x} S                names in use after    y, continue$0, x, E

    All of this follows from one fact: lowering takes the steps of the walk up to the first look at
    a node with a fault, and no step more, and notes them in the log. A pass that goes on afterwards
    has the open blocks on top of its scopes, so it sees their names and else what it saw before. -/

namespace PixelLowering.Source

/-- Statements with no statements inside. -/
def Stmt.isSimple : Stmt → Bool
  | .decl .. | .assign .. | .write _ | .ret _ => true
  | .branch _ | .loop _ | .block _ => false

end PixelLowering.Source

namespace PixelLowering.Names.Table

/-- The names that are visible, the innermost ones first. -/
def visibleNames (table : Table) : List String := table.visible.map Binding.name

/-- A name resolves if and only if it is visible. -/
theorem covers_visibleNames (table : Table) :
    Lower.Env.Covers table.resolve? table.visibleNames := by
  intro name
  rw [resolve?, visibleNames, List.mem_map]
  constructor
  · rintro ⟨emitted, hemitted⟩
    obtain ⟨b, hb, -⟩ := Option.map_eq_some_iff.1 hemitted
    exact ⟨b, List.mem_of_find?_eq_some hb, by simpa using List.find?_some hb⟩
  · rintro ⟨b, hb, rfl⟩
    have hsome : (table.lookup b.name).isSome :=
      List.find?_isSome.2 ⟨b, hb, by simp⟩
    obtain ⟨found, hfound⟩ := Option.isSome_iff_exists.1 hsome
    exact ⟨found.emitted, by rw [hfound]; rfl⟩

theorem Stands.covers {base table : Table} {blocks : List (List String)}
    (h : base.Stands table blocks) :
    Lower.Env.Covers table.resolve? (blocks.flatten ++ base.visibleNames) := by
  have hvisible : table.visibleNames = blocks.flatten ++ base.visibleNames := h.map_name_visible
  rw [← hvisible]
  exact table.covers_visibleNames

end PixelLowering.Names.Table

namespace PixelLowering.Lower

open PixelLowering.Diagnostic
open PixelLowering.Names
open PixelLowering.Source

variable {α β : Type}

/-- Nothing is wrong at any look among some steps. -/
def Cleared (steps : List Step) : Prop :=
  ∀ blocks node, Step.look blocks node ∈ steps → node.Clear

/-- A walk ends with a failure: it is what is wrong at a node that is looked at from within
    `blocks`, after the steps `before`, and nothing is wrong at the nodes before it. -/
structure EndsAt (steps before : List Step) (blocks : List (List String)) (failure : Failure) :
    Prop where
  look : ∃ node rest, steps = before ++ .look blocks node :: rest ∧ Fault node failure
  clear : Cleared before

theorem Cleared.append {first second : List Step} (h : Cleared first) (h' : Cleared second) :
    Cleared (first ++ second) := by
  intro blocks node hmem
  rcases List.mem_append.1 hmem with hmem | hmem
  · exact h blocks node hmem
  · exact h' blocks node hmem

theorem cleared_nil : Cleared [] := by rintro blocks node ⟨⟩

theorem cleared_act (op : Op) : Cleared [.act op] := by
  rintro blocks node (_ | ⟨_, ⟨⟩⟩)

theorem cleared_looks {blocks : List (List String)} {nodes : List Node}
    (h : ∀ node ∈ nodes, node.Clear) : Cleared (looks blocks nodes) := by
  intro blocks' node hmem
  obtain ⟨node', hnode', heq⟩ := List.mem_map.1 hmem
  cases heq
  exact h node hnode'

theorem EndsAt.append_right {steps before : List Step} {blocks : List (List String)}
    {failure : Failure} (h : EndsAt steps before blocks failure) (more : List Step) :
    EndsAt (steps ++ more) before blocks failure := by
  obtain ⟨⟨node, rest, rfl, hfault⟩, hclear⟩ := h
  exact ⟨⟨node, rest ++ more, by simp, hfault⟩, hclear⟩

theorem EndsAt.append_left {first steps before : List Step} {blocks : List (List String)}
    {failure : Failure} (hfirst : Cleared first) (h : EndsAt steps before blocks failure) :
    EndsAt (first ++ steps) (first ++ before) blocks failure := by
  obtain ⟨⟨node, rest, rfl, hfault⟩, hclear⟩ := h
  exact ⟨⟨node, rest, by simp, hfault⟩, hfirst.append hclear⟩

/-- Looks from one place end at the first fault. -/
theorem endsAt_looks (blocks : List (List String)) {nodes : List Node} {failure : Failure}
    (h : FirstFault nodes failure) :
    ∃ before, EndsAt (looks blocks nodes) (looks blocks before) blocks failure := by
  obtain ⟨before, node, rest, rfl, hfault, hclear⟩ := h
  exact ⟨before, ⟨node, looks blocks rest, by simp [looks], hfault⟩, cleared_looks hclear⟩

/-! ### Actions that take the steps of a walk -/

/-- An action takes the steps of a walk. If it succeeds, it has taken all of them and nothing is
    wrong anywhere; if it stops, then at the first fault, with the steps before it taken. -/
def Walks (pass : Pass) (action : LowerM α) (steps : List Step) : Prop :=
  match pass.run action with
  | (.ok _, after) => Cleared steps ∧ after.names = (pass.names.run (ops steps)).2
  | (.error stop, after) => ∃ before blocks failure, stop = .failure failure ∧
      EndsAt steps before blocks failure ∧ after.names = (pass.names.run (ops before)).2

/-- The same with the log: it has the notes on the steps that were taken, and nothing else is new
    in it. -/
def Records (pass : Pass) (action : LowerM α) (steps : List Step) : Prop :=
  match pass.run action with
  | (.ok _, after) => Cleared steps ∧ pass.Took (ops steps) after
  | (.error stop, after) => ∃ before blocks failure, stop = .failure failure ∧
      EndsAt steps before blocks failure ∧ pass.Took (ops before) after

/-- Looks change no name. -/
theorem Pass.Took.names_of_looks {pass after : Pass} {blocks : List (List String)}
    {nodes : List Node} (h : pass.Took (ops (looks blocks nodes)) after) :
    after.names = pass.names := by
  rw [h.names, ops_looks, Table.run_nil]

namespace Records

variable {pass : Pass} {action : LowerM α} {steps steps' : List Step}

theorem walks (h : Records pass action steps) : Walks pass action steps := by
  rw [Walks]
  rw [Records] at h
  rcases hrun : pass.run action with ⟨result, after⟩
  rw [hrun] at h
  cases result with
  | error stop =>
    obtain ⟨before, blocks, failure, hstop, hends, htook⟩ := h
    exact ⟨before, blocks, failure, hstop, hends, htook.names⟩
  | ok a => exact ⟨h.1, h.2.names⟩

theorem pure (a : α) : Records pass (pure a) [] := ⟨cleared_nil, .refl pass⟩

theorem bind {next : α → LowerM β} (h : Records pass action steps)
    (hnext : ∀ a after, pass.Took (ops steps) after → Records after (next a) steps') :
    Records pass (action >>= next) (steps ++ steps') := by
  rw [Records, Pass.run_bind]
  rw [Records] at h
  rcases hrun : pass.run action with ⟨result, middle⟩
  rw [hrun] at h
  cases result with
  | error stop =>
    obtain ⟨before, blocks, failure, hstop, hends, htook⟩ := h
    exact ⟨before, blocks, failure, hstop, hends.append_right steps', htook⟩
  | ok a =>
    obtain ⟨hclear, htook⟩ := h
    have hsecond := hnext a middle htook
    rw [Records] at hsecond
    simp only
    rcases hrun' : middle.run (next a) with ⟨result', after⟩
    rw [hrun'] at hsecond
    cases result' with
    | error stop =>
      obtain ⟨before, blocks, failure, hstop, hends, htook'⟩ := hsecond
      refine ⟨steps ++ before, blocks, failure, hstop, hends.append_left hclear, ?_⟩
      rw [ops_append]
      exact htook.append htook'
    | ok b =>
      refine ⟨hclear.append hsecond.1, ?_⟩
      rw [ops_append]
      exact htook.append hsecond.2

/-- A last step that does nothing. -/
theorem map (f : α → β) (h : Records pass action steps) :
    Records pass (action >>= fun a => Pure.pure (f a)) steps := by
  rw [← List.append_nil steps]
  exact h.bind fun a _ _ => pure (f a)

/-- A result that is there already, from looks at nodes. -/
theorem ofExcept {result : Except Failure α} {nodes : List Node} (h : Reports result nodes)
    (blocks : List (List String)) : Records pass (ofExcept result) (looks blocks nodes) := by
  rw [Records, Pass.run_ofExcept]
  cases result with
  | error failure =>
    obtain ⟨before, hends⟩ := endsAt_looks blocks h
    exact ⟨_, blocks, failure, rfl, hends, by rw [ops_looks]; exact .refl pass⟩
  | ok a => exact ⟨cleared_looks h, by rw [ops_looks]; exact .refl pass⟩

/-- A computation that only reads the names in scope. -/
theorem inScope {f : Env → Except Failure α} {nodes : List Node}
    (h : Reports (f pass.names.resolve?) nodes) (blocks : List (List String)) :
    Records pass (inScope f) (looks blocks nodes) :=
  ofExcept h blocks

/-- One operation on names. -/
theorem act {op : Op} {a : α} {after : Pass} (hrun : pass.run action = (.ok a, after))
    (htook : pass.Took [op] after) : Records pass action [.act op] := by
  rw [Records, hrun]
  exact ⟨cleared_act op, htook⟩

theorem temporary (base : String) : Records pass (temporary base) [.act (.temporary base)] :=
  act rfl (pass.took_unnoted (.temporary base) rfl)

/-- A scope is closed where one is open. -/
theorem leave {base : Table} {inner : List String} {blocks : List (List String)}
    (h : base.Stands pass.names (inner :: blocks)) : Records pass leave [.act .leave] := by
  obtain ⟨scope, extra, hscopes, -⟩ := h.scopes_cons
  have hleave : pass.names.leave? = some (pass.names.step .leave).2 := by
    rw [Table.step, Table.leave?, hscopes]
    rfl
  have hrun : pass.run Lower.leave =
      (.ok (), { pass with names := (pass.names.step .leave).2 }) := by
    rw [Pass.run_leave, hleave]
  exact act hrun (pass.took_unnoted .leave rfl)

/-- A scope of its own around an action that ends in it. -/
theorem withScope {base : Table} {inner : List String} {blocks : List (List String)}
    (h : ∀ entered : Pass, entered.names = pass.names.enter → Records entered action steps)
    (hstands : base.Stands (pass.names.enter.run (ops steps)).2 (inner :: blocks)) :
    Records pass (withScope action) (.act .enter :: (steps ++ [.act .leave])) := by
  have henter : Records pass enter [.act .enter] := act rfl (pass.took_unnoted .enter rfl)
  refine henter.bind fun _ entered hentered => ?_
  have hnames : entered.names = pass.names.enter := hentered.names
  refine (h entered hnames).bind fun a middle hmiddle => ?_
  have hinside := hmiddle.names
  rw [hnames] at hinside
  exact (leave (hinside ▸ hstands)).map _

end Records

theorem looks_cons (blocks : List (List String)) (node : Node) (nodes : List Node) :
    looks blocks (node :: nodes) = looks blocks [node] ++ looks blocks nodes := rfl

section

variable {base : Table}

/-- A block is lowered in a scope of its own. -/
theorem withScope_records {pass : Pass} {blocks : List (List String)} {body : List Stmt}
    (h : base.Stands pass.names blocks)
    (hbody : ∀ entered : Pass, base.Stands entered.names ([] :: blocks) →
      Records entered (lowerStmts body) (walkInside base.visibleNames blocks [] body)) :
    Records pass (withScope (lowerStmts body)) (walkBlock base.visibleNames blocks body) := by
  obtain ⟨inner, hinner⟩ := stands_walkInside base.visibleNames h.enter body
  refine Records.withScope (fun entered hentered => hbody entered ?_) hinner
  rw [hentered]
  exact h.enter

/-- Lowering a declaration: its type, its value, then its name. -/
theorem lowerDecl_records {pass : Pass} {blocks : List (List String)}
    (h : base.Stands pass.names blocks) (target : NameDef) (init? : Option Expr) :
    Records pass (lowerDecl target init?)
      (walkStmt base.visibleNames blocks (.decl target init?)) := by
  rw [lowerDecl, walkStmt, NameDef.visits, looks_cons, List.append_assoc]
  refine (Records.ofExcept (variableType_reports target) blocks).bind fun ty typed htyped => ?_
  have htyped : base.Stands typed.names blocks := htyped.names_of_looks ▸ h
  refine (Records.inScope (lowerInitial_reports htyped.covers target init?) blocks).bind
    fun value? valued _ => ?_
  exact .act rfl (valued.took_declare target.name target.ty)

mutual

/-- Lowering a statement takes the steps of its walk. -/
theorem lowerStmt_records {pass : Pass} {blocks : List (List String)}
    (h : base.Stands pass.names blocks) : ∀ s : Stmt,
      Records pass (lowerStmt s) (walkStmt base.visibleNames blocks s)
  | .decl target init? => by
    rw [lowerStmt]
    exact (lowerDecl_records h target init?).map _
  | .assign target value => by
    rw [lowerStmt, walkStmt]
    exact (Records.inScope (lowerAssign_reports h.covers target value) blocks).map _
  | .write value => by
    rw [lowerStmt, walkStmt]
    exact (Records.inScope (lowerWrite_reports h.covers value) blocks).map _
  | .ret value => by
    rw [lowerStmt, walkStmt]
    exact (Records.inScope (lowerReturned_reports h.covers value) blocks).map _
  | .branch arms => by
    rw [lowerStmt, walkStmt]
    exact (lowerArms_records h arms).map _
  | .loop arms => by
    rw [lowerStmt, walkStmt]
    split
    · exact .pure _
    · refine (Records.temporary flagBase).bind fun flag flagged hflagged => ?_
      have hstands : base.Stands flagged.names blocks := hflagged.names ▸ h.temporary flagBase
      exact (lowerArms_records hstands arms).map _
  | .block body => by
    rw [lowerStmt, walkStmt_block]
    exact (withScope_records h fun entered hentered => lowerStmts_records hentered body).map _

theorem lowerStmts_records {pass : Pass} {blocks : List (List String)} {inner : List String}
    (h : base.Stands pass.names (inner :: blocks)) : ∀ body : List Stmt,
      Records pass (lowerStmts body) (walkInside base.visibleNames blocks inner body)
  | [] => by
    rw [lowerStmts, walkInside]
    exact .pure _
  | s :: rest => by
    rw [lowerStmts, walkInside]
    refine (lowerStmt_records h s).bind fun code after hafter => ?_
    have hstands := stands_walkStmt base.visibleNames h s fun _ _ _ => List.cons_ne_nil _ _
    rw [← hafter.names] at hstands
    exact (lowerStmts_records hstands rest).map _

theorem lowerArms_records {pass : Pass} {blocks : List (List String)}
    (h : base.Stands pass.names blocks) : ∀ arms : List (Guarded Stmt),
      Records pass (lowerArms arms) (walkArms base.visibleNames blocks arms)
  | [] => by
    rw [lowerArms, walkArms]
    exact .pure _
  | ⟨guard, body⟩ :: rest => by
    rw [lowerArms, walkArms_cons]
    refine (Records.inScope (lowerExpr_reports h.covers guard) blocks).bind
      fun test tested htested => ?_
    have htested : base.Stands tested.names blocks := htested.names_of_looks ▸ h
    refine (withScope_records htested fun entered hentered => lowerStmts_records hentered body).bind
      fun code after hafter => ?_
    -- the block is closed again, so the next guard is looked at from the same place
    have hstands := stands_walkBlock base.visibleNames
      (stands_walkInside base.visibleNames htested.enter body)
    rw [← hafter.names] at hstands
    exact (lowerArms_records hstands rest).map _

end

theorem lowerBlock_records {pass : Pass} {blocks : List (List String)}
    (h : base.Stands pass.names blocks) (body : List Stmt) :
    Records pass (lowerBlock body) (walkBlock base.visibleNames blocks body) :=
  withScope_records h fun _ hentered => lowerStmts_records hentered body

theorem lowerStmt_walks {pass : Pass} {blocks : List (List String)}
    (h : base.Stands pass.names blocks) (s : Stmt) :
    Walks pass (lowerStmt s) (walkStmt base.visibleNames blocks s) :=
  (lowerStmt_records h s).walks

theorem lowerBlock_walks {pass : Pass} {blocks : List (List String)}
    (h : base.Stands pass.names blocks) (body : List Stmt) :
    Walks pass (lowerBlock body) (walkBlock base.visibleNames blocks body) :=
  (lowerBlock_records h body).walks

end

/-! ### Failures -/

/-- From a state, an action that stops has changed nothing. -/
def Undone (pass : Pass) (action : LowerM α) : Prop :=
  ∀ stop after, pass.run action = (.error stop, after) → after = pass

theorem Undone.of_ok {pass after : Pass} {action : LowerM α} {a : α}
    (h : pass.run action = (.ok a, after)) : Undone pass action := by
  intro stop last hrun
  rw [h] at hrun
  cases hrun

theorem Undone.ofExcept_bind {pass : Pass} {result : Except Failure α} {next : α → LowerM β}
    (h : ∀ a, Undone pass (next a)) : Undone pass (ofExcept result >>= next) := by
  intro stop after hrun
  rw [Pass.run_bind, Pass.run_ofExcept] at hrun
  cases result with
  | error failure => exact (congrArg Prod.snd hrun).symm
  | ok a => exact h a stop after hrun

theorem Undone.inScope_bind {pass : Pass} {f : Env → Except Failure α} {next : α → LowerM β}
    (h : ∀ a, Undone pass (next a)) : Undone pass (inScope f >>= next) :=
  ofExcept_bind h

/-- A statement with no statements inside fails without a trace: a name is only given when nothing
    can fail any more. -/
theorem lowerStmt_undone (pass : Pass) {s : Stmt} (hs : s.isSimple) :
    Undone pass (lowerStmt s) := by
  cases s with
  | decl target init? =>
    rw [lowerStmt, lowerDecl]
    simp only [bind_assoc]
    exact .ofExcept_bind fun ty => .inScope_bind fun value? => .of_ok rfl
  | assign target value | write value | ret value =>
    rw [lowerStmt]
    exact .inScope_bind fun a => .of_ok rfl
  | branch arms | loop arms | block body => cases hs

/-- What is left when a pass is abandoned inside of `blocks`, after the steps `before`: parameters
    as they were; the scopes from before, unchanged, under one more for each of those blocks, with
    the names that were declared in it by then; the names in use from before and those that the
    declarations and loop flags among the steps were given. All other names mean what they meant. -/
structure Leaves (pass after : Pass) (before : List Step) (blocks : List (List String)) : Prop where
  parameters : after.names.parameters = pass.names.parameters
  scopes : ∃ opened, after.names.scopes = opened ++ pass.names.scopes ∧
    opened.length = blocks.length ∧ opened.map (List.map Binding.name) = blocks
  emitted : after.names.emitted = (pass.names.run (ops before)).1.reverse ++ pass.names.emitted
  lookup : ∀ name ∉ blocks.flatten, after.names.lookup name = pass.names.lookup name

/-- What failure leaves behind. If a statement cannot be lowered, from whatever state, then because
    of what is wrong at one of its nodes, the first one on its walk, and `Leaves` says what the
    steps before that node have left. A declaration, an assignment, a write or a return leaves
    nothing. -/
theorem failed_statement_residue (pass after : Pass) (s : Stmt) (stop : Stop)
    (h : pass.run (lowerStmt s) = (.error stop, after)) :
    (∃ failure before blocks, stop = .failure failure ∧
      EndsAt (walkStmt pass.names.visibleNames [] s) before blocks failure ∧
      Leaves pass after before blocks) ∧
    (s.isSimple → after = pass) := by
  refine ⟨?_, fun hs => lowerStmt_undone pass hs stop after h⟩
  have hwalks := lowerStmt_walks (.start pass.names) s
  rw [Walks, h] at hwalks
  obtain ⟨before, blocks, failure, hstop, hends, hnames⟩ := hwalks
  obtain ⟨node, rest, hwalk, -⟩ := hends.look
  -- the table at the end is the table at the look that fails, and that look has its place
  have hplaced := placed_walkStmt pass.names.visibleNames (.start pass.names) s
  rw [hwalk] at hplaced
  have hstands : pass.names.Stands after.names blocks := hnames ▸ hplaced.stands
  refine ⟨failure, before, blocks, hstop, hends, hstands.parameters, ?_, ?_, ?_⟩
  · obtain ⟨opened, hscopes, hopened⟩ := hstands.scopes
    exact ⟨opened, hscopes, by rw [← hopened, List.length_map], hopened⟩
  · rw [hnames, Table.emitted_run]
  · exact fun name hname => hstands.lookup_eq hname

/-- A pass in which `a` is a parameter and `x` a variable. -/
def abandonedPass : Pass :=
  ⟨(({} : Table).run [.parameter "a" .int, .enter, .declare "x" .int]).2, []⟩

/-- A variable `x` of its own, and in a loop another one and a write of a name that is nowhere. -/
def abandoned : Stmt :=
  let info (ty : Ty) : Info := ⟨ty, .unknown⟩
  let int (name : String) : NameDef := ⟨name, .int, none, .unknown⟩
  let ident (name : String) : Expr := .ident (info .int) name
  .block [.decl (int "x") (some (ident "a")),
    .loop [⟨.bool (info .bool) "TRUE",
      [.decl (int "y") (some (ident "x")), .write (ident "nowhere")]⟩]]

theorem failed_statement_residue_abandoned :
    ∃ stop after failure before blocks,
      abandonedPass.run (lowerStmt abandoned) = (.error stop, after) ∧ stop = .failure failure ∧
      EndsAt (walkStmt abandonedPass.names.visibleNames [] abandoned) before blocks failure ∧
      Leaves abandonedPass after before blocks := by
  have hfails : (abandonedPass.run (lowerStmt abandoned)).1.isOk = false := by decide +kernel
  rcases hrun : abandonedPass.run (lowerStmt abandoned) with ⟨result, after⟩
  rw [hrun] at hfails
  cases result with
  | ok code => cases hfails
  | error stop =>
    obtain ⟨⟨failure, before, blocks, hstop, hends, hleaves⟩, -⟩ :=
      failed_statement_residue abandonedPass after abandoned stop hrun
    exact ⟨stop, after, failure, before, blocks, rfl, hstop, hends, hleaves⟩

end PixelLowering.Lower
