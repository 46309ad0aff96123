import PixelLowering.Proofs.Reading.Statement
import PixelLowering.Proofs.Scopes.Residue

/-! What success leaves behind.

    A block that is lowered brings back the scopes it started from, whatever they were; only names
    in use are more than before, and these are the names that its code declares.

        { int x ← a;  do g → { int x ← b } od }       int x = a;
                                                      boolean continue$0 = true;
        scopes before and after   S                   ... int x_0 = b; ...
        names in use after        x_0, continue$0, x, E

    A statement does the same, except for a declaration, which binds one name: in the innermost
    scope, or in a new one when there is none. And no scope is ever closed that is not open. -/

namespace PixelLowering.Target

mutual

/-- The names that a statement declares, in the order of its text. -/
def Stmt.declared : Stmt → List String
  | .declare _ name _ => [name]
  | .assign .. | .perform _ | .ret _ => []
  | .ifThen _ body | .whileLoop _ body | .block body => Stmt.declaredIn body
  | .ifElse _ body other => Stmt.declaredIn body ++ other.declared

/-- The names that statements declare, in the order of their text. -/
def Stmt.declaredIn : List Stmt → List String
  | [] => []
  | s :: rest => s.declared ++ Stmt.declaredIn rest

end

@[simp] theorem Stmt.declaredIn_singleton (s : Stmt) : Stmt.declaredIn [s] = s.declared := by
  rw [Stmt.declaredIn, Stmt.declaredIn, List.append_nil]

theorem Stmt.declaredIn_append (first second : List Stmt) :
    Stmt.declaredIn (first ++ second) = Stmt.declaredIn first ++ Stmt.declaredIn second := by
  induction first with
  | nil => rw [Stmt.declaredIn, List.nil_append, List.nil_append]
  | cons s rest ih => rw [List.cons_append, Stmt.declaredIn, Stmt.declaredIn, ih, List.append_assoc]

end PixelLowering.Target

namespace PixelLowering.Lower

open PixelLowering.Diagnostic
open PixelLowering.Names
open PixelLowering.Source

variable {α β : Type}

/-! ### Names that lowered code declares -/

/-- The names that arms declare in their blocks. -/
def declaredInArms (arms : List Arm) : List String :=
  arms.flatMap fun arm => Target.Stmt.declaredIn arm.body

theorem declaredInArms_cons (arm : Arm) (rest : List Arm) :
    declaredInArms (arm :: rest) = Target.Stmt.declaredIn arm.body ++ declaredInArms rest :=
  List.flatMap_cons

theorem declaredIn_chain (last? : Option Target.Stmt) (arms : List Arm) :
    Target.Stmt.declaredIn (chain last? arms).toList =
      declaredInArms arms ++ Target.Stmt.declaredIn last?.toList := by
  induction arms with
  | nil => rfl
  | cons arm rest ih =>
    rw [chain, declaredInArms_cons, List.append_assoc, ← ih]
    cases chain last? rest with
    | none => simp [Target.Stmt.declaredIn, Target.Stmt.declared]
    | some other => simp [Target.Stmt.declared]

theorem declaredIn_lastResort? (arms : List (Guarded Stmt)) :
    Target.Stmt.declaredIn (lastResort? arms).toList = [] := by
  rw [lastResort?]
  split
  · rfl
  · split
    · rfl
    · simp [Target.Stmt.declared, Target.Stmt.declaredIn]

theorem declaredInArms_loopArm (flag : String) (arms : List Arm) :
    declaredInArms (arms.map (loopArm flag)) = declaredInArms arms := by
  rw [declaredInArms, List.flatMap_map, declaredInArms]
  congr 1
  funext arm
  simp [loopArm, Target.Stmt.declaredIn, Target.Stmt.declared]

/-- A loop declares its flag, then the names of its arms. -/
theorem declaredIn_loopStmts (flag : String) (arms : List Arm) :
    Target.Stmt.declaredIn (loopStmts flag arms) = flag :: declaredInArms arms := by
  have hround := declaredIn_chain none (arms.map (loopArm flag))
  rw [declaredInArms_loopArm, Option.toList_none, Target.Stmt.declaredIn, List.append_nil] at hround
  simp [loopStmts, Target.Stmt.declaredIn, Target.Stmt.declared, hround]

theorem lowerAssign_declared (env : Env) (target : LValue) (value : Expr) :
    Gives (fun code => code.declared = []) (lowerAssign env target value) := by
  rw [lowerAssign]
  refine (Lexical.gives_any _).bind fun name _ => (Lexical.gives_any _).bind fun lowered _ => ?_
  split
  · exact .pure (by rw [Target.Stmt.declared])
  · exact (Lexical.gives_any _).bind fun pair _ => .pure (by rw [Target.Stmt.declared])
  · exact .pure (by rw [Target.Stmt.declared])
  · exact .pure (by rw [Target.Stmt.declared])
  · exact .error _
  · exact .error _

theorem lowerWrite_declared (env : Env) (value : Expr) :
    Gives (fun code => code.declared = []) (lowerWrite env value) :=
  (Lexical.gives_any _).bind fun _ _ => .pure (by rw [Target.Stmt.declared])

/-! ### Actions and the names they put in use -/

/-- An action that succeeds has put some names in use, and no others; `post` says which ones, from
    its result. -/
def Uses (action : LowerM α) (post : α → List String → Prop) : Prop :=
  ∀ (pass : Pass) (a : α) (after : Pass), pass.run action = (.ok a, after) →
    ∃ names, post a names ∧ after.names.emitted = names.reverse ++ pass.names.emitted

/-- An action that succeeds has put no name in use, and its result is good. -/
def Silent (action : LowerM α) (good : α → Prop) : Prop :=
  ∀ (pass : Pass) (a : α) (after : Pass), pass.run action = (.ok a, after) →
    good a ∧ after.names.emitted = pass.names.emitted

theorem silent_ofExcept {result : Except Failure α} {good : α → Prop} (h : Gives good result) :
    Silent (ofExcept result) good := by
  intro pass a after hrun
  rw [Pass.run_ofExcept] at hrun
  cases result with
  | error reason => cases hrun
  | ok b =>
    cases hrun
    exact ⟨h _ rfl, rfl⟩

theorem silent_inScope {f : Env → Except Failure α} {good : α → Prop}
    (h : ∀ env, Gives good (f env)) : Silent (inScope f) good :=
  fun pass => silent_ofExcept (h pass.names.resolve?) pass

theorem silent_record (event : Event) : Silent (record event) fun _ => True := by
  intro pass a after hrun
  cases hrun
  exact ⟨trivial, rfl⟩

theorem silent_enter : Silent enter fun _ => True := by
  intro pass a after hrun
  cases hrun
  exact ⟨trivial, rfl⟩

theorem silent_leave : Silent leave fun _ => True := by
  intro pass a after hrun
  rw [Pass.run_leave] at hrun
  cases hleave : pass.names.leave? with
  | none =>
    rw [hleave] at hrun
    cases hrun
  | some names =>
    rw [hleave] at hrun
    cases hrun
    have hstep := pass.names.emitted_step .leave
    rw [Table.step, hleave] at hstep
    exact ⟨trivial, hstep⟩

theorem run_declare_eq_ok {pass after : Pass} {name emitted : String} {ty : Ty}
    (h : pass.run (declare name ty) = (.ok emitted, after)) :
    emitted = (pass.names.declare name ty).1 ∧ after.names = (pass.names.declare name ty).2 := by
  rw [Pass.run_declare, Prod.mk.injEq, Except.ok.injEq] at h
  obtain ⟨rfl, rfl⟩ := h
  exact ⟨rfl, Lexical.recordRenaming_names _ _ _⟩

namespace Uses

variable {action : LowerM α} {post : α → List String → Prop}

theorem pure {a : α} (h : post a []) : Uses (pure a) post := by
  intro pass _ after hrun
  cases hrun
  exact ⟨[], h, rfl⟩

theorem bind {next : α → LowerM β} {post' : β → List String → Prop} (h : Uses action post)
    (hnext : ∀ a names, post a names → Uses (next a) fun b more => post' b (names ++ more)) :
    Uses (action >>= next) post' := by
  intro pass b after hrun
  obtain ⟨a, middle, hfirst, hsecond⟩ := (pass.run_bind_eq_ok).1 hrun
  obtain ⟨names, hpost, hnames⟩ := h pass a middle hfirst
  obtain ⟨more, hpost', hmore⟩ := hnext a names hpost middle b after hsecond
  refine ⟨names ++ more, hpost', ?_⟩
  rw [hmore, hnames, List.reverse_append, List.append_assoc]

/-- What comes before and puts no name in use can be left out of the account. -/
theorem after_silent {first : LowerM β} {good : β → Prop} {next : β → LowerM α}
    (h : Silent first good) (hnext : ∀ b, good b → Uses (next b) post) :
    Uses (first >>= next) post := by
  intro pass a after hrun
  obtain ⟨b, middle, hfirst, hsecond⟩ := (pass.run_bind_eq_ok).1 hrun
  obtain ⟨hgood, hsame⟩ := h pass b middle hfirst
  obtain ⟨names, hpost, hnames⟩ := hnext b hgood middle a after hsecond
  exact ⟨names, hpost, by rw [hnames, hsame]⟩

theorem declare (name : String) (ty : Ty) :
    Uses (declare name ty) fun emitted names => names = [emitted] := by
  intro pass emitted after hrun
  obtain ⟨rfl, hnames⟩ := run_declare_eq_ok hrun
  refine ⟨_, rfl, ?_⟩
  rw [hnames]
  exact pass.names.emitted_step (.declare name ty)

theorem declareParameter (name : String) (ty : Ty) :
    Uses (declareParameter name ty) fun emitted names => names = [emitted] := by
  intro pass emitted after hrun
  rw [Pass.run_declareParameter, Prod.mk.injEq, Except.ok.injEq] at hrun
  obtain ⟨rfl, rfl⟩ := hrun
  refine ⟨_, rfl, ?_⟩
  rw [Pass.declareParameter, Lexical.recordRenaming_names]
  exact pass.names.emitted_step (.parameter name ty)

theorem temporary (base : String) :
    Uses (temporary base) fun emitted names => names = [emitted] := by
  intro pass emitted after hrun
  cases hrun
  exact ⟨_, rfl, rfl⟩

/-- A scope around an action adds no name. -/
theorem withScope (h : Uses action post) : Uses (withScope action) post :=
  after_silent silent_enter fun _ _ => h.bind fun _ _ hpost =>
    after_silent silent_leave fun _ _ => pure (by rw [List.append_nil]; exact hpost)

end Uses

mutual

/-- The names that lowering a statement puts in use are those that its code declares. -/
theorem lowerStmt_uses : ∀ s : Stmt,
    Uses (lowerStmt s) fun code names => names = Target.Stmt.declaredIn code
  | .decl target init? => by
    rw [lowerStmt, lowerDecl]
    simp only [bind_assoc]
    -- type and value only read, and the log is no name
    refine .after_silent (silent_ofExcept (Lexical.gives_any _)) fun ty _ => ?_
    refine .after_silent (silent_inScope fun _ => Lexical.gives_any _) fun value? _ => ?_
    refine (Uses.declare target.name target.ty).bind fun emitted names hnames => ?_
    refine .after_silent (silent_record _) fun _ _ => .pure ?_
    rw [hnames, Target.Stmt.declaredIn_singleton, Target.Stmt.declared, List.append_nil]
  | .assign target value => by
    rw [lowerStmt]
    refine .after_silent (silent_inScope (lowerAssign_declared · target value)) fun code hcode => ?_
    exact .pure (by rw [Target.Stmt.declaredIn_singleton, hcode])
  | .write value => by
    rw [lowerStmt]
    refine .after_silent (silent_inScope (lowerWrite_declared · value)) fun code hcode => ?_
    exact .pure (by rw [Target.Stmt.declaredIn_singleton, hcode])
  | .ret value => by
    rw [lowerStmt]
    refine .after_silent (silent_inScope fun _ => Lexical.gives_any _) fun code _ => ?_
    exact .pure (by rw [Target.Stmt.declaredIn_singleton, Target.Stmt.declared])
  | .branch arms => by
    rw [lowerStmt]
    refine (lowerArms_uses arms).bind fun lowered names hnames => .pure ?_
    rw [hnames, declaredIn_chain, declaredIn_lastResort?]
  | .loop arms => by
    rw [lowerStmt]
    split
    · exact .pure (by rw [Target.Stmt.declaredIn])
    · refine (Uses.temporary flagBase).bind fun flag names hflag => ?_
      refine (lowerArms_uses arms).bind fun lowered more hmore => .pure ?_
      rw [hflag, hmore, declaredIn_loopStmts, List.append_nil, List.singleton_append]
  | .block body => by
    rw [lowerStmt]
    refine (Uses.withScope (lowerStmts_uses body)).bind fun code names hnames => .pure ?_
    rw [hnames, Target.Stmt.declaredIn_singleton, Target.Stmt.declared, List.append_nil]

theorem lowerStmts_uses : ∀ body : List Stmt,
    Uses (lowerStmts body) fun code names => names = Target.Stmt.declaredIn code
  | [] => by
    rw [lowerStmts]
    exact .pure (by rw [Target.Stmt.declaredIn])
  | s :: rest => by
    rw [lowerStmts]
    refine (lowerStmt_uses s).bind fun code names hnames => ?_
    refine (lowerStmts_uses rest).bind fun others more hmore => .pure ?_
    rw [hnames, hmore, Target.Stmt.declaredIn_append, List.append_nil]

theorem lowerArms_uses : ∀ arms : List (Guarded Stmt),
    Uses (lowerArms arms) fun lowered names => names = declaredInArms lowered
  | [] => by
    rw [lowerArms]
    exact .pure rfl
  | ⟨guard, body⟩ :: rest => by
    rw [lowerArms]
    refine .after_silent (silent_inScope fun _ => Lexical.gives_any _) fun test _ => ?_
    refine (Uses.withScope (lowerStmts_uses body)).bind fun code names hnames => ?_
    refine (lowerArms_uses rest).bind fun others more hmore => .pure ?_
    rw [hnames, hmore, declaredInArms_cons, List.append_nil]

end

/-! ### Statements and blocks that are lowered -/

/-- Names in use after lowering: those from before and those that the code declares, which are the
    names that the declarations and loop flags among the steps were given. -/
structure Grows (pass after : Pass) (steps : List Step) (code : List Target.Stmt) : Prop where
  emitted : after.names.emitted = (Target.Stmt.declaredIn code).reverse ++ pass.names.emitted
  given : Target.Stmt.declaredIn code = (pass.names.run (ops steps)).1

/-- The names that an action puts in use are those that the steps of its walk give. -/
theorem Uses.given {action : LowerM α} {post : α → List String → Prop} {pass after : Pass}
    {steps : List Step} {a : α} (h : Uses action post) (hwalks : Walks pass action steps)
    (hrun : pass.run action = (.ok a, after)) : post a (pass.names.run (ops steps)).1 := by
  obtain ⟨names, hpost, hemitted⟩ := h pass a after hrun
  rw [Walks, hrun] at hwalks
  -- the steps give a second account of the names in use
  rw [hwalks.2, Table.emitted_run, List.append_cancel_right_eq, List.reverse_inj] at hemitted
  rwa [hemitted]

theorem Uses.grows {action : LowerM (List Target.Stmt)} {pass after : Pass} {steps : List Step}
    {code : List Target.Stmt}
    (h : Uses action fun code names => names = Target.Stmt.declaredIn code)
    (hwalks : Walks pass action steps) (hrun : pass.run action = (.ok code, after)) :
    Grows pass after steps code := by
  refine ⟨?_, (h.given hwalks hrun).symm⟩
  obtain ⟨names, rfl, hemitted⟩ := h pass code after hrun
  exact hemitted

/-- The same bindings, and so the same answer for every name. -/
structure Restores (pass after : Pass) : Prop where
  parameters : after.names.parameters = pass.names.parameters
  scopes : after.names.scopes = pass.names.scopes
  lookup : ∀ name, after.names.lookup name = pass.names.lookup name

theorem restores_of_sameBindings {pass after : Pass}
    (h : pass.names.SameBindings after.names) : Restores pass after := by
  refine ⟨h.parameters, h.scopes, fun name => ?_⟩
  rw [Table.lookup, Table.lookup, Table.visible, Table.visible, h.parameters, h.scopes]

/-- Scopes with one more binding: in the innermost scope, where the latest one comes first, or alone
    in a new scope when there is none. -/
def withBinding (b : Binding) : List (List Binding) → List (List Binding)
  | [] => [[b]]
  | inner :: outer => (b :: inner) :: outer

/-- A declaration adds one binding, for its name and with its type, and the name that it prints is
    the one in this binding. -/
structure Binds (pass after : Pass) (target : NameDef) (code : List Target.Stmt) (b : Binding) :
    Prop where
  name : b.name = target.name
  ty : b.ty = target.ty
  parameters : after.names.parameters = pass.names.parameters
  scopes : after.names.scopes = withBinding b pass.names.scopes
  text : ∃ (ty : Target.Ty) (value? : Option Target.Expr), code = [.declare ty b.emitted value?] ∧
    ∀ width, Target.Stmt.renderLines width code =
      ty.name ++ " " ++ b.emitted ++ (value?.elim "" fun value => " = " ++ value.render) ++ ";\n"

/-- A declaration that is lowered has bound its name, and nothing else has happened to the names. -/
theorem run_decl {pass after : Pass} {target : NameDef} {init? : Option Expr}
    {code : List Target.Stmt} (h : pass.run (lowerStmt (.decl target init?)) = (.ok code, after)) :
    ∃ ty value?, code = [.declare ty (pass.names.declare target.name target.ty).1 value?] ∧
      after.names = (pass.names.declare target.name target.ty).2 := by
  rw [lowerStmt, lowerDecl] at h
  simp only [bind_assoc, pure_bind, Pass.run_bind_eq_ok] at h
  obtain ⟨ty, typed, hty, value?, _, hvalue, emitted, named, hnamed, _, _, hrecord, hcode⟩ := h
  cases hcode
  cases hrecord
  obtain ⟨-, rfl⟩ := (Pass.run_inScope_eq_ok _).1 hvalue
  have htyped : typed = pass := by
    rw [Pass.run_ofExcept] at hty
    exact (congrArg Prod.snd hty).symm
  subst htyped
  obtain ⟨rfl, hnames⟩ := run_declare_eq_ok hnamed
  exact ⟨ty, value?, rfl, hnames⟩

theorem scopes_push (table : Table) (b : Binding) :
    (table.push b).scopes = withBinding b table.scopes := by
  rw [Table.push]
  cases h : table.scopes <;> rfl

theorem lowerDecl_binds {pass after : Pass} {target : NameDef} {init? : Option Expr}
    {code : List Target.Stmt} (h : pass.run (lowerStmt (.decl target init?)) = (.ok code, after)) :
    ∃ b, Binds pass after target code b := by
  obtain ⟨ty, value?, rfl, hnames⟩ := run_decl h
  have hemits := pass.names.emitDeclared_emits target.name
  refine ⟨⟨target.name, (pass.names.declare target.name target.ty).1, target.ty,
    max pass.names.scopes.length 1⟩, rfl, rfl, ?_, ?_, ty, value?, rfl, ?_⟩
  · rw [hnames, Table.declare, Table.parameters_push, hemits.parameters]
  · rw [hnames, Table.declare, scopes_push, hemits.scopes]
  · intro width
    cases value? <;> simp [Target.Stmt.renderLines, Target.Stmt.render, String.append_assoc]

/-- A statement that is lowered and is no declaration brings back all bindings. -/
theorem lowerStmt_sameBindings {pass after : Pass} {s : Stmt} {code : List Target.Stmt}
    (hs : ∀ target init?, s ≠ .decl target init?)
    (h : pass.run (lowerStmt s) = (.ok code, after)) : pass.names.SameBindings after.names := by
  have hwalks := lowerStmt_walks (.start pass.names) s
  rw [Walks, h] at hwalks
  have hstands : pass.names.Stands after.names [] := by
    rw [hwalks.2]
    exact stands_walkStmt _ (.start pass.names) s fun target init? hdecl =>
      absurd hdecl (hs target init?)
  obtain ⟨extra, hscopes, hextra⟩ := hstands.scopes
  rw [List.map_eq_nil_iff.1 hextra] at hscopes
  exact ⟨hstands.parameters, hscopes⟩

/-- An action that takes the steps of a walk closes no scope that is not open. -/
theorem Walks.run_ne_noOpenScope {pass : Pass} {action : LowerM α} {steps : List Step}
    (h : Walks pass action steps) (after : Pass) :
    pass.run action ≠ (.error .noOpenScope, after) := by
  intro hrun
  rw [Walks, hrun] at h
  obtain ⟨_, _, failure, hstop, _⟩ := h
  cases hstop

theorem compile_ne_noOpenScope (width : Nat) (program : Program) :
    (compile width program).1 ≠ .error .noOpenScope := by
  have hlexical := Lexical.compile_eq Lexical.tableSupply_follows ⟨rfl, rfl⟩ width program
    fun _ _ => trivial
  rw [hlexical]
  cases Lexical.compile Lexical.tableSupply {} width program with
  | error failure => rintro ⟨⟩
  | ok text => rintro ⟨⟩

/-- Scope discipline of lowering, from whatever state, also one in which no scope is open.

    A block that is lowered brings back parameters and scopes, so that every name means what it
    meant, and puts exactly the names in use that its code declares: those of its declarations and
    loop flags. A statement does the same, except that a declaration adds one binding. No scope is
    ever closed that is not open, whether or not there is a failure. -/
theorem lowering_keeps_scopes (pass : Pass) :
    (∀ body code after, pass.run (lowerBlock body) = (.ok code, after) →
      Restores pass after ∧
      Grows pass after (walkBlock pass.names.visibleNames [] body) code) ∧
    (∀ s code after, pass.run (lowerStmt s) = (.ok code, after) →
      Grows pass after (walkStmt pass.names.visibleNames [] s) code ∧
      match s with
      | .decl target _ => ∃ b, Binds pass after target code b
      | _ => Restores pass after) ∧
    (∀ body after, pass.run (lowerBlock body) ≠ (.error .noOpenScope, after)) ∧
    (∀ s after, pass.run (lowerStmt s) ≠ (.error .noOpenScope, after)) ∧
    ∀ width program, (compile width program).1 ≠ .error .noOpenScope := by
  have hblock := lowerBlock_walks (.start pass.names)
  have hstmt := lowerStmt_walks (.start pass.names)
  refine ⟨?_, ?_, ?_, ?_, compile_ne_noOpenScope⟩
  · intro body code after h
    exact ⟨restores_of_sameBindings (Lexical.lowerBlock_sameBindings h),
      (lowerStmts_uses body).withScope.grows (hblock body) h⟩
  · intro s code after h
    refine ⟨(lowerStmt_uses s).grows (hstmt s) h, ?_⟩
    cases s with
    | decl target init? => exact lowerDecl_binds h
    | assign | write | ret | branch | loop | block =>
      exact restores_of_sameBindings (lowerStmt_sameBindings (by simp) h)
  · exact fun body after => (hblock body).run_ne_noOpenScope after
  · exact fun s after => (hstmt s).run_ne_noOpenScope after

/-- A pass inside of two blocks; in the outer one a variable hides a parameter. -/
def openPass : Pass :=
  ⟨(({} : Table).run [.parameter "x" .int, .enter, .declare "x" .int, .enter]).2, []⟩

/-- Starts from the variable that it hides. -/
def hidingDecl : Stmt := .decl ⟨"x", .int, none, .unknown⟩ (some (.ident ⟨.int, .unknown⟩ "x"))

/-- A block with such a variable, and with a loop that has a variable of its own. -/
def hidingBlock : List Stmt :=
  [hidingDecl, .loop [⟨.binary ⟨.bool, .unknown⟩ .gt (.ident ⟨.int, .unknown⟩ "x")
    (.num ⟨.int, .unknown⟩ "0"), [.decl ⟨"y", .int, none, .unknown⟩ none]⟩]]

/-- After the block its three names are in use and `x` is what it was; the declaration alone is the
    first one in the inner block. -/
theorem lowering_keeps_scopes_hidingBlock :
    (∃ code after, openPass.run (lowerBlock hidingBlock) = (.ok code, after) ∧
      Restores openPass after ∧
      Grows openPass after (walkBlock openPass.names.visibleNames [] hidingBlock) code ∧
      Target.Stmt.declaredIn code = ["x_1", "continue$0", "y"] ∧
      after.names.emitted = ["y", "continue$0", "x_1", "x_0", "x"] ∧
      after.names.resolve? "x" = some "x_0") ∧
    ∃ code after b, openPass.run (lowerStmt hidingDecl) = (.ok code, after) ∧
      Binds openPass after ⟨"x", .int, none, .unknown⟩ code b ∧ b.emitted = "x_1" ∧
      after.names.scopes = [[b], [⟨"x", "x_0", .int, 1⟩]] := by
  obtain ⟨hblock, hstmt, -⟩ := lowering_keeps_scopes openPass
  refine ⟨?_, ?_⟩
  · have hok : (openPass.run (lowerBlock hidingBlock)).1.isOk = true := by decide +kernel
    rcases hrun : openPass.run (lowerBlock hidingBlock) with ⟨result, after⟩
    rw [hrun] at hok
    cases result with
    | error stop => cases hok
    | ok code =>
      obtain ⟨hrestores, hgrows⟩ := hblock hidingBlock code after hrun
      have hdeclared : Target.Stmt.declaredIn code = ["x_1", "continue$0", "y"] := by
        rw [hgrows.given]
        decide +kernel
      refine ⟨code, after, rfl, hrestores, hgrows, hdeclared, ?_, ?_⟩
      · rw [hgrows.emitted, hdeclared]
        decide +kernel
      · rw [Table.resolve?, hrestores.lookup]
        decide +kernel
  · have hok : (openPass.run (lowerStmt hidingDecl)).1.isOk = true := by decide +kernel
    rcases hrun : openPass.run (lowerStmt hidingDecl) with ⟨result, after⟩
    rw [hrun] at hok
    cases result with
    | error stop => cases hok
    | ok code =>
      obtain ⟨hgrows, b, hb⟩ := hstmt hidingDecl code after hrun
      obtain ⟨ty, value?, rfl, -⟩ := hb.text
      have hemitted : [b.emitted] = ["x_1"] := by
        have hgiven := hgrows.given
        rw [Target.Stmt.declaredIn_singleton, Target.Stmt.declared] at hgiven
        rw [hgiven]
        decide +kernel
      refine ⟨_, after, b, rfl, hb, List.head_eq_of_cons_eq hemitted, ?_⟩
      rw [hb.scopes]
      rfl

end PixelLowering.Lower
