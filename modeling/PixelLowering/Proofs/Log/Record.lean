import PixelLowering.Proofs.Layout.Width
import PixelLowering.Proofs.Scopes.Discipline

/-! The log is a faithful record of a pass.

    It starts with the program and ends with the size of the text, if there is a text. In between it
    has the notes on the walk of the program, with the names that stand in the text:

        f(int x) { int x;  do g → { int y } od }       void f(int x) { int x_0;  ... int y; ... }

        compiling f, 1    x → x_0    x is x_0, an int    y is y, an int    generated, n bytes

    A pass that stops leaves the beginning of this: the program and the notes on the steps before
    the node at which it stops. -/

namespace PixelLowering.Target

/-- The names that a method declares, in the order of its text. -/
def Method.declared (method : Method) : List String :=
  method.params.map Param.name ++ Stmt.declaredIn method.body

end PixelLowering.Target

namespace PixelLowering.Lower

open PixelLowering.Names
open PixelLowering.Source

/-! ### The walk of a program -/

/-- The walk of parameters: each is looked at, then bound. -/
def walkParams (params : List NameDef) : List Step :=
  params.flatMap fun param => [.look [] (.definition param), .act (.parameter param.name param.ty)]

/-- The walk of a program: its name, its parameters, its body, which sees the parameters. -/
def walkProgram (program : Program) : List Step :=
  .look [] (.program program) :: (walkParams program.params ++
    walkBlock (program.params.map NameDef.name).reverse [] program.body)

/-- Parameters are visible in the body, the last one first. -/
theorem visibleNames_walkParams (params : List NameDef) {table : Table} (h : table.scopes = []) :
    (table.run (ops (walkParams params))).2.visibleNames =
      (params.map NameDef.name).reverse ++ table.visibleNames := by
  induction params generalizing table with
  | nil => rfl
  | cons param rest ih =>
    have hemits := table.emitDeclared_emits param.name
    have hscopes : (table.step (.parameter param.name param.ty)).2.scopes = [] := by
      rw [← h, ← hemits.scopes]
      rfl
    have hbound : (table.step (.parameter param.name param.ty)).2.visibleNames =
        param.name :: table.visibleNames := by
      simp [Table.visibleNames, Table.visible, Table.step, Table.declareParameter, hemits.scopes,
        hemits.parameters, h]
    calc (table.run (ops (walkParams (param :: rest)))).2.visibleNames
      _ = ((table.step (.parameter param.name param.ty)).2.run
            (ops (walkParams rest))).2.visibleNames := rfl
      _ = (rest.map NameDef.name).reverse ++ param.name :: table.visibleNames := by
        rw [ih hscopes, hbound]
      _ = ((param :: rest).map NameDef.name).reverse ++ table.visibleNames := by simp

theorem lowerParams_records (params : List NameDef) {pass : Pass} :
    Records pass (lowerParams params) (walkParams params) := by
  induction params generalizing pass with
  | nil => exact .pure _
  | cons param rest ih =>
    have hparam : Records pass (lowerParam param)
        (looks [] [.definition param] ++ [.act (.parameter param.name param.ty)]) :=
      (Records.ofExcept (variableType_reports param) []).bind fun ty typed _ =>
        .act rfl (typed.took_declareParameter param.name param.ty)
    exact hparam.bind fun lowered _ _ => ih.map _

/-- Lowering a program takes the steps of its walk and notes them. -/
theorem lowerProgram_records (program : Program) {pass : Pass} (h : pass.names = {}) :
    Records pass (lowerProgram program) (walkProgram program) := by
  have hstart : lowerProgram program =
      ofExcept (if Target.isMethodName program.name then .ok ()
        else .error ⟨.invalidProgramName program.name, program.pos⟩) >>= fun _ => do
        let params ← lowerParams program.params
        let body ← lowerBlock program.body
        return ⟨resultType program.result, program.name, params, body⟩ := by
    rw [lowerProgram]
    cases Target.isMethodName program.name <;> rfl
  rw [hstart]
  refine (Records.ofExcept (programName_reports program) []).bind fun _ named hnamed => ?_
  refine (lowerParams_records program.params).bind fun params bound hbound => ?_
  have hvisible : bound.names.visibleNames = (program.params.map NameDef.name).reverse := by
    rw [hbound.names, hnamed.names_of_looks, h, visibleNames_walkParams _ rfl]
    exact List.append_nil _
  have hbody := lowerBlock_records (.start bound.names) program.body
  rw [hvisible] at hbody
  exact hbody.map _

/-! ### The names in the text -/

theorem lowerParams_uses (params : List NameDef) :
    Uses (lowerParams params) fun lowered names => names = lowered.map Target.Param.name := by
  induction params with
  | nil => exact .pure rfl
  | cons param rest ih =>
    rw [lowerParams, lowerParam]
    simp only [bind_assoc, pure_bind]
    refine .after_silent (silent_ofExcept (Lexical.gives_any _)) fun ty _ => ?_
    refine (Uses.declareParameter param.name param.ty).bind fun emitted names hnames => ?_
    refine ih.bind fun lowered more hmore => .pure ?_
    rw [hnames, hmore, List.append_nil, List.map_cons, List.singleton_append]

/-- The names that lowering a program puts in use are those that its method declares. -/
theorem lowerProgram_uses (program : Program) :
    Uses (lowerProgram program) fun method names => names = method.declared := by
  rw [lowerProgram]
  cases Target.isMethodName program.name with
  | false =>
    intro pass method after hrun
    cases hrun
  | true =>
    refine (lowerParams_uses program.params).bind fun params names hnames => ?_
    refine (lowerStmts_uses program.body).withScope.bind fun body more hmore => .pure ?_
    rw [hnames, hmore, List.append_nil]
    rfl

/-! ### The log -/

/-- The log of a pass that gives a text: the program, the notes on its walk with the names that the
    text declares, and the size of the text in bytes. The log of a pass that stops: the program and
    the notes on the steps before the first node at which something is wrong. Both are given as
    events and as lines. -/
theorem compile_log (width : Nat) (program : Program) :
    match compile width program with
    | (.ok text, log) =>
      ∃ method : Target.Method, text = method.render width ∧
        method.declared = (({} : Table).run (ops (walkProgram program))).1 ∧
        log = .compiling program.name program.params.length ::
          (journal (ops (walkProgram program)) method.declared ++
            [.generated text.utf8ByteSize program.name]) ∧
        log.map Event.line =
          ("DEBUG compiling program `" ++ program.name ++ "` with " ++
            toString program.params.length ++ " parameter(s)") ::
          (journalLines (ops (walkProgram program)) method.declared ++
            ["DEBUG generated " ++ toString text.utf8ByteSize ++ " bytes for `" ++
              program.name ++ "`"])
    | (.error stop, log) =>
      ∃ before blocks failure, stop = .failure failure ∧
        EndsAt (walkProgram program) before blocks failure ∧
        log = .compiling program.name program.params.length ::
          journal (ops before) (({} : Table).run (ops before)).1 ∧
        log.map Event.line =
          ("DEBUG compiling program `" ++ program.name ++ "` with " ++
            toString program.params.length ++ " parameter(s)") ::
          journalLines (ops before) (({} : Table).run (ops before)).1 := by
  have hrecords : Records (({} : Pass).record (.compiling program.name program.params.length))
    (lowerProgram program) (walkProgram program) := lowerProgram_records program rfl
  have hwalks := hrecords.walks
  rw [compile, run_compileProgram]
  rw [Records] at hrecords
  rcases hrun : (({} : Pass).record (.compiling program.name program.params.length)).run
    (lowerProgram program) with ⟨result, after⟩
  rw [hrun] at hrecords
  cases result with
  | error stop =>
    obtain ⟨before, blocks, failure, hstop, hends, htook⟩ := hrecords
    have hlog : after.log = .compiling program.name program.params.length ::
        journal (ops before) (({} : Table).run (ops before)).1 := htook.log
    refine ⟨before, blocks, failure, hstop, hends, hlog, ?_⟩
    rw [hlog, List.map_cons, line_eq, map_line_journal]
  | ok method =>
    have hnames := (lowerProgram_uses program).given hwalks hrun
    have hlog : after.log = .compiling program.name program.params.length ::
        journal (ops (walkProgram program)) method.declared := by
      rw [← hnames]
      exact hrecords.2.log
    refine ⟨method, rfl, hnames.symm, ?_, ?_⟩
    · rw [Pass.record, hlog]
      rfl
    · rw [Pass.record, hlog]
      simp only [List.cons_append, List.map_cons, List.map_append, List.map_nil, map_line_journal,
        line_eq]

/-- A pass that stops after a declaration and before another one. -/
example :
    let int (name : String) : NameDef := ⟨name, .int, none, .unknown⟩
    let body : List Stmt := [.decl (int "x") none, .write (.ident ⟨.int, .unknown⟩ "nowhere"),
      .decl (int "y") none]
    (compile 4 ⟨"f", .void, [int "x"], body, .unknown⟩).2.map Event.line =
      ["DEBUG compiling program `f` with 1 parameter(s)", "TRACE renaming `x` to `x_0`",
        "DEBUG declared `x` as `x_0` (int)"] := by
  decide +kernel

end PixelLowering.Lower
