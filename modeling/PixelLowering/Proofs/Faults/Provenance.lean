import PixelLowering.Proofs.Domain.Exactness
import PixelLowering.Proofs.Faults.Visits

/-! Where failures come from.

    A computation reports on a list of visits: if it succeeds, nothing is wrong at any of them, and
    if it fails, it fails with the first fault. Computations in a row report on their visits in a
    row, so each node adds its own visit to those of its parts, and the whole pass reports on all
    visits of the program:

        e₁ reports on ns    e₂ reports on ms    ⟹    do e₁; e₂ reports on ns ++ ms -/

namespace PixelLowering.Source

open PixelLowering.Diagnostic

/-- A node has one fault at most. -/
theorem Fault.unique {node : Node} {failure failure' : Failure} (h : Fault node failure)
    (h' : Fault node failure') : failure = failure' := by
  cases h <;> cases h' <;> simp_all

/-- Visits have one first fault at most. -/
theorem FirstFault.unique {nodes : List Node} {failure failure' : Failure}
    (h : FirstFault nodes failure) (h' : FirstFault nodes failure') : failure = failure' := by
  obtain ⟨before, node, after, rfl, hfault, hclear⟩ := h
  obtain ⟨before', node', after', hsplit, hfault', hclear'⟩ := h'
  -- neither node can stand before the other one
  rcases List.append_eq_append_iff.1 hsplit with ⟨middle, rfl, hcons⟩ | ⟨middle, rfl, hcons⟩
  · cases middle with
    | nil =>
      cases hcons
      exact hfault.unique hfault'
    | cons first rest =>
      cases hcons
      exact absurd hfault (hclear' node (by simp) failure)
  · cases middle with
    | nil =>
      cases hcons
      exact hfault.unique hfault'
    | cons first rest =>
      cases hcons
      exact absurd hfault' (hclear node' (by simp) failure')

theorem FirstFault.not_clear {nodes : List Node} {failure : Failure}
    (h : FirstFault nodes failure) : ¬∀ node ∈ nodes, node.Clear := by
  obtain ⟨before, node, after, rfl, hfault, -⟩ := h
  intro hclear
  exact hclear node (by simp) failure hfault

theorem FirstFault.append_right {nodes : List Node} {failure : Failure}
    (h : FirstFault nodes failure) (more : List Node) : FirstFault (nodes ++ more) failure := by
  obtain ⟨before, node, after, rfl, hfault, hclear⟩ := h
  exact ⟨before, node, after ++ more, by simp, hfault, hclear⟩

theorem FirstFault.append_left {first nodes : List Node} {failure : Failure}
    (hfirst : ∀ node ∈ first, node.Clear) (h : FirstFault nodes failure) :
    FirstFault (first ++ nodes) failure := by
  obtain ⟨before, node, after, rfl, hfault, hclear⟩ := h
  refine ⟨first ++ before, node, after, by simp, hfault, ?_⟩
  intro earlier hearlier
  rcases List.mem_append.1 hearlier with h | h
  · exact hfirst earlier h
  · exact hclear earlier h

end PixelLowering.Source

namespace PixelLowering.Lower

open PixelLowering.Diagnostic
open PixelLowering.Library
open PixelLowering.Source

variable {α β : Type}

/-! ### Computations that report on visits -/

/-- A result reports on visits: it is there if nothing is wrong at any of them, and else it is the
    first fault. -/
def Reports (result : Except Failure α) (nodes : List Node) : Prop :=
  match result with
  | .ok _ => ∀ node ∈ nodes, node.Clear
  | .error failure => FirstFault nodes failure

namespace Reports

variable {result : Except Failure α} {nodes nodes' : List Node} {node : Node}

theorem pure (a : α) : Reports (pure a) [] := by
  intro node h
  cases h

theorem bind {next : α → Except Failure β} (h : Reports result nodes)
    (hnext : ∀ a, Reports (next a) nodes') : Reports (result >>= next) (nodes ++ nodes') := by
  cases result with
  | error failure => exact FirstFault.append_right h nodes'
  | ok a =>
    have hstep := hnext a
    change Reports (next a) (nodes ++ nodes')
    cases hresult : next a with
    | error failure =>
      rw [hresult] at hstep
      exact FirstFault.append_left h hstep
    | ok b =>
      rw [hresult] at hstep
      intro node hnode
      rcases List.mem_append.1 hnode with hnode | hnode
      · exact h node hnode
      · exact hstep node hnode

/-- A last step that cannot fail. -/
theorem map {f : α → β} (h : Reports result nodes) :
    Reports (result >>= fun a => Pure.pure (f a)) nodes := by
  have hbind := h.bind fun a => pure (f a)
  rwa [List.append_nil] at hbind

/-- A visit at which nothing is wrong. -/
theorem clear (h : Reports result nodes) (hnode : node.Clear) : Reports result (node :: nodes) := by
  cases result with
  | error failure => exact FirstFault.append_left (List.forall_mem_singleton.2 hnode) h
  | ok a => exact List.forall_mem_cons.2 ⟨hnode, h⟩

/-- A fault is reported at once. -/
theorem fault {failure : Failure} (h : Fault node failure) (nodes : List Node) :
    Reports (.error failure : Except Failure α) (node :: nodes) :=
  ⟨[], node, nodes, rfl, h, by simp⟩

/-- The node itself, after all of its parts. -/
theorem last (a : α) (hnode : node.Clear) : Reports (Pure.pure a) [node] := (pure a).clear hnode

end Reports

/-! ### Expressions -/

section

variable {env : Env} {scope : List String}

theorem resolveName_reports (h : env.Covers scope) {node : Node} {name : String} {pos : Position}
    (hfault : name ∉ scope → Fault node ⟨.unresolvedName name, pos⟩)
    (hclear : name ∈ scope → node.Clear) : Reports (resolveName env name pos) [node] := by
  rw [resolveName]
  cases henv : env name with
  | none =>
    refine .fault (hfault fun hname => ?_) []
    obtain ⟨emitted, hemitted⟩ := (h name).2 hname
    rw [henv] at hemitted
    cases hemitted
  | some emitted => exact .last emitted (hclear ((h name).1 ⟨emitted, henv⟩))

/-- The pixel that a base is, after a look at the selection that asks for it. -/
theorem wholePixel_reports {node : Node} {base : Expr} {value : Except Failure Target.Expr}
    {nodes : List Node} (hvalue : Reports value nodes)
    (hpixel : base.ty = .pixel → node.Clear)
    (himage : base.ty = .image →
      Fault node ⟨.unsupportedOperator ":" "image without a pixel selector", base.pos⟩)
    (hother : base.ty ∉ [.pixel, .image] → Fault node (unsupportedBase base.ty base.pos)) :
    Reports (wholePixel base value) (node :: nodes) := by
  rw [wholePixel]
  split
  · next hty => exact hvalue.clear (hpixel hty)
  · next hty => exact .fault (himage hty) nodes
  · next hpixel himage => exact .fault (hother (by simpa using ⟨hpixel, himage⟩)) nodes

/-- The pixel at coordinates, after a look at the selection that asks for it. -/
theorem pixelOf_reports {node : Node} {base : Expr} {coordinates : Position}
    {image x y : Except Failure Target.Expr} {nodes nodesX nodesY : List Node}
    (hbase : Reports image nodes) (hx : Reports x nodesX) (hy : Reports y nodesY)
    (himage : base.ty = .image → node.Clear)
    (hpixel : base.ty = .pixel → Fault node ⟨.unsupportedOperator "[]" "pixel", coordinates⟩)
    (hother : base.ty ∉ [.pixel, .image] → Fault node (unsupportedBase base.ty base.pos)) :
    Reports (pixelOf base coordinates image x y) (node :: (nodes ++ nodesX ++ nodesY)) := by
  rw [pixelOf]
  split
  · next hty =>
    rw [List.append_assoc]
    exact (hbase.bind fun _ => hx.bind fun _ => hy.map).clear (himage hty)
  · next hty => exact .fault (hpixel hty) _
  · next himage hpixel => exact .fault (hother (by simpa using ⟨hpixel, himage⟩)) _

theorem isAggregate_iff {ty : Ty} : ty.isAggregate ↔ ty ∈ [.pixel, .image] := by
  cases ty <;> simp [Ty.isAggregate]

/-- A selection without coordinates. -/
theorem lowerExpr_part_reports (info : Info) (base : Expr) (channel? : Option Channel)
    (h : Reports (lowerExpr env base) (base.visits scope)) :
    Reports (lowerExpr env (.part info base channel?))
      ((Expr.part info base channel?).visits scope) := by
  rw [Expr.visits]
  cases channel? with
  | none =>
    rw [lowerExpr]
    split
    · next hty =>
      refine h.clear ?_
      intro failure hfault
      cases hfault with
      | wholeBase hbase => exact hbase (isAggregate_iff.1 hty)
    · next hty => exact .fault (.wholeBase fun hbase => hty (isAggregate_iff.2 hbase)) _
  | some channel =>
    rw [lowerExpr]
    split
    · next himage =>
      refine (h.map).clear ?_
      intro failure hfault
      cases hfault with
      | channelBase hbase => exact hbase (by simp [himage])
    · next himage =>
      refine (wholePixel_reports h ?_ (fun hty => absurd hty himage) .channelBase).map
      intro hty failure hfault
      cases hfault with
      | channelBase hbase => exact hbase (by simp [hty])

/-- Lowering an expression reports on all of its nodes. -/
theorem lowerExpr_reports (h : env.Covers scope) (e : Expr) :
    Reports (lowerExpr env e) (e.visits scope) := by
  induction e with
  | num info text | str info text | bool info text =>
    rw [Expr.visits]
    exact .last _ (by rintro failure ⟨⟩)
  | ident info name =>
    rw [Expr.visits]
    refine (resolveName_reports h .unresolvedIdent ?_).map
    intro hname failure hfault
    cases hfault with
    | unresolvedIdent hscope => exact hscope hname
  | const info name =>
    rw [Expr.visits, lowerExpr]
    cases hliteral : constantLiteral? name with
    | none => exact .fault (.unknownConstant hliteral) []
    | some literal =>
      refine .last _ ?_
      intro failure hfault
      cases hfault with
      | unknownConstant hnone =>
        rw [hliteral] at hnone
        cases hnone
  | cond info guard yes no ihGuard ihYes ihNo =>
    rw [Expr.visits, lowerExpr, List.append_assoc, List.append_assoc]
    exact ihGuard.bind fun _ => ihYes.bind fun _ => ihNo.bind fun _ =>
      .last _ (by rintro failure ⟨⟩)
  | unary info op operand ih =>
    rw [Expr.visits, lowerExpr]
    refine ih.bind fun value => ?_
    have happlies := lowerUnary?_isSome op value operand.ty
    cases hlowered : lowerUnary? op operand.ty value with
    | none => exact .fault (.unary (by simpa [hlowered] using happlies)) []
    | some lowered =>
      refine .last _ ?_
      intro failure hfault
      cases hfault with
      | unary hnot => exact hnot (by simpa [hlowered] using happlies)
  | binary info op left right ihLeft ihRight =>
    rw [Expr.visits, lowerExpr, List.append_assoc]
    refine ihLeft.bind fun leftValue => ihRight.bind fun rightValue => ?_
    have hjoins := lowerBinary?_isSome op leftValue rightValue left.ty right.ty
    cases hlowered : lowerBinary? op left.ty right.ty leftValue rightValue with
    | none => exact .fault (.binary (by simpa [hlowered] using hjoins)) []
    | some lowered =>
      refine .last _ ?_
      intro failure hfault
      cases hfault with
      | binary hnot => exact hnot (by simpa [hlowered] using hjoins)
  | part info base channel? ih => exact lowerExpr_part_reports info base channel? ih
  | pixelAt info base x y coordinates channel? ihBase ihX ihY =>
    rw [Expr.visits]
    have hclear : base.ty = .image →
        (Node.expr scope (.pixelAt info base x y coordinates channel?)).Clear := by
      intro hty failure hfault
      cases hfault with
      | coordinatesBase hbase => exact hbase (by simp [hty])
      | coordinatesOfPixel hpixel =>
        rw [hty] at hpixel
        cases hpixel
    have hpixel := pixelOf_reports ihBase ihX ihY hclear .coordinatesOfPixel .coordinatesBase
    cases channel? with
    | none => exact hpixel
    | some channel => exact hpixel.map
  | pixel info red green blue ihRed ihGreen ihBlue =>
    rw [Expr.visits, lowerExpr, List.append_assoc, List.append_assoc]
    exact ihRed.bind fun _ => ihGreen.bind fun _ => ihBlue.bind fun _ =>
      .last _ (by rintro failure ⟨⟩)

/-! ### Statements that only read names -/

theorem variableType_reports (target : NameDef) :
    Reports (variableType target.ty target.pos) [.definition target] := by
  rw [variableType]
  split
  · next hty =>
    rw [hty]
    exact .fault (.voidDefinition hty) []
  · next hty =>
    refine .last _ ?_
    intro failure hfault
    cases hfault with
    | voidDefinition hvoid => exact hty hvoid

/-- The initial value of a variable, with the dimension if it is an image. -/
theorem lowerInitial_reports (h : env.Covers scope) (target : NameDef) (init? : Option Expr) :
    Reports (lowerInitial env target init?)
      (init?.toList.flatMap (Expr.visits scope) ++
        if target.ty = .image then
          target.dimension?.toList.flatMap fun size =>
            size.width.visits scope ++ size.height.visits scope
        else []) := by
  have hexpr := lowerExpr_reports h
  obtain ⟨name, ty, dimension?, pos⟩ := target
  by_cases hty : ty = .image
  · subst hty
    rcases init? with _ | init <;> rcases dimension? with _ | size <;>
      simp only [lowerInitial, Option.toList, List.flatMap_cons, List.flatMap_nil, if_true,
        List.append_nil, List.nil_append]
    · exact .pure _
    · exact (hexpr size.width).bind fun _ => (hexpr size.height).map
    · exact (hexpr init).map
    · exact (hexpr init).bind fun _ => (hexpr size.width).bind fun _ => (hexpr size.height).map
  · have hplain : lowerInitial env ⟨name, ty, dimension?, pos⟩ init? =
        match init? with
        | none => pure none
        | some init => do return some (← lowerExpr env init) := by
      cases ty <;> cases init? <;> first | rfl | exact absurd rfl hty
    rw [hplain, if_neg hty, List.append_nil]
    cases init? with
    | none => exact .pure _
    | some init =>
      simp only [Option.toList, List.flatMap_cons, List.flatMap_nil, List.append_nil]
      exact (hexpr init).map

/-- The part of a variable that an assignment selects fits the type of the variable. -/
theorem clear_selection {target : LValue} (himage : target.selector?.isSome → target.ty = .image)
    (hpixel : target.selector? = none → target.channel?.isSome → target.ty = .pixel) :
    (Node.selection target).Clear := by
  intro failure hfault
  cases hfault with
  | assignedPixel hselector hty => exact hty (himage hselector)
  | assignedChannel hselector hchannel hty => exact hty (hpixel hselector hchannel)

/-- An assignment: the name, the value, then the part of the variable that is selected. -/
theorem lowerAssign_reports (h : env.Covers scope) (target : LValue) (value : Expr) :
    Reports (lowerAssign env target value) (target.visits scope value) := by
  have hexpr := lowerExpr_reports h
  have hname : Reports (resolveName env target.name target.pos) [.target scope target] := by
    refine resolveName_reports h .unresolvedTarget ?_
    intro hname failure hfault
    cases hfault with
    | unresolvedTarget hscope => exact hscope hname
  rw [lowerAssign, LValue.visits, ← List.singleton_append]
  refine hname.bind fun name => (hexpr value).bind fun code => ?_
  obtain ⟨targetName, ty, selector?, channel?, pos⟩ := target
  cases selector? with
  | none =>
    cases channel? with
    | none => cases ty <;> exact .last _ (clear_selection (by simp) (by simp))
    | some channel =>
      cases ty with
      | pixel => exact .last _ (clear_selection (by simp) (by simp))
      | int | bool | string | image | void =>
        exact .fault (.assignedChannel rfl rfl (by simp)) []
  | some selector =>
    cases ty with
    | image =>
      have hselector : Reports (lowerSelector env selector)
          (selector.x.visits scope ++ selector.y.visits scope) :=
        (hexpr selector.x).bind fun _ => (hexpr selector.y).map
      simp only [Option.toList, List.flatMap_cons, List.flatMap_nil, List.append_nil]
      exact hselector.map.clear (clear_selection (by simp) (by simp))
    | int | bool | string | pixel | void => exact .fault (.assignedPixel rfl (by simp)) _

theorem lowerWrite_reports (h : env.Covers scope) (value : Expr) :
    Reports (lowerWrite env value) (value.visits scope) := by
  rw [lowerWrite]
  exact (lowerExpr_reports h value).map

/-- A returned channel that is typed as an integer. Without a whole image in the way, it is read
    like any other channel. -/
theorem lowerReturned_channel_reports (h : env.Covers scope) (info : Info) (base : Expr)
    (channel : Channel) (hint : info.ty = .int) :
    Reports (lowerChannelRead env base none channel)
      (.returned (.part info base (some channel)) ::
        (Expr.part info base (some channel)).visits scope) := by
  by_cases himage : base.ty = .image
  · have hstop : lowerChannelRead env base none channel =
        .error ⟨.unsupportedOperator ":" "image without a pixel selector", base.pos⟩ := by
      rw [lowerChannelRead]
      simp only [lowerPixel, wholePixel, himage]
      rfl
    rw [hstop]
    exact .fault (.returnedImage hint himage) _
  · have hread : lowerExpr env (.part info base (some channel)) =
        lowerChannelRead env base none channel := by
      rw [lowerExpr, if_neg himage]
      rfl
    rw [← hread]
    refine (lowerExpr_reports h _).clear ?_
    intro failure hfault
    cases hfault with
    | returnedImage _ hty => exact himage hty

/-- A returned value: first whether it is a channel of a whole image. -/
theorem lowerReturned_reports (h : env.Covers scope) (value : Expr) :
    Reports (lowerReturned env value) (.returned value :: value.visits scope) := by
  have hvalue := lowerExpr_reports h value
  cases value with
  | part info base channel? =>
    cases channel? with
    | none => exact hvalue.clear (by rintro failure ⟨⟩)
    | some channel =>
      rw [lowerReturned]
      split
      · next hint => exact lowerReturned_channel_reports h info base channel hint
      · next hint =>
        refine hvalue.clear ?_
        intro failure hfault
        cases hfault with
        | returnedImage hint' _ => exact hint hint'
  | pixelAt info base x y coordinates channel? =>
    rw [lowerReturned_pixelAt]
    exact hvalue.clear (by rintro failure ⟨⟩)
  | _ => exact hvalue.clear (by rintro failure ⟨⟩)

end

/-- Whether a program has the name of a method is a matter of the visit to the program. -/
theorem programName_reports (program : Program) :
    Reports (if Target.isMethodName program.name then .ok ()
      else .error ⟨.invalidProgramName program.name, program.pos⟩) [.program program] := by
  have hname := Lexical.isMethodName_iff program.name
  split
  · next hmethod =>
    refine .last () ?_
    intro failure hfault
    cases hfault with
    | programName hinvalid => exact hinvalid (hname.1 hmethod)
  · next hmethod => exact .fault (.programName fun hvalid => hmethod (hname.2 hvalid)) []

end PixelLowering.Lower

namespace PixelLowering.Lower.Lexical

open PixelLowering.Diagnostic
open PixelLowering.Names
open PixelLowering.Source

variable {ν α β : Type}

/-! ### The walk over statements -/

/-- From every state, an action reports on visits, and its result, if there is one, is as `post`
    says. -/
def Traces (action : LexicalM ν α) (nodes : List Node) (post : α → Prop) : Prop :=
  ∀ given, match action.run given with
    | .ok (a, _) => (∀ node ∈ nodes, node.Clear) ∧ post a
    | .error failure => FirstFault nodes failure

namespace Traces

variable {action : LexicalM ν α} {nodes nodes' : List Node} {post : α → Prop}

theorem pure {a : α} (h : post a) : Traces (pure a : LexicalM ν α) [] post :=
  fun _ => ⟨by simp, h⟩

theorem bind {next : α → LexicalM ν β} {post' : β → Prop} (h : Traces action nodes post)
    (hnext : ∀ a, post a → Traces (next a) nodes' post') :
    Traces (action >>= next) (nodes ++ nodes') post' := by
  intro given
  have hfirst := h given
  rw [StateT.run_bind]
  cases hrun : action.run given with
  | error failure =>
    rw [hrun] at hfirst
    exact hfirst.append_right nodes'
  | ok result =>
    rw [hrun] at hfirst
    have hsecond := hnext result.1 hfirst.2 result.2
    change match (next result.1).run result.2 with
      | .ok (b, _) => (∀ node ∈ nodes ++ nodes', node.Clear) ∧ post' b
      | .error failure => FirstFault (nodes ++ nodes') failure
    cases hrun' : (next result.1).run result.2 with
    | error failure =>
      rw [hrun'] at hsecond
      exact FirstFault.append_left hfirst.1 hsecond
    | ok result' =>
      rw [hrun'] at hsecond
      exact ⟨List.forall_mem_append.2 ⟨hfirst.1, hsecond.1⟩, hsecond.2⟩

/-- A last step that cannot fail. -/
theorem map {f : α → β} {post' : β → Prop} (h : Traces action nodes post)
    (hpost : ∀ a, post a → post' (f a)) :
    Traces (action >>= fun a => Pure.pure (f a)) nodes post' := by
  rw [← List.append_nil nodes]
  exact h.bind fun a ha => pure (hpost a ha)

/-- A visit at which nothing is wrong. -/
theorem clear {node : Node} (h : Traces action nodes post) (hnode : node.Clear) :
    Traces action (node :: nodes) post := by
  intro given
  have hrun := h given
  cases haction : action.run given with
  | error failure =>
    rw [haction] at hrun
    exact FirstFault.append_left (List.forall_mem_singleton.2 hnode) hrun
  | ok result =>
    rw [haction] at hrun
    exact ⟨List.forall_mem_cons.2 ⟨hnode, hrun.1⟩, hrun.2⟩

/-- A result that is there already. -/
theorem ofExcept {result : Except Failure α} (h : Reports result nodes) :
    Traces (liftM result : LexicalM ν α) nodes fun _ => True := by
  intro given
  cases result with
  | error failure => exact h
  | ok a => exact ⟨h, trivial⟩

theorem declare (supply : Supply ν) (name : String) :
    Traces (declare supply name) [] fun _ => True :=
  fun _ => ⟨by simp, trivial⟩

theorem flag (supply : Supply ν) : Traces (flag supply) [] fun _ => True :=
  fun _ => ⟨by simp, trivial⟩

end Traces

section

variable (supply : Supply ν)

theorem lowerDecl_traces {env : Env} {scope : List String} (h : env.Covers scope)
    (target : NameDef) (init? : Option Expr) :
    Traces (lowerStmt supply env (.decl target init?)) (target.visits scope init?)
      fun result => result.2.Covers (target.name :: scope) := by
  rw [lowerStmt, NameDef.visits, ← List.singleton_append, ← List.append_nil (_ ++ ite _ _ _)]
  refine (Traces.ofExcept (variableType_reports target)).bind fun ty _ => ?_
  refine (Traces.ofExcept (lowerInitial_reports h target init?)).bind fun value? _ => ?_
  exact (Traces.declare supply target.name).map fun emitted _ => h.bind target.name emitted

mutual

/-- Lowering a statement reports on its visits, and the environment that it leaves covers the scope
    that it leaves. -/
theorem lowerStmt_traces {env : Env} {scope : List String} (h : env.Covers scope) : ∀ s : Stmt,
    Traces (lowerStmt supply env s) (s.visits scope)
      fun result => result.2.Covers (s.scopeAfter scope)
  | .decl target init? => by
    rw [Stmt.visits]
    exact lowerDecl_traces supply h target init?
  | .assign target value => by
    rw [lowerStmt, Stmt.visits]
    exact (Traces.ofExcept (lowerAssign_reports h target value)).map fun _ _ => h
  | .write value => by
    rw [lowerStmt, Stmt.visits]
    exact (Traces.ofExcept (lowerWrite_reports h value)).map fun _ _ => h
  | .ret value => by
    rw [lowerStmt, Stmt.visits]
    exact (Traces.ofExcept (lowerReturned_reports h value)).map fun _ _ => h
  | .branch arms => by
    rw [lowerStmt, Stmt.visits]
    exact (lowerArms_traces h arms).map fun _ _ => h
  | .loop arms => by
    rw [lowerStmt, Stmt.visits]
    split
    · next hempty =>
      rw [List.isEmpty_iff.mp hempty, Stmt.visitsArms]
      exact .pure h
    · rw [← List.nil_append (Stmt.visitsArms scope arms)]
      refine (Traces.flag supply).bind fun name _ => ?_
      exact (lowerArms_traces h arms).map fun _ _ => h
  | .block body => by
    rw [lowerStmt, Stmt.visits]
    exact (lowerStmts_traces h body).map fun _ _ => h

theorem lowerStmts_traces {env : Env} {scope : List String} (h : env.Covers scope) :
    ∀ body : List Stmt,
      Traces (lowerStmts supply env body) (Stmt.visitsBlock scope body) fun _ => True
  | [] => by
    rw [lowerStmts, Stmt.visitsBlock]
    exact .pure trivial
  | s :: rest => by
    rw [lowerStmts, Stmt.visitsBlock]
    refine (lowerStmt_traces h s).bind fun result hnext => ?_
    exact (lowerStmts_traces hnext rest).map fun _ _ => trivial

theorem lowerArms_traces {env : Env} {scope : List String} (h : env.Covers scope) :
    ∀ arms : List (Guarded Stmt),
      Traces (lowerArms supply env arms) (Stmt.visitsArms scope arms) fun _ => True
  | [] => by
    rw [lowerArms, Stmt.visitsArms]
    exact .pure trivial
  | ⟨guard, body⟩ :: rest => by
    rw [lowerArms, Stmt.visitsArms, List.append_assoc]
    refine (Traces.ofExcept (lowerExpr_reports h guard)).bind fun test _ => ?_
    refine (lowerStmts_traces h body).bind fun code _ => ?_
    exact (lowerArms_traces h rest).map fun _ _ => trivial

end

/-- Lowering parameters reports on their definitions, and all of them are in scope then. -/
theorem lowerParams_traces {env : Env} {scope : List String} (h : env.Covers scope) :
    ∀ params : List NameDef,
      Traces (lowerParams supply env params) (params.map Node.definition)
        fun result => result.2.Covers (scope ++ params.map NameDef.name)
  | [] => by
    rw [lowerParams]
    refine .pure ?_
    simpa using h
  | param :: rest => by
    rw [lowerParams, List.map_cons, ← List.singleton_append]
    refine (Traces.ofExcept (variableType_reports param)).bind fun ty _ => ?_
    rw [← List.nil_append (List.map _ _)]
    refine (Traces.declare supply param.name).bind fun emitted _ => ?_
    refine (lowerParams_traces (h.bind param.name emitted) rest).map fun result hresult => ?_
    intro name
    rw [hresult name]
    simp only [List.mem_append, List.mem_cons, List.map_cons, or_assoc, or_left_comm]

end

/-- Lowering a program reports on all of its visits. -/
theorem lowerProgram_traces (supply : Supply ν) (program : Program) :
    Traces (lowerProgram supply program) program.visits fun _ => True := by
  have hempty : Env.empty.Covers [] := fun name => by simp [Env.empty]
  have hname := programName_reports program
  rw [lowerProgram, Program.visits]
  cases hmethod : Target.isMethodName program.name with
  | false =>
    rw [hmethod] at hname
    exact fun _ => hname.append_right _
  | true =>
    rw [hmethod] at hname
    refine Traces.clear ?_ (hname _ (List.mem_singleton_self _))
    refine (lowerParams_traces supply hempty program.params).bind fun result hresult => ?_
    exact (lowerStmts_traces supply hresult program.body).map fun _ _ => trivial

end PixelLowering.Lower.Lexical

namespace PixelLowering.Lower

open PixelLowering.Names
open PixelLowering.Source

/-- Where failures come from. A program fails if and only if something is wrong at one of its nodes,
    and then the failure is the one that describes the first such node in the order of evaluation;
    nothing is wrong at any node that is looked at before it. No program tries to close a scope that
    is not open. -/
theorem compile_eq_error_iff (width : Nat) (program : Program) :
    (∀ failure, (compile width program).1 = .error (.failure failure) ↔
      ∃ before node after, program.visits = before ++ node :: after ∧ Fault node failure ∧
        ∀ earlier ∈ before, ∀ other, ¬Fault earlier other) ∧
    (compile width program).1 ≠ .error .noOpenScope := by
  have hempty : Table.SameSupply {} {} := ⟨rfl, rfl⟩
  rw [Lexical.compile_eq Lexical.tableSupply_follows hempty width program fun _ _ => trivial,
    Lexical.compile]
  have htraces := Lexical.lowerProgram_traces Lexical.tableSupply program {}
  cases hrun : (Lexical.lowerProgram Lexical.tableSupply program).run {} with
  | error reason =>
    rw [hrun] at htraces
    refine ⟨fun failure => ⟨?_, ?_⟩, by rintro ⟨⟩⟩
    · rintro ⟨⟩
      exact htraces
    · intro hfirst
      rw [htraces.unique hfirst]
      rfl
  | ok result =>
    rw [hrun] at htraces
    refine ⟨fun failure => ⟨by rintro ⟨⟩, ?_⟩, by rintro ⟨⟩⟩
    intro hfirst
    exact absurd htraces.1 (FirstFault.not_clear hfirst)

end PixelLowering.Lower
