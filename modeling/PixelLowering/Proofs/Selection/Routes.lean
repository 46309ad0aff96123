import PixelLowering.Proofs.Guarded.Preservation
import PixelLowering.Proofs.Reading.Alike
import PixelLowering.Proofs.Scopes.Residue

/-! The routes by which part of a pixel or an image is read or written.

    A selection is lowered in four places, each with a choice of its own between pixels and images:
    as an expression, as a channel read, as a returned value, and as the target of an assignment.
    They meet in the same texts:

        expression   base[x, y]:red        PixelOps.red(    ImageOps.getRGB(base, x, y) )
        assignment   n[x, y]:red ← v       PixelOps.setRed( ImageOps.getRGB(n, x, y), v )
        written to   n[x, y]               ImageOps.setRGB(n, x, y, … )

    They part in one case only. A channel of a whole image is an image; where such a selection is
    typed as an integer, an expression still takes the channel of the image, and a return asks for
    the channel of a pixel and fails. No expression fails in that way, so the two never agree. -/

namespace PixelLowering.Source

open PixelLowering.Diagnostic

/-- A selection, with coordinates or without. -/
def Expr.select (info : Info) (base : Expr) (selector? : Option Selector)
    (channel? : Option Channel) : Expr :=
  match selector? with
  | none => .part info base channel?
  | some selector => .pixelAt info base selector.x selector.y selector.pos channel?

/-- A channel of the whole image `base`, typed as an integer. -/
inductive IntOfImage : Expr → Expr → Prop
  | mk {info : Info} {base : Expr} {channel : Channel} (hint : info.ty = .int)
      (himage : base.ty = .image) : IntOfImage (.part info base (some channel)) base

/-! ### No expression asks a whole image for a pixel -/

theorem Operator.symbol_ne_colon (op : Operator) : op.symbol ≠ ":" := by
  cases op <;> decide

theorem Fault.ne_colon {scope : List String} {e : Expr} {failure : Failure}
    (h : Fault (.expr scope e) failure) (operands : String) (pos : Position) :
    failure ≠ ⟨.unsupportedOperator ":" operands, pos⟩ := by
  intro hcolon
  cases h with
  | unary hop | binary hop =>
    rw [Failure.mk.injEq, Cause.unsupportedOperator.injEq] at hcolon
    exact Operator.symbol_ne_colon _ hcolon.1.1
  | _ => simp at hcolon

/-- All nodes of an expression are expressions. -/
theorem Expr.exists_of_mem_visits {scope : List String} {e : Expr} {node : Node}
    (h : node ∈ e.visits scope) : ∃ e', node = .expr scope e' := by
  induction e with
  | num info text | str info text | bool info text | ident info name | const info name =>
    rw [visits, List.mem_singleton] at h
    exact ⟨_, h⟩
  | cond info guard yes no ihGuard ihYes ihNo =>
    simp only [visits, List.mem_append, List.mem_singleton] at h
    rcases h with ((h | h) | h) | h
    · exact ihGuard h
    · exact ihYes h
    · exact ihNo h
    · exact ⟨_, h⟩
  | unary info op operand ih =>
    simp only [visits, List.mem_append, List.mem_singleton] at h
    rcases h with h | h
    · exact ih h
    · exact ⟨_, h⟩
  | binary info op left right ihLeft ihRight =>
    simp only [visits, List.mem_append, List.mem_singleton] at h
    rcases h with (h | h) | h
    · exact ihLeft h
    · exact ihRight h
    · exact ⟨_, h⟩
  | part info base channel? ih =>
    simp only [visits, List.mem_cons] at h
    rcases h with h | h
    · exact ⟨_, h⟩
    · exact ih h
  | pixelAt info base x y coordinates channel? ihBase ihX ihY =>
    simp only [visits, List.mem_cons, List.mem_append] at h
    rcases h with h | (h | h) | h
    · exact ⟨_, h⟩
    · exact ihBase h
    · exact ihX h
    · exact ihY h
  | pixel info red green blue ihRed ihGreen ihBlue =>
    simp only [visits, List.mem_append, List.mem_singleton] at h
    rcases h with ((h | h) | h) | h
    · exact ihRed h
    · exact ihGreen h
    · exact ihBlue h
    · exact ⟨_, h⟩

end PixelLowering.Source

namespace PixelLowering.Lower

open PixelLowering.Diagnostic
open PixelLowering.Library
open PixelLowering.Names
open PixelLowering.Source

/-- A channel of a pixel is asked of a whole image. -/
def noPixelSelected (base : Expr) : Failure :=
  ⟨.unsupportedOperator ":" "image without a pixel selector", base.pos⟩

/-- An expression never fails in that way. -/
theorem lowerExpr_ne_noPixelSelected (table : Table) (e base : Expr) :
    lowerExpr table.resolve? e ≠ .error (noPixelSelected base) := by
  intro h
  have hreports := lowerExpr_reports table.covers_visibleNames e
  rw [h] at hreports
  obtain ⟨before, node, after, hvisits, hfault, -⟩ := hreports
  have hnode : node ∈ e.visits table.visibleNames := by simp [hvisits]
  obtain ⟨e', rfl⟩ := Expr.exists_of_mem_visits hnode
  exact hfault.ne_colon _ _ rfl

/-! ### Channels that are read -/

section

variable (env : Env) (info : Info) (base : Expr) (channel : Channel)

/-- A whole image has no channel of a pixel, whatever the image is. -/
theorem lowerChannelRead_image (h : base.ty = .image) :
    lowerChannelRead env base none channel = .error (noPixelSelected base) := by
  rw [lowerChannelRead]
  simp only [lowerPixel, wholePixel, h]
  rfl

/-- Everywhere else a channel read is what the expression is, failures included. -/
theorem lowerChannelRead_eq {selector? : Option Selector}
    (h : selector? = none → base.ty ≠ .image) :
    lowerChannelRead env base selector? channel =
      lowerExpr env (.select info base selector? (some channel)) := by
  cases selector? with
  | none =>
    rw [Expr.select, lowerExpr, if_neg (h rfl)]
    rfl
  | some selector =>
    exact lowerChannelRead_pixelAt env info base selector.x selector.y selector.pos channel

/-- A channel that is read is a channel of the same selection without it. -/
theorem lowerExpr_of_channelRead {selector? : Option Selector} {t : Target.Expr}
    (h : lowerChannelRead env base selector? channel = .ok t) :
    ∃ pixel, lowerExpr env (.select info base selector? none) = .ok pixel ∧
      t = channelOf channel pixel := by
  cases selector? with
  | none =>
    rw [lowerChannelRead] at h
    obtain ⟨pixel, hpixel, ht⟩ := bind_eq_ok h
    cases ht
    refine ⟨pixel, ?_, rfl⟩
    -- only a pixel is a pixel by itself
    simp only [lowerPixel, wholePixel] at hpixel
    split at hpixel
    · next hty =>
      rw [Expr.select, lowerExpr, hty]
      exact hpixel
    · cases hpixel
    · cases hpixel
  | some selector =>
    rw [lowerChannelRead] at h
    obtain ⟨pixel, hpixel, ht⟩ := bind_eq_ok h
    cases ht
    exact ⟨pixel, hpixel, rfl⟩

end

/-! ### Values that are returned -/

section

variable {env : Env} {value base : Expr}

theorem lowerReturned_of_intOfImage (h : IntOfImage value base) :
    lowerReturned env value = .error (noPixelSelected base) := by
  obtain ⟨hint, himage⟩ := h
  rw [lowerReturned, if_pos hint]
  exact lowerChannelRead_image env base _ himage

theorem lowerReturned_eq_lowerExpr (h : ¬∃ base, IntOfImage value base) :
    lowerReturned env value = lowerExpr env value := by
  cases value with
  | part info base channel? =>
    cases channel? with
    | none => rfl
    | some channel =>
      rw [lowerReturned]
      split
      · next hint =>
        exact lowerChannelRead_eq env info base channel fun _ himage => h ⟨base, hint, himage⟩
      · rfl
  | pixelAt info base x y coordinates channel? =>
    exact lowerReturned_pixelAt env info base x y coordinates channel?
  | _ => rfl

/-- What a return statement gives for its value: the value as text between `return` and a semicolon,
    or the failure in its place. -/
def returnOf (pass : Pass) : Except Failure Target.Expr → Except Stop String × Pass
  | .ok value => (.ok ("return " ++ value.render ++ ";\n"), pass)
  | .error failure => (.error (.failure failure), pass)

theorem run_ret (pass : Pass) (width : Nat) :
    pass.run (stmtText width (.ret value)) =
      returnOf pass (lowerReturned pass.names.resolve? value) := by
  rw [stmtText, lowerStmt, map_eq_pure_bind, Pass.run_bind, Pass.run_bind, Pass.run_inScope]
  cases lowerReturned pass.names.resolve? value with
  | error failure => rfl
  | ok t =>
    simp only [returnOf, Except.mapError, Pass.run_pure, Target.Stmt.renderLines,
      Target.Stmt.render, String.append_empty]
    rw [String.append_assoc]
    rfl

end

/-! ### Parts that are assigned -/

section

variable {pass after : Pass} {width : Nat} {name text : String} {channel : Channel}
  {pos : Position} {value : Expr}

theorem run_assign {target : LValue}
    (h : pass.run (stmtText width (.assign target value)) = (.ok text, after)) :
    ∃ s, lowerAssign pass.names.resolve? target value = .ok s ∧ text = s.render width ++ "\n" := by
  obtain ⟨code, hcode, rfl⟩ := run_stmtText h
  rw [lowerStmt, Pass.run_bind_eq_ok] at hcode
  obtain ⟨s, middle, hs, hcode⟩ := hcode
  cases hcode
  refine ⟨s, ((Pass.run_inScope_eq_ok pass).1 hs).1, ?_⟩
  simp only [Target.Stmt.renderLines, String.append_empty]

/-- Reading a variable does not depend on where it is read. -/
theorem lowerExpr_ident {env : Env} {emitted : String}
    (h : resolveName env name pos = .ok emitted) (info : Info) :
    lowerExpr env (.ident info name) = .ok (.var emitted) := by
  rw [lowerExpr, resolveName]
  rw [resolveName] at h
  cases henv : env name with
  | none =>
    rw [henv] at h
    cases h
  | some other =>
    rw [henv] at h
    cases h
    rfl

/-- A text that sets a channel of a pixel variable, in what reading the variable gives. -/
def SetsChannel (env : Env) (name : String) (channel : Channel) (value : Expr) (text : String) :
    Prop :=
  ∃ pixel v : Target.Expr,
    (∀ info, lowerExpr env (.ident info name) = .ok pixel) ∧ lowerExpr env value = .ok v ∧
    text = pixel.render ++ " = " ++
      callText (Routine.setChannel channel).name [pixel.render, v.render] ++ ";\n"

/-- A text that sets a channel of one pixel of an image variable, in what reading this pixel gives,
    and writes the result to where it was read. -/
def SetsChannelAt (env : Env) (name : String) (selector : Selector) (channel : Channel)
    (value : Expr) (text : String) : Prop :=
  ∃ image x y pixel v : Target.Expr,
    (∀ pos, lowerExpr env (.ident ⟨.image, pos⟩ name) = .ok image) ∧
    lowerExpr env selector.x = .ok x ∧ lowerExpr env selector.y = .ok y ∧
    (∀ info pos, lowerExpr env
      (.select info (.ident ⟨.image, pos⟩ name) (some selector) none) = .ok pixel) ∧
    pixel.render = callText Routine.getRGB.name [image.render, x.render, y.render] ∧
    lowerExpr env value = .ok v ∧
    text = callText Routine.setRGB.name [image.render, x.render, y.render,
      callText (Routine.setChannel channel).name [pixel.render, v.render]] ++ ";\n"

theorem setsChannel_of_run
    (h : pass.run (stmtText width (.assign ⟨name, .pixel, none, some channel, pos⟩ value)) =
      (.ok text, after)) : SetsChannel pass.names.resolve? name channel value text := by
  obtain ⟨s, hs, rfl⟩ := run_assign h
  rw [lowerAssign] at hs
  obtain ⟨emitted, hemitted, hs⟩ := bind_eq_ok hs
  obtain ⟨v, hv, hs⟩ := bind_eq_ok hs
  cases hs
  refine ⟨.var emitted, v, lowerExpr_ident hemitted, hv, ?_⟩
  simp [Target.Stmt.render, Target.Expr.render, String.append_assoc]

theorem setsChannelAt_of_run {selector : Selector}
    (h : pass.run
      (stmtText width (.assign ⟨name, .image, some selector, some channel, pos⟩ value)) =
      (.ok text, after)) : SetsChannelAt pass.names.resolve? name selector channel value text := by
  obtain ⟨s, hs, rfl⟩ := run_assign h
  rw [lowerAssign] at hs
  obtain ⟨emitted, hemitted, hs⟩ := bind_eq_ok hs
  obtain ⟨v, hv, hs⟩ := bind_eq_ok hs
  obtain ⟨⟨x, y⟩, hxy, hs⟩ := bind_eq_ok hs
  obtain ⟨x', hx, hxy⟩ := bind_eq_ok hxy
  obtain ⟨y', hy, hxy⟩ := bind_eq_ok hxy
  cases hxy
  cases hs
  refine ⟨.var emitted, x, y, .call .getRGB none [.var emitted, x, y], v,
    fun pos => lowerExpr_ident hemitted _, hx, hy, ?_, ?_, hv, ?_⟩
  · intro info pos
    rw [Expr.select, lowerExpr, lowerExpr_ident hemitted, hx, hy]
    rfl
  · simp [Target.Expr.render]
  · simp [Target.Stmt.render, Target.Expr.render, String.append_assoc]

end

/-! ### All routes -/

/-- The routes agree, in every state of a pass.

    A return gives what its value gives as an expression, text or failure, if and only if the value
    is no channel of a whole image typed as an integer. For such a value it fails at the base,
    whatever the base is.

    A channel read that succeeds calls the reader of the channel on the text of the same selection
    without a channel; and it is what the selection with the channel is as an expression, unless it
    asks a whole image.

    An assignment to a channel, of one pixel of an image or of a pixel, sets the channel in the text
    that reading this pixel has in the same state. For an image the result is written back with the
    texts of the image and the coordinates that it was read with. -/
theorem selection_routes_agree (pass : Pass) (width : Nat) :
    let env := pass.names.resolve?
    (∀ value : Expr,
      (pass.run (stmtText width (.ret value)) = returnOf pass (lowerExpr env value) ↔
        ¬∃ base, IntOfImage value base) ∧
      ∀ base, IntOfImage value base →
        pass.run (stmtText width (.ret value)) = returnOf pass (.error (noPixelSelected base))) ∧
    (∀ info base selector? channel,
      (∀ t, lowerChannelRead env base selector? channel = .ok t →
        ∃ pixel, lowerExpr env (.select info base selector? none) = .ok pixel ∧
          t.render = callText (Routine.getChannel channel).name [pixel.render]) ∧
      ((selector? = none → base.ty ≠ .image) →
        lowerChannelRead env base selector? channel =
          lowerExpr env (.select info base selector? (some channel)))) ∧
    (∀ name selector channel pos value text after,
      pass.run (stmtText width (.assign ⟨name, .image, some selector, some channel, pos⟩ value)) =
        (.ok text, after) → SetsChannelAt env name selector channel value text) ∧
    ∀ name channel pos value text after,
      pass.run (stmtText width (.assign ⟨name, .pixel, none, some channel, pos⟩ value)) =
        (.ok text, after) → SetsChannel env name channel value text := by
  intro env
  refine ⟨?_, ?_, ?_, ?_⟩
  · intro value
    have himage : ∀ base, IntOfImage value base →
        pass.run (stmtText width (.ret value)) = returnOf pass (.error (noPixelSelected base)) := by
      intro base hbase
      rw [run_ret, lowerReturned_of_intOfImage hbase]
    refine ⟨⟨?_, ?_⟩, himage⟩
    · rintro hagree ⟨base, hbase⟩
      rw [himage base hbase] at hagree
      cases hlowered : lowerExpr env value with
      | ok t =>
        rw [hlowered] at hagree
        cases hagree
      | error failure =>
        rw [hlowered] at hagree
        cases hagree
        exact lowerExpr_ne_noPixelSelected pass.names value base hlowered
    · intro hvalue
      rw [run_ret, lowerReturned_eq_lowerExpr hvalue]
  · intro info base selector? channel
    refine ⟨?_, lowerChannelRead_eq env info base channel⟩
    intro t ht
    obtain ⟨pixel, hpixel, rfl⟩ := lowerExpr_of_channelRead env info base channel ht
    refine ⟨pixel, hpixel, ?_⟩
    simp [channelOf, Target.Expr.render]
  · intro name selector channel pos value text after h
    exact setsChannelAt_of_run h
  · intro name channel pos value text after h
    exact setsChannel_of_run h

/-- A pass in which `photo` is an image. -/
def photoPass : Pass := ⟨(({} : Table).run [.parameter "photo" .image]).2, []⟩

def photo : Expr := .ident ⟨.image, .unknown⟩ "photo"

def corner : Selector :=
  let zero : Expr := .num ⟨.int, .unknown⟩ "0"
  ⟨zero, zero, .unknown⟩

theorem selection_routes_agree_photo :
    photoPass.run (stmtText 4 (.assign ⟨"photo", .image, some corner, some .red, .unknown⟩
      (.const ⟨.int, .unknown⟩ "Z"))) =
      (.ok "ImageOps.setRGB(photo, 0, 0, PixelOps.setRed(ImageOps.getRGB(photo, 0, 0), 255));\n",
        photoPass) ∧
    (∃ pixel : Target.Expr, lowerExpr photoPass.names.resolve?
      (.select ⟨.pixel, .unknown⟩ photo (some corner) none) = .ok pixel ∧
      pixel.render = "ImageOps.getRGB(photo, 0, 0)") ∧
    IntOfImage (.part ⟨.int, .unknown⟩ photo (some .red)) photo ∧
    photoPass.run (stmtText 4 (.ret (.part ⟨.int, .unknown⟩ photo (some .red)))) =
      (.error (.failure ⟨.unsupportedOperator ":" "image without a pixel selector", .unknown⟩),
        photoPass) := by
  have hassign : photoPass.run (stmtText 4
      (.assign ⟨"photo", .image, some corner, some .red, .unknown⟩
        (.const ⟨.int, .unknown⟩ "Z"))) =
      (.ok "ImageOps.setRGB(photo, 0, 0, PixelOps.setRed(ImageOps.getRGB(photo, 0, 0), 255));\n",
        photoPass) := by
    decide +kernel
  have hint : IntOfImage (.part ⟨.int, .unknown⟩ photo (some .red)) photo := .mk rfl rfl
  obtain ⟨hret, -, himage, -⟩ := selection_routes_agree photoPass 4
  obtain ⟨image, x, y, pixel, v, hphoto, hx, hy, hpixel, hrender, -⟩ :=
    himage _ _ _ _ _ _ _ hassign
  cases hphoto .unknown
  cases hx
  cases hy
  refine ⟨hassign, ⟨pixel, hpixel _ _, ?_⟩, hint, (hret _).2 photo hint⟩
  rw [hrender]
  decide +kernel

end PixelLowering.Lower
