import PixelLowering.Lower.Statement
import PixelLowering.Proofs.Text.Indentation
import PixelLowering.Target.Render

/-! Guarded statements as text.

    The text of a guarded statement, written down from the texts of its guards and blocks alone:

        if (g₁) { b₁ } else if (g₂) { b₂ } else {        boolean f = true;
        }                                                while (f) {
                                                             f = false;
                                                             if (g₁) { f = true; { b₁ } } else ...
                                                         }

    What is printed is the tree of tests in which every `else` holds the rest of the tests, and it
    is printed statement by statement. Both ways give the same text, since a text of whole lines can
    be moved to the right in one piece or line by line. -/

namespace PixelLowering.Lower

open PixelLowering.Text

/-! ### Texts from the texts of the parts -/

/-- A block: its statements one step to the right, between braces. -/
def blockText (width : Nat) (body : List Target.Stmt) : String :=
  "\x7b\n" ++ indent width (Target.Stmt.renderLines width body) ++ "\x7d"

/-- A choice: the tests in order, with an empty `else` at the end or without it. -/
def choiceText (width : Nat) (closed : Bool) (arms : List Arm) : String :=
  let test (arm : Arm) := "if (" ++ arm.test.render ++ ") " ++ blockText width arm.body
  " else ".intercalate (arms.map test ++ if closed then ["\x7b\n\x7d"] else []) ++ "\n"

/-- A loop: the flag, and rounds in which it is lowered before the tests in order, and raised in
    front of the block that is taken. -/
def loopText (width : Nat) (flag : String) (arms : List Arm) : String :=
  let test (arm : Arm) :=
    "if (" ++ arm.test.render ++ ") \x7b\n" ++
      indent width (flag ++ " = true;\n" ++ blockText width arm.body ++ "\n") ++ "\x7d"
  "boolean " ++ flag ++ " = true;\n" ++ "while (" ++ flag ++ ") \x7b\n" ++
    indent width (flag ++ " = false;\n" ++ " else ".intercalate (arms.map test) ++ "\n") ++ "\x7d\n"

/-! ### Statements in a block -/

theorem ended_append_newline (text : String) : Ended (text ++ "\n").toList := .inr (by simp)

/-- Statements can be moved to the right one by one or all at once. -/
theorem renderInside_eq_indent (width : Nat) (body : List Target.Stmt) :
    Target.Stmt.renderInside width body = indent width (Target.Stmt.renderLines width body) := by
  induction body with
  | nil => rfl
  | cons s rest ih =>
    rw [Target.Stmt.renderInside, Target.Stmt.renderLines,
      indent_append (ended_append_newline (s.render width)), ih]

theorem braced_renderInside (width : Nat) (body : List Target.Stmt) :
    Target.braced (Target.Stmt.renderInside width body) = blockText width body := by
  rw [renderInside_eq_indent]
  rfl

/-! ### Tests in a chain -/

/-- The tests of a chain and its last resort, each as text. -/
def chainTexts (width : Nat) (last? : Option Target.Stmt) (arms : List Arm) : List String :=
  arms.map (fun arm => "if (" ++ arm.test.render ++ ") " ++ blockText width arm.body) ++
    last?.toList.map (Target.Stmt.render width)

theorem chainTexts_eq_nil_iff {width : Nat} {last? : Option Target.Stmt} {arms : List Arm} :
    chainTexts width last? arms = [] ↔ chain last? arms = none := by
  cases arms with
  | nil => cases last? <;> simp [chainTexts, chain]
  | cons arm rest =>
    rw [chain]
    cases chain last? rest <;> simp [chainTexts]

/-- A chain of tests is its tests with `else` between them. -/
theorem render_chain (width : Nat) (last? : Option Target.Stmt) :
    ∀ {arms : List Arm} {s : Target.Stmt}, chain last? arms = some s →
      s.render width = " else ".intercalate (chainTexts width last? arms)
  | [], s, h => by
    rw [chain] at h
    rw [h]
    exact String.intercalate_singleton.symm
  | arm :: rest, s, h => by
    have hcons : chainTexts width last? (arm :: rest) =
        ("if (" ++ arm.test.render ++ ") " ++ blockText width arm.body) ::
          chainTexts width last? rest := rfl
    rw [chain] at h
    rw [hcons]
    cases hrest : chain last? rest with
    | none =>
      rw [hrest] at h
      cases h
      rw [chainTexts_eq_nil_iff.2 hrest, String.intercalate_singleton, Target.Stmt.render,
        braced_renderInside]
    | some other =>
      rw [hrest] at h
      cases h
      have hne : chainTexts width last? rest ≠ [] := by
        rw [ne_eq, chainTexts_eq_nil_iff, hrest]
        exact Option.some_ne_none other
      rw [String.intercalate_cons_of_ne_nil hne, Target.Stmt.render, braced_renderInside,
        render_chain width last? hrest]

/-- A chain that is there has a line of its own for its end. -/
theorem renderLines_chain {width : Nat} {last? : Option Target.Stmt} {arms : List Arm}
    (hne : arms ≠ []) :
    Target.Stmt.renderLines width (chain last? arms).toList =
      " else ".intercalate (chainTexts width last? arms) ++ "\n" := by
  cases h : chain last? arms with
  | none =>
    rw [← @chainTexts_eq_nil_iff width, chainTexts, List.append_eq_nil_iff,
      List.map_eq_nil_iff] at h
    exact absurd h.1 hne
  | some s =>
    rw [Option.toList_some, Target.Stmt.renderLines, Target.Stmt.renderLines, String.append_empty,
      render_chain width last? h]

/-! ### Choices and loops -/

theorem renderLines_choice {width : Nat} {closed : Bool} {arms : List Arm} (hne : arms ≠ []) :
    Target.Stmt.renderLines width
        (chain (if closed then some (.block []) else none) arms).toList =
      choiceText width closed arms := by
  rw [renderLines_chain hne, chainTexts, choiceText]
  cases closed <;> rfl

theorem render_assign_bool (width : Nat) (flag : String) (value : Bool) :
    (Target.Stmt.assign flag (.bool value)).render width ++ "\n" =
      flag ++ (if value then " = true;\n" else " = false;\n") := by
  cases value <;> simp only [Target.Stmt.render, Target.Expr.render, String.append_assoc] <;> rfl

/-- A test in front of a block opens the block in its own line. -/
theorem test_append_block (start text : String) :
    start ++ ") " ++ ("\x7b\n" ++ text ++ "\x7d") = start ++ ") \x7b\n" ++ text ++ "\x7d" := by
  have hopen : ") " ++ "\x7b\n" = ") \x7b\n" := rfl
  rw [← hopen]
  simp only [String.append_assoc]

/-- An arm of a loop raises the flag before its block. -/
theorem render_loopArm (width : Nat) (flag : String) (arm : Arm) :
    "if (" ++ arm.test.render ++ ") " ++ blockText width (loopArm flag arm).body =
      "if (" ++ arm.test.render ++ ") \x7b\n" ++
        indent width (flag ++ " = true;\n" ++ blockText width arm.body ++ "\n") ++ "\x7d" := by
  have hbody : Target.Stmt.renderLines width (loopArm flag arm).body =
      flag ++ " = true;\n" ++ blockText width arm.body ++ "\n" := by
    rw [loopArm, Target.Stmt.renderLines, render_assign_bool, if_pos rfl, Target.Stmt.renderLines,
      Target.Stmt.renderLines, Target.Stmt.render, braced_renderInside]
    simp only [String.append_assoc, String.append_empty]
  rw [blockText, hbody, test_append_block]

theorem renderLines_loopStmts {width : Nat} {flag : String} {arms : List Arm} (hne : arms ≠ []) :
    Target.Stmt.renderLines width (loopStmts flag arms) = loopText width flag arms := by
  have hdeclare : (Target.Stmt.declare .bool flag (some (.bool true))).render width ++ "\n" =
      "boolean " ++ flag ++ " = true;\n" := by
    simp only [Target.Stmt.render, Target.Expr.render, String.append_assoc]
    rfl
  have htests : chainTexts width none (arms.map (loopArm flag)) =
      arms.map fun arm => "if (" ++ arm.test.render ++ ") \x7b\n" ++
        indent width (flag ++ " = true;\n" ++ blockText width arm.body ++ "\n") ++ "\x7d" := by
    rw [chainTexts, Option.toList_none, List.map_nil, List.append_nil, List.map_map]
    exact List.map_congr_left fun arm _ => render_loopArm width flag arm
  have hround : Target.Stmt.renderLines width
      (.assign flag (.bool false) :: (chain none (arms.map (loopArm flag))).toList) =
      flag ++ " = false;\n" ++ " else ".intercalate (chainTexts width none
        (arms.map (loopArm flag))) ++ "\n" := by
    rw [Target.Stmt.renderLines, render_assign_bool, renderLines_chain (by simpa using hne),
      ← String.append_assoc]
    rfl
  rw [loopStmts, Target.Stmt.renderLines, hdeclare, Target.Stmt.renderLines,
    Target.Stmt.renderLines, Target.Stmt.render, Target.Expr.render, braced_renderInside,
    blockText, test_append_block, hround, htests, loopText]
  simp only [String.append_assoc, String.append_empty]
  rfl

end PixelLowering.Lower
