import PixelLowering.Proofs.Literals.Moved

/-! Literals in the text of a target tree.

    In the text of an expression a literal stands as it is, and so it does in the text of the
    statement around it. From there on only lines are moved. The depth of a literal is the number of
    blocks around it, which is how often the lines of its statement move:

        if (s == "a") {            0   "a"
            while (f("b")) {       1   "b"
                g("c");            2   "c"
            }
        } else if ("d" == s) {     0   "d" -/

namespace PixelLowering.Target

open PixelLowering.Library
open PixelLowering.Text

mutual

/-- The literals in an expression. -/
def Expr.literals : Expr → List String
  | .literal text => [text]
  | .bool _ | .var _ => []
  | .cond test yes no => test.literals ++ yes.literals ++ no.literals
  | .unary _ operand | .measure _ operand => operand.literals
  | .infixed _ left right | .equals left right | .power left right =>
    left.literals ++ right.literals
  | .call _ _ arguments => Expr.literalsEach arguments

/-- The literals in several expressions. -/
def Expr.literalsEach : List Expr → List String
  | [] => []
  | e :: rest => e.literals ++ Expr.literalsEach rest

end

/-- The literals of an expression that stands in so many blocks. -/
def Expr.literalsAt (depth : Nat) (e : Expr) : List (Nat × String) := e.literals.map (Prod.mk depth)

mutual

/-- The literals in a statement, each with the number of blocks around it. -/
def Stmt.literals (depth : Nat) : Stmt → List (Nat × String)
  | .declare _ _ value? => value?.toList.flatMap (Expr.literalsAt depth)
  | .assign _ value | .perform value | .ret value => value.literalsAt depth
  | .ifThen test body | .whileLoop test body =>
    test.literalsAt depth ++ Stmt.literalsIn (depth + 1) body
  | .ifElse test body other =>
    test.literalsAt depth ++ Stmt.literalsIn (depth + 1) body ++ other.literals depth
  | .block body => Stmt.literalsIn (depth + 1) body

/-- The literals in several statements. -/
def Stmt.literalsIn (depth : Nat) : List Stmt → List (Nat × String)
  | [] => []
  | s :: rest => s.literals depth ++ Stmt.literalsIn depth rest

end

theorem Expr.mem_literalsAt {depth d : Nat} {text : String} {e : Expr} :
    (d, text) ∈ e.literalsAt depth ↔ d = depth ∧ text ∈ e.literals := by
  rw [literalsAt, List.mem_map]
  constructor
  · rintro ⟨_, hmem, ⟨⟩⟩
    exact ⟨rfl, hmem⟩
  · rintro ⟨rfl, hmem⟩
    exact ⟨text, hmem, rfl⟩

theorem Stmt.literalsIn_append (depth : Nat) (first second : List Stmt) :
    Stmt.literalsIn depth (first ++ second) =
      Stmt.literalsIn depth first ++ Stmt.literalsIn depth second := by
  induction first with
  | nil => rw [Stmt.literalsIn, List.nil_append, List.nil_append]
  | cons s rest ih => rw [List.cons_append, Stmt.literalsIn, Stmt.literalsIn, ih, List.append_assoc]

theorem Stmt.literalsIn_singleton (depth : Nat) (s : Stmt) :
    Stmt.literalsIn depth [s] = s.literals depth := by
  rw [Stmt.literalsIn, Stmt.literalsIn, List.append_nil]

/-! ### Expressions -/

/-- What an argument holds, the call holds. -/
theorem holds_callText {argument piece : List Char} (h : Holds argument piece) (function : String)
    {arguments : List String} (hmem : argument ∈ arguments.map String.toList) :
    Holds (callText function arguments).toList piece := by
  rw [callText]
  simp only [String.toList_append, String.toList_intercalate, List.append_assoc]
  exact (((holds_intercalate h hmem).append_right (by decide)).append_left _).append_left _

theorem solid_infixOp (op : InfixOp) (rest : List Char) :
    Solid (" ".toList ++ (op.symbol.toList ++ rest)) := by
  have hsymbol : Solid (" ".toList ++ op.symbol.toList) := by cases op <;> decide
  rw [← List.append_assoc]
  exact hsymbol.append rest

mutual

/-- A literal stands in the text of the expression as it is. -/
theorem holds_render : ∀ (e : Expr) {text : String}, text ∈ e.literals →
    Holds e.render.toList text.toList
  | .literal text, _, h => by
    rw [Expr.literals, List.mem_singleton] at h
    rw [h, Expr.render]
    exact .refl _
  | .bool _, _, h | .var _, _, h => by
    rw [Expr.literals] at h
    cases h
  | .cond test yes no, text, h => by
    rw [Expr.literals, List.mem_append, List.mem_append] at h
    rw [Expr.render]
    simp only [String.toList_append, List.append_assoc]
    -- as in all cases, what is solid behind an operand is the mark that is written there
    rcases h with (h | h) | h
    · exact ((holds_render test h).append_right (.append (by decide) _)).append_left _
    · iterate 3 refine .append_left ?_ _
      exact (holds_render yes h).append_right (.append (by decide) _)
    · iterate 5 refine .append_left ?_ _
      exact (holds_render no h).append_right (by decide)
  | .unary op operand, text, h => by
    rw [Expr.literals] at h
    rw [Expr.render]
    simp only [String.toList_append, List.append_assoc]
    exact (((holds_render operand h).append_right (by decide)).append_left _).append_left _
  | .measure axis image, text, h => by
    rw [Expr.literals] at h
    rw [Expr.render]
    simp only [String.toList_append, List.append_assoc]
    exact ((holds_render image h).append_right (.append (by decide) _)).append_left _
  | .infixed op left right, text, h => by
    rw [Expr.literals, List.mem_append] at h
    rw [Expr.render]
    simp only [String.toList_append, List.append_assoc]
    rcases h with h | h
    · exact ((holds_render left h).append_right (solid_infixOp op _)).append_left _
    · iterate 5 refine .append_left ?_ _
      exact (holds_render right h).append_right (by decide)
  | .equals receiver argument, text, h => by
    rw [Expr.literals, List.mem_append] at h
    rw [Expr.render]
    simp only [String.toList_append, List.append_assoc]
    rcases h with h | h
    · exact (holds_render receiver h).append_right (.append (by decide) _)
    · exact (((holds_render argument h).append_right (by decide)).append_left _).append_left _
  | .power base exponent, text, h => by
    rw [Expr.literals, List.mem_append] at h
    rw [Expr.render]
    simp only [String.toList_append, List.append_assoc]
    have hraised : Holds (callText Routine.pow.name [base.render, exponent.render]).toList
        text.toList := by
      rcases h with h | h
      · exact holds_callText (holds_render base h) _ (by simp)
      · exact holds_callText (holds_render exponent h) _ (by simp)
    exact ((holds_callText hraised _ (by simp)).append_right (by decide)).append_left _
  | .call routine tag? arguments, text, h => by
    rw [Expr.literals] at h
    rw [Expr.render]
    obtain ⟨argument, hmem, hargument⟩ := holds_renderEach arguments h
    exact holds_callText hargument _ (List.mem_map_of_mem (List.mem_append_right _ hmem))

theorem holds_renderEach : ∀ (es : List Expr) {text : String}, text ∈ Expr.literalsEach es →
    ∃ argument ∈ Expr.renderEach es, Holds argument.toList text.toList
  | [], _, h => by
    rw [Expr.literalsEach] at h
    cases h
  | e :: rest, text, h => by
    rw [Expr.literalsEach, List.mem_append] at h
    rw [Expr.renderEach]
    rcases h with h | h
    · exact ⟨e.render, List.mem_cons_self, holds_render e h⟩
    · obtain ⟨argument, hmem, hargument⟩ := holds_renderEach rest h
      exact ⟨argument, List.mem_cons_of_mem _ hmem, hargument⟩

end

/-! ### Statements -/

theorem encloses_opening {test : Expr} {text : String} (h : text ∈ test.literals)
    (keyword : String) (lead : List Char) :
    Encloses (lead ++ opening keyword test ++ ['\n']) text.toList := by
  rw [opening]
  simp only [String.toList_append, List.append_assoc]
  iterate 3 refine .append_left ?_ _
  exact (holds_render test h).encloses (.append (by decide) _)

/-- A literal stands in the text of a statement without blocks as it is. -/
theorem encloses_value {value : Expr} {text : String} (h : text ∈ value.literals)
    (lead : List Char) (start : String) :
    Encloses (lead ++ (start ++ value.render ++ ";").toList ++ ['\n']) text.toList := by
  simp only [String.toList_append, List.append_assoc]
  iterate 2 refine .append_left ?_ _
  exact (holds_render value h).encloses (.append (by decide) _)

mutual

/-- In the lines of a statement, moved as often as there are blocks around it, every literal of it
    is held at its depth. -/
theorem layout_holds (depth : Nat) : ∀ (s : Stmt) (lead : List Char) {d : Nat} {text : String},
    (d, text) ∈ s.literals depth →
      PageHolds ((s.layout lead).map Entry.raise^[depth]) d text.toList
  | .declare ty name none, lead, d, text, h => by
    rw [Stmt.literals] at h
    cases h
  | .declare ty name (some value), lead, d, text, h => by
    rw [Stmt.literals, Option.toList_some, List.flatMap_singleton, Expr.mem_literalsAt] at h
    obtain ⟨rfl, h⟩ := h
    rw [Stmt.layout, Stmt.render]
    exact pageHolds_flat (encloses_value h lead _) d
  | .assign _ value, lead, d, text, h | .ret value, lead, d, text, h => by
    rw [Stmt.literals, Expr.mem_literalsAt] at h
    obtain ⟨rfl, h⟩ := h
    rw [Stmt.layout, Stmt.render]
    exact pageHolds_flat (encloses_value h lead _) d
  | .perform action, lead, d, text, h => by
    rw [Stmt.literals, Expr.mem_literalsAt] at h
    obtain ⟨rfl, h⟩ := h
    rw [Stmt.layout, Stmt.render]
    have hvalue := encloses_value h lead ""
    rw [String.empty_append] at hvalue
    exact pageHolds_flat hvalue d
  | .ifThen test body, lead, d, text, h | .whileLoop test body, lead, d, text, h => by
    rw [Stmt.literals, List.mem_append, Expr.mem_literalsAt] at h
    rw [Stmt.layout, List.map_append, List.map_append]
    refine PageHolds.append_right ?_ _
    rcases h with ⟨rfl, h⟩ | h
    · exact (pageHolds_flat (encloses_opening h _ lead) d).append_right _
    · exact (layoutInside_holds depth body h).append_left _
  | .ifElse test body other, lead, d, text, h => by
    rw [Stmt.literals, List.mem_append, List.mem_append, Expr.mem_literalsAt] at h
    rw [Stmt.layout, List.map_append, List.map_append]
    -- the rest of the chain starts in the line that closes the block, at the same depth
    rcases h with (⟨rfl, h⟩ | h) | h
    · exact ((pageHolds_flat (encloses_opening h _ lead) d).append_right _).append_right _
    · exact ((layoutInside_holds depth body h).append_left _).append_right _
    · exact (layout_holds depth other _ h).append_left _
  | .block body, lead, d, text, h => by
    rw [Stmt.literals] at h
    rw [Stmt.layout, List.map_append, List.map_append]
    exact ((layoutInside_holds depth body h).append_left _).append_right _

/-- The lines inside a block move once more than those around it. -/
theorem layoutInside_holds (depth : Nat) : ∀ (body : List Stmt) {d : Nat} {text : String},
    (d, text) ∈ Stmt.literalsIn (depth + 1) body →
      PageHolds ((Stmt.layoutInside body).map Entry.raise^[depth]) d text.toList
  | [], d, text, h => by
    rw [Stmt.literalsIn] at h
    cases h
  | s :: rest, d, text, h => by
    rw [Stmt.literalsIn, List.mem_append] at h
    rw [Stmt.layoutInside, List.map_append, List.map_map, ← Function.iterate_succ]
    rcases h with h | h
    · exact (layout_holds (depth + 1) s [] h).append_right _
    · exact (layoutInside_holds depth rest h).append_left _

end

/-- In the text of a method, every literal of its body is found, moved by its depth. -/
theorem moved_infix_render (width : Nat) (method : Method) {depth : Nat} {text : String}
    (h : (depth, text) ∈ Stmt.literalsIn 1 method.body) :
    moved (width * depth) text.toList <:+: (method.render width).toList := by
  have hbody := layoutInside_holds 0 method.body h
  rw [Function.iterate_zero, List.map_id] at hbody
  have hmethod : PageHolds method.layout depth text.toList := (hbody.append_left _).append_right _
  rw [← page_method]
  exact hmethod.moved_infix width

end PixelLowering.Target
