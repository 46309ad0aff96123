import PixelLowering.Proofs.Text.Lines
import PixelLowering.Target.Render

/-! The lines of a statement, each with the number of steps that it stands to the right.

    Text is put together from the inside out, and the lines of a block move right once more with
    every block around it. Counting the moves gives the same text, at any width:

        if (a) {                0   if (a) {
            while (b) {         1   while (b) {
                f(x);           2   f(x);
            }                   1   }
        } else {                0   } else {
        }                       0   }

    A chain of tests goes on in the line that closes the block before; `lead` is what this line
    starts with. Lines are cut at newlines, also at those within literals, and blank lines never
    move, so nothing has to be known of the names and literals. -/

namespace PixelLowering.Text

/-! ### Pages -/

/-- A line with its newline, and how many steps to the right it stands. -/
structure Entry where
  level : Nat
  line : List Char

/-- A line moved to its place. -/
def Entry.text (width : Nat) (entry : Entry) : List Char :=
  List.replicate (width * entry.level) ' ' ++ entry.line

/-- Lines one below the other. -/
def page (width : Nat) (entries : List Entry) : List Char := entries.flatMap (Entry.text width)

/-- One step further to the right, unless the line is blank. -/
def Entry.raise (entry : Entry) : Entry :=
  if entry.line.all isBlank then entry else { entry with level := entry.level + 1 }

/-- The lines of a text as they stand. -/
def flat (text : List Char) : List Entry := (lines text).map (Entry.mk 0)

/-- Every entry is a whole line. -/
def Whole (entries : List Entry) : Prop := ∀ entry ∈ entries, IsLine entry.line

@[simp] theorem page_nil (width : Nat) : page width [] = [] := rfl

@[simp] theorem page_append (width : Nat) (first second : List Entry) :
    page width (first ++ second) = page width first ++ page width second := by
  simp [page]

@[simp] theorem page_flat (width : Nat) (text : List Char) : page width (flat text) = text := by
  simp [page, flat, List.flatMap_map, Entry.text]

theorem Entry.isLine_text {entry : Entry} (h : IsLine entry.line) (width : Nat) :
    IsLine (entry.text width) :=
  h.append_left (by simp [List.mem_replicate])

@[simp] theorem Entry.line_raise (entry : Entry) : entry.raise.line = entry.line := by
  rw [raise]
  split <;> rfl

theorem Whole.append {first second : List Entry} (h : Whole first) (h' : Whole second) :
    Whole (first ++ second) :=
  List.forall_mem_append.2 ⟨h, h'⟩

theorem Whole.raise {entries : List Entry} (h : Whole entries) :
    Whole (entries.map Entry.raise) := by
  intro entry hentry
  obtain ⟨lower, hlower, rfl⟩ := List.mem_map.1 hentry
  rw [Entry.line_raise]
  exact h lower hlower

theorem whole_flat (text : List Char) : Whole (flat (text ++ ['\n'])) := by
  intro entry hentry
  obtain ⟨line, hline, rfl⟩ := List.mem_map.1 hentry
  exact isLine_of_mem_lines text line hline

/-- The lines of a page are its entries. -/
theorem Whole.lines_page {entries : List Entry} (h : Whole entries) (width : Nat) :
    lines (page width entries) = entries.map (Entry.text width) := by
  induction entries with
  | nil => rfl
  | cons entry rest ih =>
    have hentry := List.forall_mem_cons.1 h
    rw [page, List.flatMap_cons, (entry.isLine_text hentry.1 width).lines_append, List.map_cons]
    exact congrArg _ (ih hentry.2)

theorem Entry.indentLine_text (width : Nat) (entry : Entry) :
    indentLine width (entry.text width) = entry.raise.text width := by
  have hblank : (entry.text width).all isBlank = entry.line.all isBlank := by
    simp [text, List.all_append]
  rw [indentLine, hblank, raise]
  split
  · rfl
  · rw [text, text, ← List.append_assoc, List.replicate_append_replicate, Nat.mul_add, Nat.mul_one,
      Nat.add_comm]

/-- Moving a page to the right is moving each of its lines. -/
theorem Whole.indentChars_page {entries : List Entry} (h : Whole entries) (width : Nat) :
    indentChars width (page width entries) = page width (entries.map Entry.raise) := by
  rw [indentChars, h.lines_page width, List.map_map, page, List.flatMap_map, List.flatMap]
  congr 1
  exact List.map_congr_left fun entry _ => entry.indentLine_text width

end PixelLowering.Text

namespace PixelLowering.Target

open PixelLowering.Text

/-! ### The lines of a statement -/

/-- The line that opens a block under a test. -/
def opening (keyword : String) (test : Expr) : List Char :=
  (keyword ++ " (" ++ test.render ++ ") \x7b").toList

mutual

/-- The lines of a statement, after what stands before it in its first line. -/
def Stmt.layout (lead : List Char) : Stmt → List Entry
  | .ifThen test body =>
    flat (lead ++ opening "if" test ++ ['\n']) ++ Stmt.layoutInside body ++ flat ['\x7d', '\n']
  | .ifElse test body other =>
    flat (lead ++ opening "if" test ++ ['\n']) ++ Stmt.layoutInside body ++
      other.layout "\x7d else ".toList
  | .whileLoop test body =>
    flat (lead ++ opening "while" test ++ ['\n']) ++ Stmt.layoutInside body ++ flat ['\x7d', '\n']
  | .block body =>
    flat (lead ++ ['\x7b', '\n']) ++ Stmt.layoutInside body ++ flat ['\x7d', '\n']
  -- all other statements look the same at every width
  | s@(.declare ..) | s@(.assign ..) | s@(.perform _) | s@(.ret _) =>
    flat (lead ++ (s.render 0).toList ++ ['\n'])

/-- The lines of statements inside a block. -/
def Stmt.layoutInside : List Stmt → List Entry
  | [] => []
  | s :: rest => (s.layout []).map Entry.raise ++ Stmt.layoutInside rest

end

/-- The line that opens a method. -/
def Method.opening (method : Method) : List Char :=
  (method.result.name ++ " " ++ method.name ++ "(" ++
    ", ".intercalate (method.params.map Param.render) ++ ") \x7b").toList

/-- The lines of a method. -/
def Method.layout (method : Method) : List Entry :=
  flat (method.opening ++ ['\n']) ++ Stmt.layoutInside method.body ++ flat ['\x7d', '\n']

mutual

theorem whole_layout : ∀ (s : Stmt) (lead : List Char), Whole (s.layout lead)
  | .ifThen test body, lead | .whileLoop test body, lead => by
    rw [Stmt.layout]
    exact ((whole_flat _).append (whole_layoutInside body)).append (whole_flat ['\x7d'])
  | .ifElse test body other, lead => by
    rw [Stmt.layout]
    exact ((whole_flat _).append (whole_layoutInside body)).append (whole_layout other _)
  | .block body, lead => by
    have hopen := whole_flat (lead ++ ['\x7b'])
    rw [List.append_assoc] at hopen
    rw [Stmt.layout]
    exact (hopen.append (whole_layoutInside body)).append (whole_flat ['\x7d'])
  | .declare .., lead | .assign .., lead | .perform _, lead | .ret _, lead => by
    rw [Stmt.layout]
    exact whole_flat _

theorem whole_layoutInside : ∀ body : List Stmt, Whole (Stmt.layoutInside body)
  | [] => by simp [Stmt.layoutInside, Whole]
  | s :: rest => by
    rw [Stmt.layoutInside]
    exact (whole_layout s []).raise.append (whole_layoutInside rest)

end

mutual

/-- A statement is the page of its lines, at any width. -/
theorem page_layout (width : Nat) : ∀ (s : Stmt) (lead : List Char),
    page width (s.layout lead) = lead ++ (s.render width).toList ++ ['\n']
  | .ifThen test body, lead | .whileLoop test body, lead => by
    simp [Stmt.layout, Stmt.render, braced, opening, page_layoutInside width body]
  | .ifElse test body other, lead => by
    simp [Stmt.layout, Stmt.render, braced, opening, page_layoutInside width body,
      page_layout width other]
  | .block body, lead => by
    simp [Stmt.layout, Stmt.render, braced, page_layoutInside width body]
  | .declare ty name none, lead | .declare ty name (some _), lead => by
    simp [Stmt.layout, Stmt.render]
  | .assign .., lead | .perform _, lead | .ret _, lead => by
    simp [Stmt.layout, Stmt.render]

/-- So are the statements inside a block. -/
theorem page_layoutInside (width : Nat) : ∀ body : List Stmt,
    page width (Stmt.layoutInside body) = (Stmt.renderInside width body).toList
  | [] => by simp [Stmt.layoutInside, Stmt.renderInside]
  | s :: rest => by
    have hindent := (whole_layout s []).indentChars_page width
    rw [page_layout width s [], List.nil_append] at hindent
    simp [Stmt.layoutInside, Stmt.renderInside, page_layoutInside width rest, hindent]

end

theorem whole_method (method : Method) : Whole method.layout :=
  ((whole_flat _).append (whole_layoutInside _)).append (whole_flat ['\x7d'])

/-- A method is the page of its lines, at any width. -/
theorem page_method (width : Nat) (method : Method) :
    page width method.layout = (method.render width).toList := by
  simp [Method.layout, Method.opening, Method.render, Stmt.renderBlock, braced,
    page_layoutInside width method.body]

end PixelLowering.Target
