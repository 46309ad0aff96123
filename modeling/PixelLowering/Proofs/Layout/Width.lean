import PixelLowering.Lower.Method
import PixelLowering.Proofs.Layout.Page

/-! The width of a step moves lines and does nothing else.

    Lowering knows nothing of the width: it gives a tree, and only the text of the tree has lines.
    So whether there is a text, why there is none, and every name are the same at all widths, and a
    line stands the same number of steps to the right at each of them:

        level   width 0         width 2            width 4
        0       void f() {      void f() {         void f() {
        1       x = 1;          ··x = 1;           ····x = 1;
        0       }               }                  }

    This needs no assumption on the names and literals. A line break within a literal starts a line
    like any other, and a blank line stays where it is at every width. -/

namespace PixelLowering.Lower

open PixelLowering.Source
open PixelLowering.Target
open PixelLowering.Text

/-- A run of the whole pass: the program is lowered, and the width comes in with the text. -/
theorem run_compileProgram (width : Nat) (program : Program) :
    ({} : Pass).run (compileProgram width program) =
      match (({} : Pass).record (.compiling program.name program.params.length)).run
        (lowerProgram program) with
      | (.ok method, after) =>
        (.ok (method.render width),
          after.record (.generated (method.render width).utf8ByteSize program.name))
      | (.error stop, after) => (.error stop, after) := by
  rw [compileProgram, Pass.run_bind, Pass.run_record]
  simp only [Pass.run_bind]
  split
  · next method after h => simp only [h, Pass.run_record, Pass.run_pure]
  · next stop after h => rw [h]

/-- The method that a program is lowered to, at every width, or why there is none. -/
theorem compile_fst (width : Nat) (program : Program) :
    (compile width program).1 =
      ((({} : Pass).record (.compiling program.name program.params.length)).run
        (lowerProgram program)).1.map (Method.render width) := by
  rw [compile, run_compileProgram]
  rcases (({} : Pass).record _).run (lowerProgram program) with ⟨result, after⟩
  cases result <;> rfl

/-- The text of a program is the page of the lines of its method. -/
theorem compile_eq_page (width : Nat) (program : Program) :
    (compile width program).1 =
      ((({} : Pass).record (.compiling program.name program.params.length)).run
        (lowerProgram program)).1.map fun method => String.ofList (page width method.layout) := by
  have hpage : Method.render width = fun method => String.ofList (page width method.layout) := by
    funext method
    rw [page_method, String.ofList_toList]
  rw [compile_fst, hpage]

/-- The names in use, the bindings and the counters at the end of the pass. -/
theorem compileProgram_names (width : Nat) (program : Program) :
    (({} : Pass).run (compileProgram width program)).2.names =
      ((({} : Pass).record (.compiling program.name program.params.length)).run
        (lowerProgram program)).2.names := by
  rw [run_compileProgram]
  rcases (({} : Pass).record _).run (lowerProgram program) with ⟨result, after⟩
  cases result <;> rfl

/-- The lines of a method, each moved to its place. -/
theorem lines_render (width : Nat) (method : Method) :
    lines (method.render width).toList = method.layout.map (Entry.text width) := by
  rw [← page_method width method]
  exact (whole_method method).lines_page width

/-- The lines of a text without the spaces that they start with. -/
def unspaced (text : String) : List (List Char) :=
  (lines text.toList).map (List.dropWhile (· == ' '))

theorem dropWhile_spaces (n : Nat) (line : List Char) :
    (List.replicate n ' ' ++ line).dropWhile (· == ' ') = line.dropWhile (· == ' ') := by
  induction n with
  | zero => rfl
  | succ n ih => rw [List.replicate_succ, List.cons_append, List.dropWhile_cons_of_pos rfl, ih]

/-- Without these spaces the width cannot be told. -/
theorem unspaced_render (width : Nat) (method : Method) :
    unspaced (method.render width) =
      method.layout.map fun entry => entry.line.dropWhile (· == ' ') := by
  rw [unspaced, lines_render, List.map_map]
  refine List.map_congr_left fun entry _ => ?_
  exact dropWhile_spaces _ _

/-- Indentation is layout only. Every program has a level for each line of its text at width zero,
    such that for all widths: there is no text, for the same reason, or the text has the same lines,
    each after as many spaces as its level times the width. So at any two widths the lines are the
    same but for leading spaces, and the pass ends with the same names. -/
theorem width_moves_lines_only (program : Program) :
    ∃ levels : List Nat, ∀ width,
      (∀ stop, (compile width program).1 = .error stop ↔ (compile 0 program).1 = .error stop) ∧
      (∀ text₀, (compile 0 program).1 = .ok text₀ →
        levels.length = (lines text₀.toList).length ∧
        ∃ text, (compile width program).1 = .ok text ∧
          lines text.toList =
            List.zipWith (fun level line => List.replicate (level * width) ' ' ++ line)
              levels (lines text₀.toList)) ∧
      ∀ width',
        (compile width program).1.map unspaced = (compile width' program).1.map unspaced ∧
        (({} : Pass).run (compileProgram width program)).2.names =
          (({} : Pass).run (compileProgram width' program)).2.names := by
  have hnames : ∀ width width',
      (({} : Pass).run (compileProgram width program)).2.names =
        (({} : Pass).run (compileProgram width' program)).2.names := by
    intro width width'
    rw [compileProgram_names, compileProgram_names]
  simp only [compile_fst]
  cases ((({} : Pass).record (.compiling program.name program.params.length)).run
      (lowerProgram program)).1 with
  | error stop =>
    refine ⟨[], fun width => ⟨?_, ?_, fun width' => ⟨?_, hnames width width'⟩⟩⟩
    · intro reason
      simp only [Except.map]
    · rintro text₀ ⟨⟩
    · simp only [Except.map]
  | ok method =>
    -- the levels are those of the layout, which is put together without a width
    refine ⟨method.layout.map Entry.level,
      fun width => ⟨?_, ?_, fun width' => ⟨?_, hnames width width'⟩⟩⟩
    · intro reason
      constructor <;> rintro ⟨⟩
    · rintro text₀ ⟨⟩
      refine ⟨by rw [lines_render, List.length_map, List.length_map], method.render width, rfl, ?_⟩
      rw [lines_render, lines_render, List.zipWith_map, List.zipWith_self]
      refine List.map_congr_left fun entry _ => ?_
      simp [Entry.text, Nat.mul_comm]
    · simp only [Except.map, unspaced_render]

end PixelLowering.Lower
