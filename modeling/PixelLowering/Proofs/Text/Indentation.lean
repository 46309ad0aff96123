import PixelLowering.Proofs.Text.Lines
import PixelLowering.Text.Indent

/-! Laws of indentation.

    Spaces in front of a line neither end it nor make it blank, so a text that has moved is cut into
    the same lines as before, and moving it again moves the same lines:

        a⏎           ··a⏎            ····a⏎
        ⏎     ─2─▶   ⏎        ─2─▶   ⏎          the empty line never moves
        b            ··b             ····b

    Hence two moves add up to one, and whole lines can be moved before or after they are put
    together. For a text in the middle of a line the last law fails: the second part would be moved
    away from the first one. -/

namespace PixelLowering.Text

theorem newline_not_mem_spaces (n : Nat) : '\n' ∉ List.replicate n ' ' := by
  simp [List.mem_replicate]

/-! ### One line -/

/-- A line that moves is blank if it was. -/
theorem all_isBlank_indentLine (width : Nat) (line : List Char) :
    (indentLine width line).all isBlank = line.all isBlank := by
  rw [indentLine]
  split
  · rfl
  · simp [List.all_append]

theorem indentLine_indentLine (a b : Nat) (line : List Char) :
    indentLine a (indentLine b line) = indentLine (a + b) line := by
  rw [indentLine, all_isBlank_indentLine]
  by_cases hblank : line.all isBlank
  · rw [if_pos hblank, indentLine, indentLine, if_pos hblank, if_pos hblank]
  · rw [if_neg hblank, indentLine, indentLine, if_neg hblank, if_neg hblank, ← List.append_assoc,
      List.replicate_append_replicate]

theorem IsLine.indentLine {line : List Char} (h : IsLine line) (width : Nat) :
    IsLine (indentLine width line) := by
  rw [Text.indentLine]
  split
  · exact h
  · exact h.append_left (newline_not_mem_spaces width)

/-- A line without a newline is still one after it has moved. -/
theorem lines_indentLine {line : List Char} (hne : line ≠ []) (h : '\n' ∉ line) (width : Nat) :
    lines (indentLine width line) = [indentLine width line] := by
  rw [indentLine]
  split
  · exact lines_of_not_mem hne h
  · refine lines_of_not_mem (by simp [hne]) ?_
    rw [List.mem_append, not_or]
    exact ⟨newline_not_mem_spaces width, h⟩

/-! ### All lines of a text -/

theorem indentChars_line_append {line : List Char} (h : IsLine line) (width : Nat)
    (rest : List Char) :
    indentChars width (line ++ rest) = indentLine width line ++ indentChars width rest := by
  rw [indentChars, h.lines_append, List.map_cons, List.flatten_cons, indentChars]

/-- A text that has moved is cut into the same lines, each of them moved. -/
theorem lines_indentChars (width : Nat) (text : List Char) :
    lines (indentChars width text) = (lines text).map (indentLine width) := by
  induction text using byLines with
  | nil => rfl
  | last line hne hline =>
    rw [indentChars, lines_of_not_mem hne hline, List.map_singleton, List.flatten_singleton]
    exact lines_indentLine hne hline width
  | whole line rest hline ih =>
    rw [indentChars_line_append hline, (hline.indentLine width).lines_append, ih,
      hline.lines_append, List.map_cons]

/-- Two moves add up. -/
theorem indentChars_indentChars (a b : Nat) (text : List Char) :
    indentChars a (indentChars b text) = indentChars (a + b) text := by
  have hmoves : indentLine a ∘ indentLine b = indentLine (a + b) :=
    funext (indentLine_indentLine a b)
  rw [indentChars, lines_indentChars, List.map_map, hmoves, indentChars]

/-- What starts on a new line moves on its own. -/
theorem Ended.indentChars_append {text : List Char} (h : Ended text) (width : Nat)
    (more : List Char) :
    indentChars width (text ++ more) = indentChars width text ++ indentChars width more := by
  rw [indentChars, h.lines_append, List.map_append, List.flatten_append, indentChars, indentChars]

/-! ### The laws for strings -/

theorem indent_append {text : String} (h : Ended text.toList) (width : Nat) (more : String) :
    indent width (text ++ more) = indent width text ++ indent width more := by
  apply String.toList_inj.1
  rw [String.toList_append, toList_indent, toList_indent, toList_indent, String.toList_append,
    h.indentChars_append]

/-- Indentation by `b` and then by `a` is indentation by `a + b`. Indentation of two texts put
    together is that of each of them, if the first one is empty or ends in a newline. And the lines
    of an indented text are those of the text, in order: blank lines as they were, every other line
    after exactly so many spaces. -/
theorem indentation_laws (text : String) :
    (∀ a b, indent a (indent b text) = indent (a + b) text) ∧
    (∀ width more, text = "" ∨ text.toList.getLast? = some '\n' →
      indent width (text ++ more) = indent width text ++ indent width more) ∧
    ∀ width, lines (indent width text).toList =
      (lines text.toList).map fun line =>
        if line.all isBlank then line else List.replicate width ' ' ++ line := by
  refine ⟨?_, ?_, ?_⟩
  · intro a b
    apply String.toList_inj.1
    rw [toList_indent, toList_indent, toList_indent, indentChars_indentChars]
  · intro width more h
    have hended : Ended text.toList := by
      rcases h with rfl | h
      · exact .inl rfl
      · exact .inr h
    exact indent_append hended width more
  · intro width
    rw [toList_indent, lines_indentChars]
    rfl

/-- A no-break space makes a line as blank as a plain one does. -/
theorem indentation_laws_noBreakSpace :
    ("a\n\u00a0\n" = "" ∨ "a\n\u00a0\n".toList.getLast? = some '\n') ∧
    indent 2 ("a\n\u00a0\n" ++ " b") = indent 2 "a\n\u00a0\n" ++ indent 2 " b" ∧
    indent 2 ("a\n\u00a0\n" ++ " b") = "  a\n\u00a0\n   b" := by
  have hends : "a\n\u00a0\n" = "" ∨ "a\n\u00a0\n".toList.getLast? = some '\n' := .inr rfl
  exact ⟨hends, (indentation_laws "a\n\u00a0\n").2.1 2 " b" hends, by decide +kernel⟩

end PixelLowering.Text
