import PixelLowering.Text.Blank
import PixelLowering.Text.Lines

/-! Indentation: a line with something on it moves right, a blank line stays as it is. Lines are
    cut at newlines only, so a line break inside a literal counts like any other. -/

namespace PixelLowering.Text

/-- Moves one line to the right by `width` spaces, unless it is blank. -/
def indentLine (width : Nat) (line : List Char) : List Char :=
  if line.all isBlank then line else List.replicate width ' ' ++ line

/-- Moves every line of a text to the right by `width` spaces. -/
def indentChars (width : Nat) (text : List Char) : List Char :=
  ((lines text).map (indentLine width)).flatten

/-- Moves every line of a string to the right by `width` spaces. -/
def indent (width : Nat) (text : String) : String :=
  String.ofList (indentChars width text.toList)

@[simp] theorem toList_indent (width : Nat) (text : String) :
    (indent width text).toList = indentChars width text.toList := by
  simp [indent]

@[simp] theorem indentChars_nil (width : Nat) : indentChars width [] = [] := rfl

@[simp] theorem indentLine_zero (line : List Char) : indentLine 0 line = line := by
  simp [indentLine]

/-- Moving by no spaces changes nothing. -/
@[simp] theorem indentChars_zero (text : List Char) : indentChars 0 text = text := by
  have h : indentLine 0 = id := funext indentLine_zero
  simp [indentChars, h]

@[simp] theorem indent_zero (text : String) : indent 0 text = text := by
  apply String.toList_inj.1
  rw [toList_indent, indentChars_zero]

end PixelLowering.Text
