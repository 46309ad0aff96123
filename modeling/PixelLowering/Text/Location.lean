import PixelLowering.Text.Lines

/-! From a byte offset to a line and a column.

    The offset is paid down line by line: a line that is at least as long as what is left holds
    the byte, any other line is skipped for its length in bytes. Columns count bytes too, so an
    offset inside a character of several bytes still has its place. -/

namespace PixelLowering.Text

/-- One byte of a text: the number of its line from 1, that line, and the column from 0. -/
structure Location where
  line : Nat
  text : List Char
  column : Nat
  deriving Repr, DecidableEq

/-- Finds the byte at `offset` in lines of which the first has the given number. -/
def locateIn (number : Nat) : List (List Char) → Nat → Option Location
  | [], _ => none
  | line :: rest, offset =>
    if offset < byteLength line then some ⟨number, line, offset⟩
    else locateIn (number + 1) rest (offset - byteLength line)

/-- Finds the byte at `offset` in a text; `none` at the end of the text and beyond. -/
def locate (text : List Char) (offset : Nat) : Option Location :=
  locateIn 1 (lines text) offset

end PixelLowering.Text
