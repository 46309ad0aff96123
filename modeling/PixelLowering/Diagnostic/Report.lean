import PixelLowering.Diagnostic.Failure
import PixelLowering.Text.Blank
import PixelLowering.Text.Location

/-! A failure shown against the source it came from.

        Error: UnresolvedNameError (Name `y` reached code generation …)
        -> blur.plc
          |
        3 | write y;
          | ------^

    The shown line starts at its first character that is not a plain space and ends at its last
    one that is not blank. The caret stands as many columns to the right as there are bytes
    between the leading spaces and the failure. Without a line to show there is only a heading. -/

namespace PixelLowering.Diagnostic

open PixelLowering.Text

/-- Title and tip of a cause, then the file. -/
def heading (cause : Cause) (fileName : String) : String :=
  let advice :=
    match cause.tip with
    | .none => ""
    | .suggestion text => " (" ++ text ++ ")"
  "Error: " ++ cause.title ++ advice ++ "\n-> " ++ fileName ++ "\n"

/-- A bar with room to its left for a line number of so many digits. -/
def gutter (digits : Nat) : String := String.ofList (List.replicate (digits + 1) ' ') ++ "|"

/-- Number of plain spaces at the start of a line. -/
def leadingSpaces (line : List Char) : Nat := (line.takeWhile (· = ' ')).length

/-- The part of a line that is shown. -/
def shown (line : List Char) : List Char := trimEnd (line.dropWhile (· = ' '))

/-- A caret after so many dashes. -/
def caret (dashes : Nat) : String := String.ofList (List.replicate dashes '-') ++ "^"

/-- The source line with its number, a gutter line above it and the caret line below it. -/
def excerpt (place : Location) : String :=
  let number := toString place.line
  let bar := gutter number.length
  bar ++ "\n" ++
    number ++ " | " ++ String.ofList (shown place.text) ++ "\n" ++
    bar ++ " " ++ caret (place.column - leadingSpaces place.text) ++ "\n"

/-- A failure shown against its source. -/
def report (failure : Failure) (source fileName : String) : String :=
  heading failure.cause fileName ++
    match locate source.toList failure.position.offset with
    | none => ""
    | some place => excerpt place

end PixelLowering.Diagnostic
