import PixelLowering.Text.Blank
import PixelLowering.Text.Hidden

/-! Quoted text: a text between double quotes, on one line and with every character visible.

    Six characters are written as a backslash and one more character; every other hidden character
    is written as its code point in hexadecimal, and the rest as it is. -/

namespace PixelLowering.Text

/-- Characters that are not written as they are inside quotes. -/
def isHidden (c : Char) : Bool := inRanges hiddenRanges c

/-- The code point of a character between braces, in lower-case hexadecimal without padding. -/
def codePoint (c : Char) : List Char :=
  ['\\', 'u', '\x7b'] ++ Nat.toDigits 16 c.toNat ++ ['\x7d']

/-- How one character is written inside quotes. -/
def quotedChar (c : Char) : List Char :=
  match c with
  | '\x00' => ['\\', '0']
  | '\t' => ['\\', 't']
  | '\r' => ['\\', 'r']
  | '\n' => ['\\', 'n']
  | '"' => ['\\', '"']
  | '\\' => ['\\', '\\']
  | c => if isHidden c then codePoint c else [c]

/-- The text between double quotes. -/
def quoted (text : String) : String :=
  String.ofList ('"' :: text.toList.flatMap quotedChar ++ ['"'])

end PixelLowering.Text
