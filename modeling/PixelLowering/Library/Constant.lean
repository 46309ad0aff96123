/-! Named constants: the largest channel value `Z`, and colours as packed alpha, red, green and
    blue bytes. -/

namespace PixelLowering.Library

/-- Largest value of one colour channel. -/
def maxChannel : Nat := 255

/-- The named colours with their packed values, in ascending order of names. -/
def colours : List (String × Nat) :=
  [("BLACK", 0xff000000), ("BLUE", 0xff0000ff), ("CYAN", 0xff00ffff), ("DARK_GRAY", 0xff404040),
    ("GRAY", 0xff808080), ("GREEN", 0xff00ff00), ("LIGHT_GRAY", 0xffc0c0c0),
    ("MAGENTA", 0xffff00ff), ("ORANGE", 0xffffc800), ("PINK", 0xffffafaf), ("RED", 0xffff0000),
    ("WHITE", 0xffffffff), ("YELLOW", 0xffffff00)]

/-- A packed colour as a literal: `0x` and at least eight lower-case hexadecimal digits. -/
def colourLiteral (value : Nat) : String :=
  "0x" ++ String.ofList (List.leftpad 8 '0' (Nat.toDigits 16 value))

/-- The literal a named constant stands for, if there is such a constant. -/
def constantLiteral? (name : String) : Option String :=
  if name = "Z" then some (toString maxChannel)
  else (colours.lookup name).map colourLiteral

end PixelLowering.Library
