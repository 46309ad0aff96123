import PixelLowering.Target.Reserved

/-! Identifiers of the target language, and which of them can name a method. -/

namespace PixelLowering.Target

/-- Characters an identifier may start with: ASCII letters, underscore and dollar sign. -/
def isIdentifierStart (c : Char) : Bool := c.isAlpha || c == '_' || c == '$'

/-- Characters that may follow: those, and the decimal digits. -/
def isIdentifierPart (c : Char) : Bool := isIdentifierStart c || c.isDigit

/-- An identifier: a start character, then any number of further characters. -/
def isIdentifier (text : String) : Bool :=
  match text.toList with
  | [] => false
  | c :: rest => isIdentifierStart c && rest.all isIdentifierPart

/-- Method names: the identifiers that are not reserved. -/
def isMethodName (name : String) : Bool := isIdentifier name && !reserved.contains name

end PixelLowering.Target
