/-! Words of the target language that no generated name may be. -/

namespace PixelLowering.Target

/-- Reserved words and literals of the target language, in ascending order. -/
def reserved : List String :=
  ["_", "abstract", "assert", "boolean", "break", "byte", "case", "catch", "char", "class",
    "const", "continue", "default", "do", "double", "else", "enum", "extends", "false", "final",
    "finally", "float", "for", "goto", "if", "implements", "import", "instanceof", "int",
    "interface", "long", "native", "new", "null", "package", "private", "protected", "public",
    "record", "return", "short", "static", "strictfp", "super", "switch", "synchronized", "this",
    "throw", "throws", "transient", "true", "try", "var", "void", "volatile", "while", "yield"]

end PixelLowering.Target
