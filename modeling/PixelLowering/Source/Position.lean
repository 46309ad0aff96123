/-! Where a node of the tree starts in its source text. Offsets count UTF-8 bytes. -/

namespace PixelLowering.Source

/-- A byte offset into a named file. -/
structure Position where
  offset : Nat
  file : String
  deriving Repr, DecidableEq

/-- Position of a node that was not read from any file. -/
def Position.unknown : Position := ⟨0, "<null>"⟩

end PixelLowering.Source
