import PixelLowering.Source.Vocabulary

/-! What a lowering pass reports as it goes: the program it starts on, the names it gives, the size
    of its result. -/

namespace PixelLowering.Lower

open PixelLowering.Source

/-- Something worth a line in the log. -/
inductive Event where
  | compiling (program : String) (parameters : Nat)
  | renamed (name emitted : String)
  | declared (name emitted : String) (ty : Ty)
  | generated (bytes : Nat) (program : String)
  deriving Repr, DecidableEq

namespace Event

/-- How important an event is. -/
def level : Event → String
  | renamed .. => "TRACE"
  | compiling .. | declared .. | generated .. => "DEBUG"

/-- An event in words. -/
def message : Event → String
  | compiling program parameters =>
    "compiling program `" ++ program ++ "` with " ++ toString parameters ++ " parameter(s)"
  | renamed name emitted => "renaming `" ++ name ++ "` to `" ++ emitted ++ "`"
  | declared name emitted ty =>
    "declared `" ++ name ++ "` as `" ++ emitted ++ "` (" ++ ty.name ++ ")"
  | generated bytes program =>
    "generated " ++ toString bytes ++ " bytes for `" ++ program ++ "`"

/-- The log line of an event: its level, then its words. -/
def line (event : Event) : String := event.level ++ " " ++ event.message

end Event

end PixelLowering.Lower
