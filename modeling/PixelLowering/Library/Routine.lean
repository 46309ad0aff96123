import PixelLowering.Source.Vocabulary

/-! The support library that generated methods call.

    A generated method does no pixel or image arithmetic of its own: it names a routine of one of
    five library classes. Every name it can mention is spelled here.

        ImageOps . binaryImagePixelOp ( ImageOps.OP.PLUS , image , pixel )
        owner      method               tag                arguments -/

namespace PixelLowering.Library

open PixelLowering.Source

/-- Library classes that generated code calls by their simple name. -/
inductive Owner where
  | console
  | files
  | images
  | math
  | pixels
  deriving Repr, DecidableEq

/-- Name of a library class. -/
def Owner.name : Owner → String
  | .console => "ConsoleIO"
  | .files => "FileURLIO"
  | .images => "ImageOps"
  | .math => "Math"
  | .pixels => "PixelOps"

/-- All class names, in ascending order. A local of such a name would hide the class. -/
def classNames : List String :=
  [Owner.console, .files, .images, .math, .pixels].map Owner.name

/-- Routines of the library. -/
inductive Routine where
  | write
  | writePixel
  | pack
  | getChannel (channel : Channel)
  | setChannel (channel : Channel)
  | extractChannel (channel : Channel)
  | getRGB
  | setRGB
  | makeImage
  | copyAndResize
  | imagesEqual
  | readImage
  | imageImage
  | imagePixel
  | imageScalar
  | pixelPixel
  | pixelInt
  | pixelTest
  | round
  | pow
  deriving Repr, DecidableEq

namespace Routine

/-- The class a routine belongs to. -/
def owner : Routine → Owner
  | write | writePixel => .console
  | pack | getChannel _ | setChannel _ => .pixels
  | extractChannel _ | getRGB | setRGB | makeImage | copyAndResize | imagesEqual => .images
  | imageImage | imagePixel | imageScalar | pixelPixel | pixelInt | pixelTest => .images
  | readImage => .files
  | round | pow => .math

/-- Name of a routine within its class. -/
def method : Routine → String
  | write => "write"
  | writePixel => "writePixel"
  | pack => "pack"
  | getChannel .red => "red"
  | getChannel .green => "green"
  | getChannel .blue => "blue"
  | setChannel .red => "setRed"
  | setChannel .green => "setGreen"
  | setChannel .blue => "setBlue"
  | extractChannel .red => "extractRed"
  | extractChannel .green => "extractGreen"
  | extractChannel .blue => "extractBlue"
  | getRGB => "getRGB"
  | setRGB => "setRGB"
  | makeImage => "makeImage"
  | copyAndResize => "copyAndResize"
  | imagesEqual => "equalsForCodeGen"
  | readImage => "readImage"
  | imageImage => "binaryImageImageOp"
  | imagePixel => "binaryImagePixelOp"
  | imageScalar => "binaryImageScalarOp"
  | pixelPixel => "binaryPackedPixelPixelOp"
  | pixelInt => "binaryPackedPixelIntOp"
  | pixelTest => "binaryPackedPixelBooleanOp"
  | round => "round"
  | pow => "pow"

/-- Full name of a routine: its class, a dot, its own name. -/
def name (routine : Routine) : String := routine.owner.name ++ "." ++ routine.method

end Routine

/-- First argument of a routine that stands for several operators. -/
inductive Tag where
  | plus
  | minus
  | times
  | div
  | mod
  | equals
  deriving Repr, DecidableEq

/-- Spelling of a tag. -/
def Tag.name : Tag → String
  | .plus => "ImageOps.OP.PLUS"
  | .minus => "ImageOps.OP.MINUS"
  | .times => "ImageOps.OP.TIMES"
  | .div => "ImageOps.OP.DIV"
  | .mod => "ImageOps.OP.MOD"
  | .equals => "ImageOps.BoolOP.EQUALS"

/-- The tag of an arithmetic operator; the library has none for any other. -/
def tag? : Operator → Option Tag
  | .plus => some .plus
  | .minus => some .minus
  | .times => some .times
  | .div => some .div
  | .mod => some .mod
  | _ => none

/-- Text of a call. -/
def callText (function : String) (arguments : List String) : String :=
  function ++ "(" ++ ", ".intercalate arguments ++ ")"

end PixelLowering.Library
