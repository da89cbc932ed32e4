import QuantClassifier.Files.Path
import QuantClassifier.Files.View
import QuantClassifier.Image.Png
import QuantClassifier.Image.Pnm

/-!
# Image files

The extension of its path tells how an image file is read; what is in the file does not.
-/

namespace QuantClassifier

/-- The formats of image files. -/
inductive ImageFormat where
  | png
  | pnm
  deriving DecidableEq, Repr

namespace ImageFormat

/-- The extensions of image files in lower case. -/
def extensions : List (String × ImageFormat) :=
  [("png", png), ("pbm", pnm), ("pgm", pnm), ("ppm", pnm), ("pam", pnm)]

/-- The format that the extension of a path tells, in any case. -/
def ofPath? (path : String) : Option ImageFormat :=
  (Path.lowerExtension? path).bind fun ext => extensions.lookup (String.ofList ext)

/-- The image in a file of a format. -/
def decode? : ImageFormat → List UInt8 → Option Image
  | png => Png.decode?
  | pnm => Pnm.decode?

end ImageFormat

/-- The image in a file. -/
def loadImage (files : FileView) (path : String) : Except Failure Image := do
  let bytes ← files.read path
  match (ImageFormat.ofPath? path).bind (·.decode? bytes) with
  | some image => return image
  | none => throw (.ofKind (.parse s!"decoding {path}"))

end QuantClassifier
