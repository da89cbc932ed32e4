import QuantClassifier.Failure
import QuantClassifier.Text.Utf8

/-!
# Views of files

What a program sees of the files around it: the bytes of the file at a path, if there is one.
-/

namespace QuantClassifier

/-- A file can not be written, for a reason. -/
def Failure.creating (path reason : String) : Failure :=
  (Failure.ofText reason).within (.other s!"failed to create file `{path}`")

/-- A file can not be read as what it should be, for a reason. -/
def Failure.reading (path reason : String) : Failure :=
  (Failure.ofText reason).within (.other s!"failed to read from file `{path}`")

/-- The bytes of the file at each path. Directories are no files. -/
abbrev FileView := String → Option (List UInt8)

namespace FileView

/-- The bytes of a file, which must exist. -/
def read (files : FileView) (path : String) : Except Failure (List UInt8) :=
  match files path with
  | some bytes => .ok bytes
  | none => .error (.ofKind (.fileNotFound path))

/-- The text of a file, which must exist. -/
def readText (files : FileView) (path : String) : Except Failure String := do
  match Text.decodeUtf8? (← files.read path) with
  | some text => return text
  | none => throw (.reading path "stream did not contain valid UTF-8")

end FileView

end QuantClassifier
