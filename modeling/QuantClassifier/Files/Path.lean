import QuantClassifier.Text.Split

/-!
# Paths

A path is names with slashes between them. Its extension is that of its last component; empty
components and those for the directory itself do not count.
-/

namespace QuantClassifier.Path

/-- The names of a path, empty ones included. -/
def names (path : List Char) : List (List Char) := Text.splitAt '/' path

/-- A name that stays where it is. -/
def stays (name : List Char) : Bool := name.isEmpty || name = ['.']

/-- A name that leads to the parent directory. -/
def ascends (name : List Char) : Bool := name = ['.', '.']

/-- The components of a path, less the empty ones and those for the directory itself. -/
def components (path : List Char) : List (List Char) := (names path).filter fun c => !stays c

/-- The last component, unless it leads to the parent directory. -/
def fileName? (path : List Char) : Option (List Char) :=
  match (components path).getLast? with
  | none => none
  | some c => if ascends c then none else some c

/-- What follows the last dot of a file name, unless that dot is its first character. -/
def extensionOf? (name : List Char) : Option (List Char) :=
  match (Text.splitAt '.' name).reverse with
  | [] => none
  | [_] => none
  | [_, []] => none
  | ext :: _ => some ext

/-- The extension of a path. -/
def extension? (path : List Char) : Option (List Char) := (fileName? path).bind extensionOf?

/-- The extension of a path in lower case; only ASCII letters have cases. -/
def lowerExtension? (path : String) : Option (List Char) :=
  (extension? path.toList).map (·.map Char.toLower)

end QuantClassifier.Path
