import QuantClassifier.Files.Path
import QuantClassifier.Files.View

/-!
# Stores of files

A store holds files and directories under a root. A path is followed name by name; every name but
the last must lead to a directory, and no path leads out of the store. Names and paths have a
greatest length.
-/

namespace QuantClassifier

/-- The names that lead from the root to a place, none of them special. -/
abbrev Location := List (List Char)

/-- What is at a place. -/
inductive Node where
  | file (bytes : List UInt8)
  | directory
  deriving DecidableEq

/-- Places and what is there. The root is a directory. -/
structure Store where
  nodes : List (Location × Node)

/-- Why a path does not lead to a place that can be written. -/
inductive PathError where
  | missing
  | notDirectory
  | isDirectory
  | tooLong
  | zeroByte
  deriving DecidableEq, Repr

/-- The wording of a path error. -/
def PathError.text : PathError → String
  | missing => "No such file or directory (os error 2)"
  | notDirectory => "Not a directory (os error 20)"
  | isDirectory => "Is a directory (os error 21)"
  | tooLong => "File name too long (os error 36)"
  | zeroByte => "file name contained an unexpected NUL byte"

namespace Store

/-- The store without files. -/
def empty : Store := ⟨[]⟩

/-- What is at a place. -/
def node? (s : Store) (l : Location) : Option Node :=
  if l = [] then some .directory else s.nodes.lookup l

/-- Puts something at a place. -/
def put (s : Store) (l : Location) (n : Node) : Store :=
  ⟨(l, n) :: s.nodes.filter fun p => !(p.1 == l)⟩

theorem lookup_filter_of_ne {α β : Type} [BEq α] [LawfulBEq α] {a b : α} (h : a ≠ b)
    (xs : List (α × β)) : (xs.filter fun p => !(p.1 == b)).lookup a = xs.lookup a := by
  induction xs with
  | nil => rfl
  | cons x xs ih =>
    obtain ⟨k, v⟩ := x
    by_cases hk : k = b
    · have ha : (a == b) = false := beq_eq_false_iff_ne.2 h
      simp [hk, List.lookup_cons, ha, ih]
    · simp [hk, List.lookup_cons, ih]

/-- What was put at a place is there. -/
theorem node?_put_self (s : Store) {l : Location} (h : l ≠ []) (n : Node) :
    (s.put l n).node? l = some n := by
  simp [node?, put, h]

/-- All other places stay as they were. -/
theorem node?_put_of_ne (s : Store) {l l' : Location} (h : l' ≠ l) (n : Node) :
    (s.put l n).node? l' = s.node? l' := by
  have hb : (l' == l) = false := beq_eq_false_iff_ne.2 h
  simp only [node?, put, List.lookup_cons, hb, lookup_filter_of_ne h]

/-- Fails unless a directory is at a place. -/
def requireDirectory (s : Store) (l : Location) : Except PathError Unit :=
  match s.node? l with
  | none => .error .missing
  | some (.file _) => .error .notDirectory
  | some .directory => .ok ()

/-- The number of bytes that characters take. -/
def byteCount (cs : List Char) : Nat := (Text.encodeUtf8 (String.ofList cs)).length

/-- The most bytes of a name. -/
def nameLimit : Nat := 255

/-- The most bytes of a path. -/
def pathLimit : Nat := 4095

/-- Fails if no place can have a name. -/
def requireName (name : List Char) : Except PathError Unit :=
  if byteCount name ≤ nameLimit then .ok () else .error .tooLong

/-- The names of a path, which starts at the root of a store if it does not start at another one. A
path holds no zero and has a greatest length. -/
def names (path : String) : Except PathError (List (List Char)) :=
  let cs := path.toList
  if '\x00' ∈ cs then .error .zeroByte
  else if pathLimit < byteCount cs then .error .tooLong
  else if cs.head?.any (· ≠ '/') then .ok (Path.names cs)
  else .error .missing

/-- The place that names lead to from a directory. It need not exist itself. -/
def walk (s : Store) : Location → List (List Char) → Except PathError Location
  | l, [] => .ok l
  | l, name :: names => do
    s.requireDirectory l
    if Path.stays name then s.walk l names
    else if Path.ascends name then
      if l = [] then throw .missing else s.walk l.dropLast names
    else do
      requireName name
      s.walk (l ++ [name]) names

/-- The bytes of the file at a path. -/
def file? (s : Store) : FileView := fun path =>
  match names path >>= s.walk [] with
  | .ok l =>
    match s.node? l with
    | some (.file bytes) => some bytes
    | _ => none
  | .error _ => none

/-- The place where a file of a path is written: its directory exists, and it is no directory. Only
a directory may have slashes after its name. -/
def target (s : Store) (path : String) : Except PathError Location := do
  let all ← names path
  let named := (all.reverse.dropWhile List.isEmpty).reverse
  let name := named.getLast?.getD []
  let parent ← s.walk [] named.dropLast
  s.requireDirectory parent
  if named.length < all.length then throw .isDirectory
  if Path.stays name || Path.ascends name then throw .isDirectory
  requireName name
  if s.node? (parent ++ [name]) = some .directory then throw .isDirectory
  return parent ++ [name]

/-- Writes a file, in place of one that is there. -/
def write (s : Store) (path : String) (bytes : List UInt8) : Except Failure Store :=
  match s.target path with
  | .ok l => .ok (s.put l (.file bytes))
  | .error e => .error (.creating path e.text)

/-- Makes the directories that names lead to from a place, where there is nothing yet. -/
def addDirectories (s : Store) : Location → List (List Char) → Store
  | _, [] => s
  | l, name :: names =>
    if Path.stays name then s.addDirectories l names
    else if Path.ascends name then s.addDirectories l.dropLast names
    else
      let next := l ++ [name]
      let s := if (s.node? next).isNone then s.put next .directory else s
      s.addDirectories next names

/-- All files, each with its names joined by slashes. -/
def files (s : Store) : List (String × List UInt8) :=
  s.nodes.filterMap fun
    | (l, .file bytes) => some ("/".intercalate (l.map String.ofList), bytes)
    | (_, .directory) => none

end Store

end QuantClassifier
