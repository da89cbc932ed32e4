/-!
# Command lines

A grammar names the options of a program and says what each of them takes. Reading the arguments
from left to right yields the options that occur, each with its value. An option that waits for a
value takes the next argument that does not look like an option; the value is read when the next
known option comes, or at the end.
-/

namespace QuantClassifier.CommandLine

/-- Why arguments are not taken. The first two are asked for. -/
inductive Refusal where
  | help
  | version
  /-- An option that is not known, or a word that belongs to no option. -/
  | unknownArgument
  /-- An option has no value, or an empty one where that is none. -/
  | missingValue
  /-- A value that can not be read. -/
  | invalidValue
  /-- A value for an option that takes none. -/
  | unexpectedValue
  /-- An option occurs twice, or together with one that it excludes. -/
  | conflict
  /-- An option that is required does not occur. -/
  | missingArgument
  deriving DecidableEq, Repr

/-- How an option is written. -/
inductive Spelling where
  | long (name : List Char)
  | short (letter : Char)
  deriving DecidableEq, Repr

/-- What an argument looks like. -/
inductive Token where
  /-- Two dashes: no options follow. -/
  | terminator
  /-- Two dashes and a name, perhaps with a value after an equals sign. -/
  | long (name : List Char) (value : Option String)
  /-- A dash and letters. -/
  | letters (cs : List Char)
  | word (text : String)
  deriving DecidableEq, Repr

namespace Token

/-- A name, and the value after the first equals sign. -/
def splitValue (cs : List Char) : List Char × Option String :=
  match cs.dropWhile (· ≠ '=') with
  | [] => (cs, none)
  | _ :: value => (cs.takeWhile (· ≠ '='), some (String.ofList value))

/-- The form of an argument. A lone dash is a word. -/
def ofString (argument : String) : Token :=
  match argument.toList with
  | ['-', '-'] => terminator
  | '-' :: '-' :: cs => let (name, value) := splitValue cs; long name value
  | '-' :: c :: cs => letters (c :: cs)
  | _ => word argument

end Token

/-- What an option takes and what it stands for. -/
inductive Form (α : Type) where
  /-- Asks for something else than a run. -/
  | stop (r : Refusal)
  /-- Takes no value and occurs once at most. -/
  | flag (value : α)
  /-- Takes no value and occurs any number of times. -/
  | counter (value : α)
  /-- Takes a value and occurs once at most. -/
  | argument (read : String → Except Refusal α)

/-- The options of a program and the values that they stand for. -/
structure Grammar (ι : Type) (Value : ι → Type) where
  spellings : List (Spelling × ι)
  form : (i : ι) → Form (Value i)

variable {ι : Type} [DecidableEq ι] {Value : ι → Type}

/-- The options that occur, with their values. -/
abbrev Occurrences (Value : ι → Type) := List ((i : ι) × Value i)

namespace Occurrences

/-- The first value of an option. -/
def value? (xs : Occurrences Value) (i : ι) : Option (Value i) :=
  xs.findSome? fun x => if h : x.1 = i then some (h ▸ x.2) else none

/-- How often an option occurs. -/
def count (xs : Occurrences Value) (i : ι) : Nat := xs.countP (·.1 = i)

/-- An option occurs. -/
def has (xs : Occurrences Value) (i : ι) : Bool := xs.any (·.1 = i)

end Occurrences

/-- The options read so far, the last one first, and the option that has no value yet or one that is
still to be read. -/
structure Progress (Value : ι → Type) where
  done : Occurrences Value
  pending : Option (ι × Option String)

namespace Grammar

/-- The option that is written so. -/
def find? (g : Grammar ι Value) (s : Spelling) : Option ι := g.spellings.lookup s

/-- Adds an option and reads its value. -/
def accept (g : Grammar ι Value) (done : Occurrences Value) (i : ι) (value : Option String) :
    Except Refusal (Occurrences Value) :=
  match g.form i with
  | .stop r => .error r
  | .counter v => .ok (⟨i, v⟩ :: done)
  | .flag v => if done.has i then .error .conflict else .ok (⟨i, v⟩ :: done)
  | .argument read =>
    match value with
    | none => .error .missingValue
    | some text =>
      if done.has i then .error .conflict
      else (read text).map fun v => ⟨i, v⟩ :: done

/-- Adds the pending option. -/
def settle (g : Grammar ι Value) (p : Progress Value) : Except Refusal (Occurrences Value) :=
  match p.pending with
  | none => .ok p.done
  | some (i, value) => g.accept p.done i value

/-- Reads letters, which take no values. -/
def readLetters (g : Grammar ι Value) :
    Progress Value → List Char → Except Refusal (Progress Value)
  | p, [] => .ok p
  | p, c :: cs =>
    match g.find? (.short c) with
    | none => .error .unknownArgument
    | some i => do
      let done ← g.accept (← g.settle p) i none
      g.readLetters ⟨done, none⟩ cs

/-- Reads an option in its long form. -/
def readLong (g : Grammar ι Value) (p : Progress Value) (name : List Char)
    (value : Option String) : Except Refusal (Progress Value) :=
  match g.find? (.long name) with
  | none => .error .unknownArgument
  | some i =>
    match g.form i, value with
    | .argument _, none => do return ⟨← g.settle p, some (i, none)⟩
    | .argument _, some text => do return ⟨← g.accept (← g.settle p) i (some text), none⟩
    | _, some _ => .error .unexpectedValue
    | _, none => do return ⟨← g.accept (← g.settle p) i none, none⟩

/-- Reads arguments. -/
def read (g : Grammar ι Value) :
    Progress Value → List String → Except Refusal (Occurrences Value)
  | p, [] => g.settle p
  | p, argument :: rest =>
    match Token.ofString argument with
    | .terminator => if rest.isEmpty then g.settle p else .error .unknownArgument
    | .long name value => do g.read (← g.readLong p name value) rest
    | .letters cs => do g.read (← g.readLetters p cs) rest
    | .word text =>
      match p.pending with
      | some (i, none) => g.read ⟨p.done, some (i, some text)⟩ rest
      | _ => .error .unknownArgument

/-- The options of a command line in the order of their occurrence. -/
def parse (g : Grammar ι Value) (arguments : List String) : Except Refusal (Occurrences Value) :=
  (g.read ⟨[], none⟩ arguments).map List.reverse

end Grammar

end QuantClassifier.CommandLine
