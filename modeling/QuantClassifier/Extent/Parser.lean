import QuantClassifier.Decimal.Parse
import QuantClassifier.Extent.Arithmetic

/-!
# Reading extents

The operators from the weakest to the strongest are `#`, `+`, `-`, `*` and `/`, each of which stands
at most once between parentheses; only a number divides. Blanks may stand around operators,
parentheses, commas and the names of functions, but not around other names and numbers. A name that
was not there before is given the next number.
-/

namespace QuantClassifier.Extent

/-- What is left of a text, and the names so far. -/
structure Reading where
  rest : List Char
  labels : List String

/-- A reader, which may fail. -/
abbrev Reader := StateT Reading Option

namespace Reader

/-- A character between parts of a text. -/
def isBlank (c : Char) : Bool := c = ' ' || c = '\t' || c = '\r' || c = '\n'

/-- Skips blanks. -/
def blanks : Reader Unit := modify fun r => { r with rest := r.rest.dropWhile isBlank }

/-- A mark with blanks around it. -/
def mark (text : String) : Reader Unit := do
  blanks
  let r ← get
  guard (text.toList.isPrefixOf r.rest)
  set { r with rest := r.rest.drop text.length }
  blanks

/-- Some characters of a class, at least one. -/
def letters (isLetter : Char → Bool) : Reader (List Char) := do
  let r ← get
  let found := r.rest.takeWhile isLetter
  guard (!found.isEmpty)
  set { r with rest := r.rest.dropWhile isLetter }
  return found

/-- Digits as a number of 63 bits. -/
def natural : Reader Nat := do
  let n := Decimal.ofDigits (← letters Decimal.isDigit)
  guard (n < 0x8000000000000000)
  return n

/-- A letter of a name, which does not start with a digit. -/
def isNameLetter (c : Char) : Bool := c.isAlphanum || c = '_'

/-- A name. -/
def label : Reader Extent := do
  let found ← letters isNameLetter
  guard (!found.head?.any Char.isDigit)
  let label := String.ofList found
  let r ← get
  match r.labels.idxOf? label with
  | some i => return .name i label
  | none =>
    set { r with labels := r.labels ++ [label] }
    return .name r.labels.length label

/-- An operand, or two of them with an operator between them. -/
def binary (operand : Reader Extent) (operator : String) (build : Extent → Extent → Extent) :
    Reader Extent := do
  let x ← operand
  (do mark operator; return build x (← operand)) <|> return x

/-- An operand, which a number may divide. -/
def divided (operand : Reader Extent) : Reader Extent := do
  let x ← operand
  (do mark "/"; divideBy? x (← natural)) <|> return x

/-- An expression whose operands are atoms. -/
def expression (atom : Reader Extent) : Reader Extent :=
  let product := binary (divided atom) "*" multiply
  let difference := binary product "-" subtract
  let sum := binary difference "+" add
  binary sum "#" stretch

/-- Further items, each behind a comma. The number bounds how many. -/
def moreItems (item : Reader Extent) : Nat → Reader (List Extent)
  | 0 => return []
  | n + 1 =>
    (do
      mark ","
      let x ← item
      return x :: (← moreItems item n)) <|> return []

/-- Items in parentheses with commas between them. -/
def items (item : Reader Extent) (bound : Nat) : Reader (List Extent) := do
  mark "("
  let found ← (do
    let x ← item
    return x :: (← moreItems item bound)) <|> return []
  mark ")"
  return found

/-- A call of a function. -/
def call (function : String) (item : Reader Extent) (bound : Nat) : Reader (List Extent) := do
  mark function
  items item bound

/-- A number, a call of a function, a name, an atom with a minus sign, or an expression in
parentheses. The number bounds how deep expressions are within expressions. -/
def atom : Nat → Reader Extent
  | 0 => failure
  | depth + 1 =>
    let whole := expression (atom depth)
    (do return .number (← natural)) <|>
    (do (← call "floor" whole depth).head?) <|>
    (do return .least (← call "min" whole depth)) <|>
    (do return .greatest (← call "max" whole depth)) <|>
    label <|>
    (do mark "-"; return multiply (← atom depth) (.number (-1))) <|>
    (do
      mark "("
      let e ← whole
      mark ")"
      return e)

end Reader

/-- The extent that a text stands for, and the names after it. -/
def parse? (labels : List String) (text : List Char) : Option (Extent × List String) := do
  let (e, r) ← (Reader.expression (Reader.atom (text.length + 1))).run ⟨text, labels⟩
  if r.rest.isEmpty then some (e, r.labels) else none

end QuantClassifier.Extent
