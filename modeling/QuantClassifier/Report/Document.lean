/-!
# JSON documents

A document is laid out with two spaces a level, one item a line; an empty list stays on one line.
-/

namespace QuantClassifier

/-- A JSON document. Numbers are held as their text. -/
inductive Document where
  | null
  | number (text : String)
  | string (text : String)
  | list (items : List Document)
  | object (fields : List (String × Document))

namespace Document

/-- Four hexadecimal digits. -/
def fourDigits (n : Nat) : List Char :=
  let digits := Nat.toDigits 16 n
  List.replicate (4 - digits.length) '0' ++ digits

/-- A character of a text: quotes, backslashes and controls are escaped. -/
def escape (c : Char) : List Char :=
  match c with
  | '"' => ['\\', '"']
  | '\\' => ['\\', '\\']
  | '\n' => ['\\', 'n']
  | '\r' => ['\\', 'r']
  | '\t' => ['\\', 't']
  | c =>
    if c.toNat = 0x8 then ['\\', 'b']
    else if c.toNat = 0xC then ['\\', 'f']
    else if c.toNat < 0x20 then ['\\', 'u'] ++ fourDigits c.toNat
    else [c]

/-- A text in quotes. -/
def quote (text : String) : String :=
  String.ofList ('"' :: text.toList.flatMap escape ++ ['"'])

/-- A new line at a level. -/
def lineBreak (level : Nat) : String := "\n" ++ String.ofList (List.replicate (2 * level) ' ')

/-- Items between two brackets, each on a line of its own. -/
def block (opening closing : String) (level : Nat) (items : List String) : String :=
  if items.isEmpty then opening ++ closing
  else
    opening ++ lineBreak (level + 1) ++ ("," ++ lineBreak (level + 1)).intercalate items ++
      lineBreak level ++ closing

mutual

/-- The text of a document at a level. -/
def render (level : Nat) : Document → String
  | null => "null"
  | number text => text
  | string text => quote text
  | list items => block "[" "]" level (renderItems (level + 1) items)
  | object fields => block "\x7b" "\x7d" level (renderFields (level + 1) fields)

/-- The texts of some documents at a level. -/
def renderItems (level : Nat) : List Document → List String
  | [] => []
  | d :: ds => render level d :: renderItems level ds

/-- The texts of some fields at a level. -/
def renderFields (level : Nat) : List (String × Document) → List String
  | [] => []
  | (key, d) :: ds => (quote key ++ ": " ++ render level d) :: renderFields level ds

end

/-- The text of a document. -/
def text (d : Document) : String := d.render 0

end Document

end QuantClassifier
