import QuantClassifier.Text.Blank

/-!
# Pieces of a text

Cutting a text at a separator, and into lines. Joining the pieces with the separator gives the text
back (`joinWith_splitAt`).
-/

namespace QuantClassifier.Text

/-- The pieces between the occurrences of a separator; there is always one. -/
def splitAt (sep : Char) : List Char → List (List Char)
  | [] => [[]]
  | c :: cs =>
    if c = sep then [] :: splitAt sep cs
    else
      match splitAt sep cs with
      | [] => [[c]]
      | piece :: pieces => (c :: piece) :: pieces

/-- Pieces with a separator between them. -/
def joinWith (sep : Char) : List (List Char) → List Char
  | [] => []
  | [piece] => piece
  | piece :: pieces => piece ++ sep :: joinWith sep pieces

theorem splitAt_ne_nil (sep : Char) (cs : List Char) : splitAt sep cs ≠ [] := by
  unfold splitAt
  split
  · simp
  · split
    · simp
    · split <;> simp

theorem joinWith_splitAt (sep : Char) (cs : List Char) : joinWith sep (splitAt sep cs) = cs := by
  induction cs with
  | nil => rfl
  | cons c cs ih =>
    have hne := splitAt_ne_nil sep cs
    cases hs : splitAt sep cs with
    | nil => exact absurd hs hne
    | cons piece pieces =>
      rw [hs] at ih
      rw [splitAt, hs]
      split
      · next h => rw [joinWith, List.nil_append, ih, h]; simp
      · cases pieces <;> simp_all [joinWith]

/-- A line that ended in a line feed, without the carriage return before it. -/
def dropReturn (line : List Char) : List Char :=
  if line.getLast? = some '\r' then line.dropLast else line

/-- The lines of a text, each ended by a line feed or a carriage return and a line feed. A last line
need not be ended, and is none if it is empty. -/
def lines (cs : List Char) : List (List Char) :=
  let pieces := splitAt '\n' cs
  let ended := pieces.dropLast.map dropReturn
  match pieces.getLast? with
  | none => ended
  | some last => if last.isEmpty then ended else ended ++ [last]

end QuantClassifier.Text
