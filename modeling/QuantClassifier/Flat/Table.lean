import QuantClassifier.Text.Utf8

/-!
# Flat buffers

A flat buffer holds tables that refer to each other by offsets. Each table points back to a list of
the places of its fields, so that fields may be absent. A schema says what the fields of a type of
table are; a buffer is read by a schema only if all that the schema reaches lies within the buffer,
numbers on places that are multiples of their width.
-/

namespace QuantClassifier.Flat

/-- What a field of a table is. Widths are in bytes. -/
inductive Kind (τ : Type) where
  /-- A field that is not looked at. -/
  | skipped
  | scalar (width : Nat)
  | text
  | scalars (width : Nat)
  | table (t : τ)
  | tables (t : τ)
  /-- A table of a type that the number in the slot before tells; both are there or none. Types of
  unknown numbers are not looked at. -/
  | choice (types : List (Nat × τ))
  deriving DecidableEq, Repr

/-- The fields of each type of table, by their slots. -/
abbrev Schema (τ : Type) := τ → List (Kind τ)

/-- The value of a field. Scalars are held as unsigned numbers. -/
inductive Value where
  | scalar (n : Nat)
  | text (s : String)
  | scalars (ns : List Nat)
  | table (fields : List (Option Value))
  | tables (ts : List (List (Option Value)))

/-- The fields of a table by their slots. -/
abbrev Table := List (Option Value)

namespace Table

/-- The field in a slot, if it is present. -/
def get? (t : Table) (slot : Nat) : Option Value := t[slot]?.join

/-- The scalar in a slot, zero if it is absent. -/
def scalar (t : Table) (slot : Nat) : Nat :=
  match t.get? slot with
  | some (.scalar n) => n
  | _ => 0

/-- The text in a slot, empty if it is absent. -/
def text (t : Table) (slot : Nat) : String :=
  match t.get? slot with
  | some (.text s) => s
  | _ => ""

/-- The scalars in a slot. -/
def scalars? (t : Table) (slot : Nat) : Option (List Nat) :=
  match t.get? slot with
  | some (.scalars ns) => some ns
  | _ => none

/-- The table in a slot. -/
def table? (t : Table) (slot : Nat) : Option Table :=
  match t.get? slot with
  | some (.table fields) => some fields
  | _ => none

/-- The tables in a slot. -/
def tables? (t : Table) (slot : Nat) : Option (List Table) :=
  match t.get? slot with
  | some (.tables ts) => some ts
  | _ => none

end Table

/-! ## Places in a buffer -/

/-- Bytes that can be read at any place. -/
abbrev Buffer := Array UInt8

/-- Some bytes at a place lie within the buffer. -/
def holds (b : Buffer) (place size : Nat) : Bool := place + size ≤ b.size

/-- The number that bytes at a place stand for, the least significant byte first. -/
def littleEndian (b : Buffer) (place : Nat) : Nat → Nat
  | 0 => 0
  | width + 1 => (b[place]?.getD 0).toNat + 256 * littleEndian b (place + 1) width

/-- The number at a place, which is a multiple of its width. -/
def number? (b : Buffer) (width place : Nat) : Option Nat :=
  if place % width = 0 ∧ holds b place width then some (littleEndian b place width) else none

/-- The place that the offset at a place leads to. -/
def follow? (b : Buffer) (place : Nat) : Option Nat := (number? b 4 place).map (place + ·)

/-- Where the elements of the vector at a place start, and their number. -/
def vector? (b : Buffer) (width place : Nat) : Option (Nat × Nat) := do
  let count ← number? b 4 place
  let start := place + 4
  if start % width = 0 ∧ holds b start (count * width) then some (start, count) else none

/-- Where a table lists its fields, and the size of that list. -/
structure Listing where
  place : Nat
  size : Nat
  deriving DecidableEq, Repr

/-- The list of fields of the table at a place. The table tells how far before it the list is. -/
def listing? (b : Buffer) (place : Nat) : Option Listing := do
  let distance := Int.bmod (← number? b 4 place) 0x100000000
  let start : Int := place - distance
  if 0 ≤ start ∧ start < b.size then
    let size ← number? b 2 start.toNat
    if (start.toNat + size) % 2 = 0 ∧ holds b start.toNat size then
      return { place := start.toNat, size }
    else none
  else none

/-- The place of the field in a slot of the table at a place, if it is present. -/
def field? (b : Buffer) (place : Nat) (l : Listing) (slot : Nat) : Option (Option Nat) :=
  let entry := 4 + 2 * slot
  if entry < l.size then do
    let offset ← number? b 2 (l.place + entry)
    return if offset = 0 then none else some (place + offset)
  else some none

/-! ## Reading -/

/-- The text whose vector is at a place. A zero follows it. -/
def readText? (b : Buffer) (place : Nat) : Option String := do
  let (start, count) ← vector? b 1 place
  if b[start + count]? = some 0 then Text.decodeUtf8? (b.extract start (start + count)).toList
  else none

/-- The numbers whose vector is at a place. -/
def readScalars? (b : Buffer) (width place : Nat) : Option (List Nat) := do
  let (start, count) ← vector? b width place
  return (List.range count).map fun i => littleEndian b (start + i * width) width

/-- The table at a place. `depth` bounds how deep tables are within tables. -/
def readTable? {τ : Type} (schema : Schema τ) (b : Buffer) : Nat → τ → Nat → Option Table
  | 0, _, _ => none
  | depth + 1, t, place => do
    let l ← listing? b place
    (schema t).zipIdx.mapM fun (kind, slot) => do
      match kind, ← field? b place l slot with
      | .skipped, _ => return none
      | .choice types, target =>
        match ← field? b place l (slot - 1), target with
        | none, none => return none
        | some p, some q =>
          match types.lookup (← number? b 1 p) with
          | some t' => return some (.table (← readTable? schema b depth t' (← follow? b q)))
          | none => return none
        | _, _ => none
      | _, none => return none
      | .scalar width, some p => return some (.scalar (← number? b width p))
      | .text, some p => return some (.text (← readText? b (← follow? b p)))
      | .scalars width, some p => return some (.scalars (← readScalars? b width (← follow? b p)))
      | .table t', some p => return some (.table (← readTable? schema b depth t' (← follow? b p)))
      | .tables t', some p => do
        let (start, count) ← vector? b 4 (← follow? b p)
        let tables ← (List.range count).mapM fun i => do
          readTable? schema b depth t' (← follow? b (start + 4 * i))
        return some (.tables tables)

/-- How deep tables may be within tables. -/
def depthLimit : Nat := 64

/-- The table that a buffer starts with an offset to. -/
def read? {τ : Type} (schema : Schema τ) (t : τ) (bytes : List UInt8) : Option Table := do
  let b := bytes.toArray
  readTable? schema b depthLimit t (← follow? b 0)

end QuantClassifier.Flat
