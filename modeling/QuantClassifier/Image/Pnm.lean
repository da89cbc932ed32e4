import QuantClassifier.Decimal.Parse
import QuantClassifier.Image.Basic

/-!
# Portable pixmaps

A binary pixmap is the letter P and a digit, its width, its height and its greatest sample as
decimal words, one blank, and the samples. Five stands for grey, six for red, green and blue; the
samples read here have eight bits.
-/

namespace QuantClassifier.Pnm

/-- The bytes that part words. -/
def isBlank (b : UInt8) : Bool := b = 32 || (9 ≤ b && b ≤ 13)

/-- The bytes that end a line. -/
def endsLine (b : UInt8) : Bool := b = 10 || b = 13

/-- The next word, which is ended by a blank, and what follows that blank. A number sign starts a
comment, which goes to the end of the line. -/
def word (found : List UInt8) (comment : Bool) : List UInt8 → List UInt8 × List UInt8
  | [] => (found, [])
  | b :: bytes =>
    if comment && !endsLine b then word found true bytes
    else if b = 35 then word found true bytes
    else if comment then word found false bytes
    else if isBlank b then
      if found.isEmpty then word found false bytes else (found, bytes)
    else word (found ++ [b]) false bytes

/-- The digits of a number, which a plus sign may lead. -/
def unsigned : List Char → List Char
  | '+' :: digits => digits
  | digits => digits

/-- The next word as a number of 32 bits. -/
def number? (bytes : List UInt8) : Option (Nat × List UInt8) := do
  let (letters, rest) := word [] false bytes
  let n ← Decimal.natural? (unsigned (letters.map fun b => Char.ofNat b.toNat))
  guard (n < 0x100000000)
  return (n, rest)

/-- The colour model of a kind of pixmap. -/
def colorModel? : UInt8 → Option ColorModel
  | 53 => some .luma
  | 54 => some .rgb
  | _ => none

/-- The image in a file. What follows the samples does not count. -/
def decode? (bytes : List UInt8) : Option Image :=
  match bytes with
  | 80 :: kind :: rest => do
    let model ← colorModel? kind
    let (width, rest) ← number? rest
    let (height, rest) ← number? rest
    let (greatest, rest) ← number? rest
    guard (greatest = Depth.eight.greatest)
    let size := width * height * model.channels
    guard (size ≤ rest.length)
    Image.ofSamples? model .eight width height ((rest.take size).map UInt8.toNat)
  | _ => none

end QuantClassifier.Pnm
