import QuantClassifier.Image.Basic
import QuantClassifier.Image.Png.Chunk

/-!
# What a PNG file says before its image

The header comes first. The other chunks before the image may name a colour that is transparent, and
some of them must be well formed although they do not change the image. A chunk without data says
nothing.
-/

namespace QuantClassifier.Png

/-- The size and the colours of an image. -/
structure Header where
  width : Nat
  height : Nat
  model : ColorModel
  deriving DecidableEq, Repr

/-- The colour model of a colour type. -/
def colorModel? : UInt8 → Option ColorModel
  | 0 => some .luma
  | 2 => some .rgb
  | 4 => some .lumaAlpha
  | 6 => some .rgba
  | _ => none

namespace Header

/-- The header in the data of a chunk: eight bits a sample, no interlacing. -/
def ofData? : List UInt8 → Option Header
  | w₃ :: w₂ :: w₁ :: w₀ :: h₃ :: h₂ :: h₁ :: h₀ :: 8 :: color :: 0 :: 0 :: 0 :: _ => do
    let width := bigEndian [w₃, w₂, w₁, w₀]
    let height := bigEndian [h₃, h₂, h₁, h₀]
    guard (width ≠ 0 ∧ height ≠ 0)
    return { width, height, model := ← colorModel? color }
  | _ => none

/-- The samples of the transparent colour, each of which is given in two bytes. Images with an
opacity of their own have none. -/
def key? (h : Header) (data : List UInt8) : Option (List UInt8) :=
  match h.model, data with
  | .luma, _ :: v :: _ => some [v]
  | .rgb, _ :: r :: _ :: g :: _ :: b :: _ => some [r, g, b]
  | _, _ => none

/-- A frame with a number covers the whole image, and is put there in a known way. -/
def isFrame (h : Header) (number : Nat) (data : List UInt8) : Bool :=
  let word (i : Nat) := bigEndian ((data.drop (4 * i)).take 4)
  let way (i : Nat) := data[i]?.any (· ≤ (if i = 24 then 2 else 1))
  word 0 = number && word 1 = h.width && word 2 = h.height && word 3 = 0 && word 4 = 0 &&
    way 24 && way 25

end Header

/-- What the chunks so far said: the header, the kinds that may not come again, the transparent
colour and the number of frames. -/
structure Preface where
  header : Header
  seen : List ChunkKind
  key : Option (List UInt8)
  frames : Nat

namespace Preface

/-- What a header says alone. -/
def ofHeader (header : Header) : Preface := ⟨header, [], none, 0⟩

/-- The preface with a kind that may come once. -/
def once? (p : Preface) (kind : ChunkKind) : Option Preface :=
  if kind ∈ p.seen then none else some { p with seen := kind :: p.seen }

/-- The preface with one more chunk. -/
def add? (p : Preface) (c : Chunk) : Option Preface :=
  match c.kind? with
  | none => some p
  | some kind =>
    if kind = .frameData ∨ kind = .finish then none
    else if c.data.isEmpty then some p
    else
      match kind with
      | .palette => p.once? kind
      | .transparency => do
        let key ← p.header.key? c.data
        return { ← p.once? kind with key := some key }
      | .density => do
        guard (c.data[8]?.any (· ≤ 1))
        p.once? kind
      | .gamma => do
        guard (4 ≤ c.data.length)
        p.once? kind
      | .chromaticities => do
        guard (32 ≤ c.data.length)
        p.once? kind
      | .intent => do
        guard (c.data.head?.any (· ≤ 3))
        p.once? kind
      | .animation => do
        guard (8 ≤ c.data.length)
        return p
      | .frame => do
        guard (p.header.isFrame p.frames c.data)
        return { p with frames := p.frames + 1 }
      | .header | .data | .finish | .frameData => none

end Preface

/-- The header that a file starts with, and what follows it. -/
def readHeader? (bytes : List UInt8) : Option (Header × List UInt8) :=
  match h : readChunk? bytes with
  | none => none
  | some (c, rest) =>
    have := length_of_readChunk? h
    if c.kind? = some .header then
      if c.data.isEmpty then readHeader? rest
      else (Header.ofData? c.data).map (·, rest)
    else none
termination_by bytes.length

/-- What is said before the first chunk of the image, which the rest starts with. -/
def readPreface? (p : Preface) (bytes : List UInt8) : Option (Preface × List UInt8) :=
  if (chunkType? bytes).bind ChunkKind.ofType? = some .data then some (p, bytes)
  else
    match h : readChunk? bytes with
    | none => none
    | some (c, rest) =>
      have := length_of_readChunk? h
      match p.add? c with
      | none => none
      | some p => readPreface? p rest
termination_by bytes.length

end QuantClassifier.Png
