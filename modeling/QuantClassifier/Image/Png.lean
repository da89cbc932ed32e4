import QuantClassifier.Image.Png.Preface
import QuantClassifier.Image.Png.Stored

/-!
# Plain PNG files

A PNG file is a signature and chunks. The images read here have eight bits a sample, no palette and
no interlacing, and their data is neither compressed nor filtered: the deflate blocks are stored
ones and every row starts with filter type zero. A colour may be transparent.
-/

namespace QuantClassifier.Png

/-- The first bytes of every file. -/
def signature : List UInt8 := [0x89, 0x50, 0x4E, 0x47, 0x0D, 0x0A, 0x1A, 0x0A]

/-- The joined data of the image chunks, which follow each other. The chunk after the last one must
at least begin. -/
def imageData? (bytes : List UInt8) : Option (List UInt8) :=
  match chunkType? bytes with
  | none => none
  | some type =>
    if ChunkKind.ofType? type = some .data then
      match h : readChunk? bytes with
      | none => none
      | some (c, rest) =>
        have := length_of_readChunk? h
        (imageData? rest).map (c.data ++ ·)
    else some []
termination_by bytes.length

/-- The samples of some rows, each of them behind a byte for its filter. -/
def rows? (width : Nat) : Nat → List UInt8 → Option (List UInt8)
  | 0, _ => some []
  | height + 1, bytes =>
    match bytes with
    | 0 :: row => do
      let (samples, rest) ← take? width row
      return samples ++ (← rows? width height rest)
    | _ => none

/-- The samples of some pixels, each followed by its opacity: the pixels of one colour can be seen
through. -/
def withOpacity (key : List UInt8) : Nat → List UInt8 → List UInt8
  | 0, _ => []
  | pixels + 1, samples =>
    let pixel := samples.take key.length
    pixel ++ (if pixel = key then 0 else 255) :: withOpacity key pixels (samples.drop key.length)

/-- A colour model with opacity. -/
def addOpacity : ColorModel → ColorModel
  | .luma | .lumaAlpha => .lumaAlpha
  | .rgb | .rgba => .rgba

/-- The image of a preface and the contents of the image chunks. -/
def image? (p : Preface) (contents : List UInt8) : Option Image := do
  let h := p.header
  let samples ← rows? (h.width * h.model.channels) h.height contents
  let image (model : ColorModel) (samples : List UInt8) :=
    Image.ofSamples? model .eight h.width h.height (samples.map UInt8.toNat)
  match p.key with
  | none => image h.model samples
  | some key => image (addOpacity h.model) (withOpacity key (h.height * h.width) samples)

/-- The image in a file. -/
def decode? (bytes : List UInt8) : Option Image := do
  let (start, rest) ← take? signature.length bytes
  guard (start = signature)
  let (header, rest) ← readHeader? rest
  let (preface, rest) ← readPreface? (.ofHeader header) rest
  image? preface (← contents? (← imageData? rest))

end QuantClassifier.Png
