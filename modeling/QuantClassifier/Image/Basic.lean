import QuantClassifier.Image.Raster

/-!
# Images

An image is a raster of whole samples with a colour model and a depth. Whatever it is, it can be
seen as one of three channels of eight bits.
-/

namespace QuantClassifier

/-- What the channels of a pixel are. -/
inductive ColorModel where
  | luma
  | lumaAlpha
  | rgb
  | rgba
  deriving DecidableEq, Repr

namespace ColorModel

/-- The number of channels. -/
def channels : ColorModel → Nat
  | luma => 1
  | lumaAlpha => 2
  | rgb => 3
  | rgba => 4

/-- The channel that a colour of red, green and blue is taken from. -/
def source : (m : ColorModel) → Fin 3 → Fin m.channels
  | luma, _ => ⟨0, by decide⟩
  | lumaAlpha, _ => ⟨0, by decide⟩
  | rgb, k => k
  | rgba, k => ⟨k, Nat.lt_of_lt_of_le k.2 (by decide)⟩

end ColorModel

/-- The number of bits of a sample. -/
inductive Depth where
  | eight
  | sixteen
  deriving DecidableEq, Repr

namespace Depth

/-- The greatest sample. -/
def greatest : Depth → Nat
  | eight => 255
  | sixteen => 65535

/-- A sample of a depth. -/
abbrev Sample (d : Depth) : Type := Fin (d.greatest + 1)

/-- A sample of eight bits; sixteen bits are scaled to the nearest. -/
def toByte : (d : Depth) → d.Sample → Fin 256
  | eight, v => v
  | sixteen, v => ⟨(v + 128) / 257, by
      have h : (v : Nat) < 65536 := v.2
      omega⟩

end Depth

/-- An image. -/
structure Image where
  color : ColorModel
  depth : Depth
  width : Nat
  height : Nat
  raster : Raster depth.Sample width height color.channels

namespace Image

/-- The image of some samples, if there are as many as places. Samples above the greatest one are
wrapped. -/
def ofSamples? (color : ColorModel) (depth : Depth) (width height : Nat) (samples : List Nat) :
    Option Image :=
  (Raster.ofArray? width height color.channels
    (samples.map (Fin.ofNat (depth.greatest + 1))).toArray).map (⟨color, depth, width, height, ·⟩)

/-- The image in red, green and blue of eight bits: grey gives all three, and opacity is dropped. -/
def toRgb (i : Image) : Raster (Fin 256) i.width i.height 3 :=
  .ofFn fun y x k => i.depth.toByte (i.raster.get y x (i.color.source k))

end Image

end QuantClassifier
