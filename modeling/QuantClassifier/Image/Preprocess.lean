import QuantClassifier.Image.Normalization
import QuantClassifier.Image.Resample
import QuantClassifier.Model.Geometry

/-!
# Images as model input

An image is resized to the geometry of the input and seen in red, green and blue. Its samples, which
are its colours or its greys, lie in a buffer line by line, and each place of the input reads its
cell of the buffer and normalizes it. The size of the resized image is given in 32 bit words, so that
of a longer axis only a part is there; reading behind the end of the buffer panics.
-/

namespace QuantClassifier

namespace Raster

variable {width height : Nat}

/-- The weights of red, green and blue in grey. -/
def grayWeights : List Single :=
  [Binary.ofPlaces 2989 4, Binary.ofPlaces 5870 4, Binary.ofPlaces 1140 4]

/-- The grey of a colour. -/
def grayOf (rgb : Raster (Fin 256) width height 3) (y : Fin height) (x : Fin width) : Single :=
  Binary.sum ((List.finRange 3).map fun k =>
    Binary.ofNat (rgb.get y x k).val * grayWeights.get k)

/-- The samples of a picture before they are normalized, in their order: its colours, or the grey of
each pixel if there is one channel. -/
def buffer (rgb : Raster (Fin 256) width height 3) (channels : Nat) : Array Single :=
  if channels = 3 then rgb.samples.map fun v => Binary.ofNat v.val
  else (ofFn fun y x _ => rgb.grayOf y x : Raster Single width height 1).samples

end Raster

/-! ## The places of an input -/

/-- The values of three indices below three bounds, in row-major order. -/
def grid {α : Type} (a b c : Nat) (f : Nat → Nat → Nat → α) : List α :=
  (List.range a).flatMap fun i => (List.range b).flatMap fun j => (List.range c).map (f i j)

section Grid

variable {α β : Type}

theorem length_flatMap_of_forall {f : α → List β} {n : Nat} (xs : List α)
    (h : ∀ x, (f x).length = n) : (xs.flatMap f).length = xs.length * n := by
  induction xs with
  | nil => simp
  | cons x xs ih => rw [List.flatMap_cons, List.length_append, h, ih, List.length_cons,
      Nat.succ_mul, Nat.add_comm]

theorem length_plane (b c : Nat) (f : Nat → Nat → α) :
    ((List.range b).flatMap fun j => (List.range c).map (f j)).length = b * c := by
  rw [length_flatMap_of_forall _ fun j => by rw [List.length_map, List.length_range],
    List.length_range]

theorem length_grid (a b c : Nat) (f : Nat → Nat → Nat → α) :
    (grid a b c f).length = a * (b * c) := by
  rw [grid, length_flatMap_of_forall _ fun i => length_plane b c (f i), List.length_range]

end Grid

/-- A place of an input: a line, a column and a channel. -/
structure Place where
  y : Nat
  x : Nat
  channel : Nat
  deriving DecidableEq, Repr

namespace Geometry

/-- The places of an input in the order of its layout. -/
def places (g : Geometry) : List Place :=
  match g.layout with
  | .nhwc => grid g.height g.width g.channels fun y x k => ⟨y, x, k⟩
  | .nchw => grid g.channels g.height g.width fun k y x => ⟨y, x, k⟩

theorem length_places (g : Geometry) : g.places.length = g.shape.product := by
  obtain ⟨layout, height, width, channels⟩ := g
  cases layout <;> simp [places, shape, length_grid]

/-- The value of a place: its cell of the buffer, normalized. -/
def read (g : Geometry) (n : Normalization) (buffer : Array Single) (p : Place) :
    Except Panic Single :=
  match buffer[(p.y * g.width + p.x) * g.channels + p.channel]? with
  | some sample => .ok (n.ofChannel g.channels p.channel sample)
  | none => .error .outOfBounds

end Geometry

/-- The input of some geometry that reads all its places from a buffer. -/
def fillInput (buffer : Array Single) (g : Geometry) (n : Normalization) : Except Panic Tensor :=
  match h : g.places.mapM (g.read n buffer) with
  | .ok values => .ok ⟨.f32, g.shape, values, (length_of_mapM h).trans g.length_places⟩
  | .error p => .error p

/-! ## Pictures -/

/-- What can be seen in any size, in red, green and blue of eight bits: an image of any kind, also
one whose samples are floats, once there is a way to resize and to convert it. -/
abbrev Picture := (width height : Nat) → Raster (Fin 256) width height 3

/-- A length as a 32 bit word. -/
def cutLength (n : Nat) : Nat := n % 0x100000000

theorem cutLength_of_lt {n : Nat} (h : n < 0x100000000) : cutLength n = n := Nat.mod_eq_of_lt h

/-- A picture as a model input of some geometry. -/
def Picture.preprocess (p : Picture) (g : Geometry) (n : Normalization) : Except Stop Tensor :=
  let rgb := p (cutLength g.width) (cutLength g.height)
  if g.channels = 1 ∨ g.channels = 3 then fillInput (rgb.buffer g.channels) g n
  else .error (.ofKind (.unsupportedFormat s!"images with {g.channels} channels"))

namespace Image

variable {width height : Nat}

/-- The colours of an image whose size is known. -/
def rgbOfSize (i : Image) (hwidth : i.width = width) (hheight : i.height = height) :
    Raster (Fin 256) width height 3 := hwidth ▸ hheight ▸ i.toRgb

/-- The colours of an image that has been resized. -/
def resizedRgb (i : Image) (width height : Nat) : Raster (Fin 256) width height 3 :=
  (i.resize width height).rgbOfSize (i.width_resize width height) (i.height_resize width height)

end Image

/-- An image as a model input of some geometry. -/
def preprocess (i : Image) (g : Geometry) (n : Normalization) : Except Stop Tensor :=
  Picture.preprocess i.resizedRgb g n

end QuantClassifier
