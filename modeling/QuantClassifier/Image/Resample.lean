import QuantClassifier.Binary.Integer
import QuantClassifier.Image.Basic

/-!
# Resampling images

An image is brought to another size by a weighted mean along each axis, first down the columns and
then along the rows, with the weights of a cubic curve that is stretched when the image shrinks. All
steps are in single precision and only the result is rounded to samples.
-/

namespace QuantClassifier.Resample

open Binary (ofNat ofInt ofPlaces)

/-- The weight of a sample at a distance: a cubic piece up to one, another up to two, then nothing.
-/
def weight (distance : Single) : Single :=
  let a := distance.abs
  let square := a * a
  let cube := a * square
  if a.less (ofNat 1) then (ofNat 9 * cube + ofInt (-15) * square + ofNat 6) / ofNat 6
  else if a.less (ofNat 2) then
    (ofInt (-3) * cube + ofNat 15 * square + ofInt (-24) * a + ofNat 12) / ofNat 6
  else .zero false

/-- The sum of some floats in order, from zero. -/
def total (xs : List Single) : Single := xs.foldl (· + ·) (.zero false)

/-- The samples of an axis of `n` that sample `o` of an axis of `m` is made of, with weights whose
sum is one. -/
def taps (n m : Nat) (o : Fin m) : List (Fin n × Single) :=
  let ratio : Single := ofNat n / ofNat m
  let stretch := ratio.max (ofNat 1)
  let reach := ofNat 2 * stretch
  let center := (ofNat o + ofPlaces 5 1) * ratio
  let left : Int := (center - reach).floor 0 (n - 1)
  let right : Int := (center + reach).ceil (left + 1) n
  let origin := center - ofPlaces 5 1
  let inReach := (List.finRange n).filter fun i => left ≤ i.val && i.val < right
  let weights := inReach.map fun i => weight ((ofNat i.val - origin) / stretch)
  let sum := total weights
  inReach.zip (weights.map (· / sum))

/-- A weighted sum of the samples of an axis. -/
def blend {n : Nat} (ts : List (Fin n × Single)) (sample : Fin n → Single) : Single :=
  total (ts.map fun (i, w) => sample i * w)

variable {α : Type} {width height channels : Nat}

/-- The columns of a raster blended to another height. -/
def vertical (newHeight : Nat) (toFloat : α → Single) (r : Raster α width height channels) :
    Raster Single width newHeight channels :=
  let ts := Vector.ofFn (taps height newHeight)
  .ofFn fun y x k => blend (ts.get y) fun i => toFloat (r.get i x k)

/-- The rows of a raster blended to another width. -/
def horizontal (newWidth : Nat) (r : Raster Single width height channels) :
    Raster Single newWidth height channels :=
  let ts := Vector.ofFn (taps width newWidth)
  .ofFn fun y x k => blend (ts.get x) fun i => r.get y i k

/-- The sample nearest to a float. -/
def toSample (d : Depth) (x : Single) : d.Sample :=
  ⟨(x.roundHalfAway 0 d.greatest).toNat % (d.greatest + 1), Nat.mod_lt _ (Nat.succ_pos _)⟩

end QuantClassifier.Resample

namespace QuantClassifier.Image

/-- The image in another size. -/
def resize (i : Image) (width height : Nat) : Image :=
  if i.width = width ∧ i.height = height then i
  else
    { color := i.color
      depth := i.depth
      width, height
      raster := (Resample.horizontal width
        (Resample.vertical height (fun v => Binary.ofNat v.val) i.raster)).map
          (Resample.toSample i.depth) }

theorem width_resize (i : Image) (width height : Nat) : (i.resize width height).width = width := by
  unfold resize
  split <;> simp_all

theorem height_resize (i : Image) (width height : Nat) :
    (i.resize width height).height = height := by
  unfold resize
  split <;> simp_all

end QuantClassifier.Image
