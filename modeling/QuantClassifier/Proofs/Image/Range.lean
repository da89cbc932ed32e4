import QuantClassifier.Proofs.Binary.Order
import QuantClassifier.Proofs.Image.Placement

/-!
# The range of normalized pixels

Samples lie between zero and 255, whatever the picture was before it was resized, and so does the
grey of a colour, because each rounding on the way keeps the order and the weighted sum of the
brightest colour is still below 255 (`isPixel_grayOfColor`). Normalizing keeps the order as well
(`keepsOrder_apply`), so that the values of the darkest and the brightest sample enclose those of
all others. None of them is lost in an infinity or a NaN (`preprocess_range`).
-/

namespace QuantClassifier

namespace Binary

variable {fmt : Format} {x y lo hi lo' hi' : Binary fmt}

/-- A float in a range of finite floats. -/
structure Between (lo hi x : Binary fmt) : Prop where
  finite_lo : lo.isFinite = true
  finite_hi : hi.isFinite = true
  lo_le : lo ≤ x
  le_hi : x ≤ hi

namespace Between

theorem isFinite (h : Between lo hi x) : x.isFinite = true := by
  obtain ⟨-, -, hlo⟩ := le_iff.1 h.lo_le
  obtain ⟨-, -, hhi⟩ := le_iff.1 h.le_hi
  have hlow := (abs_lt.1 (isFinite_iff.1 h.finite_lo)).1
  have hhigh := (abs_lt.1 (isFinite_iff.1 h.finite_hi)).2
  exact isFinite_iff.2 (abs_lt.2 ⟨by linarith, by linarith⟩)

/-- An operation that keeps the order takes a range to the range of the ends. -/
theorem map {f : Binary fmt → Binary fmt} (hf : KeepsOrder f) (h : Between lo hi x)
    (hlo : (f lo).isFinite = true) (hhi : (f hi).isFinite = true) :
    Between (f lo) (f hi) (f x) :=
  ⟨hlo, hhi, hf h.lo_le, hf h.le_hi⟩

theorem add (h : Between lo hi x) (h' : Between lo' hi' y) (hlo : (lo + lo').isFinite = true)
    (hhi : (hi + hi').isFinite = true) : Between (lo + lo') (hi + hi') (x + y) where
  finite_lo := hlo
  finite_hi := hhi
  lo_le := (rounds_add h.finite_lo h'.finite_lo).le_of_le (rounds_add h.isFinite h'.isFinite)
    (add_le_add (le_iff.1 h.lo_le).2.2 (le_iff.1 h'.lo_le).2.2)
  le_hi := (rounds_add h.isFinite h'.isFinite).le_of_le (rounds_add h.finite_hi h'.finite_hi)
    (add_le_add (le_iff.1 h.le_hi).2.2 (le_iff.1 h'.le_hi).2.2)

/-- A wider range has more floats. -/
theorem widen (h : Between lo hi x) (hfinite : lo'.isFinite = true) (hfinite' : hi'.isFinite = true)
    (hlo : lo' ≤ lo) (hhi : hi ≤ hi') : Between lo' hi' x := by
  obtain ⟨hnan, -, hlow⟩ := le_iff.1 hlo
  obtain ⟨-, hnan', hhigh⟩ := le_iff.1 hhi
  obtain ⟨-, hx, hlox⟩ := le_iff.1 h.lo_le
  obtain ⟨-, -, hxhi⟩ := le_iff.1 h.le_hi
  exact ⟨hfinite, hfinite', le_iff.2 ⟨hnan, hx, hlow.trans hlox⟩,
    le_iff.2 ⟨hx, hnan', hxhi.trans hhigh⟩⟩

end Between

theorem toRat_pos (hfinite : x.isFinite = true) (hless : (zero false).less x = true) :
    0 < x.toRat := by
  have hlt := (less_iff isNaN_zero (isNaN_of_isFinite hfinite)).1 hless
  rwa [toRat_zero] at hlt

theorem toRat_ofNat_one : (ofNat 1 : Single).toRat = 1 := by
  have hvalue : (ofNat 1 : Single).value = .finite false (2 ^ 23) (-23) := by decide +kernel
  rw [toRat_of_value hvalue, withSign_false]
  norm_num

end Binary

open Binary (Between ofPlaces zero)

/-! ## Samples -/

/-- The range of the samples of eight bits. -/
def IsPixel (x : Single) : Prop := Between (Binary.ofNat 0) (Binary.ofNat 255) x

theorem isPixel_ofNat (v : Fin 256) : IsPixel (Binary.ofNat v.val) where
  finite_lo := by decide +kernel
  finite_hi := by decide +kernel
  lo_le := Binary.ofInt_le_ofInt (by omega)
  le_hi := Binary.ofInt_le_ofInt (by omega)

namespace Raster

/-- The grey of red, green and blue. -/
def grayOfColor (red green blue : Single) : Single :=
  zero true + red * grayWeights.get ⟨0, by decide⟩ + green * grayWeights.get ⟨1, by decide⟩ +
    blue * grayWeights.get ⟨2, by decide⟩

theorem grayOf_eq {width height : ℕ} (rgb : Raster (Fin 256) width height 3) (y : Fin height)
    (x : Fin width) : rgb.grayOf y x =
      grayOfColor (Binary.ofNat (rgb.get y x 0).val) (Binary.ofNat (rgb.get y x 1).val)
        (Binary.ofNat (rgb.get y x 2).val) :=
  rfl

theorem keepsOrder_weight (k : Fin grayWeights.length) :
    Binary.KeepsOrder (· * grayWeights.get k) := by
  have hweights : ∀ k, (grayWeights.get k).isFinite = true ∧
      (zero false).less (grayWeights.get k) = true := by decide +kernel
  obtain ⟨hfinite, hless⟩ := hweights k
  intro x y h
  exact Binary.keepsOrder_mul hfinite (Binary.toRat_pos hfinite hless) h

theorem between_weighted {sample : Single} (h : IsPixel sample) (k : Fin grayWeights.length) :
    Between (Binary.ofNat 0 * grayWeights.get k) (Binary.ofNat 255 * grayWeights.get k)
      (sample * grayWeights.get k) := by
  have hends : ∀ k, (Binary.ofNat 0 * grayWeights.get k).isFinite = true ∧
      (Binary.ofNat 255 * grayWeights.get k).isFinite = true := by decide +kernel
  obtain ⟨hlo, hhi⟩ := hends k
  exact Between.map (keepsOrder_weight k) h hlo hhi

/-- The grey of samples is in their range: the weights leave it a little below the brightest one. -/
theorem isPixel_grayOfColor {red green blue : Single} (hred : IsPixel red) (hgreen : IsPixel green)
    (hblue : IsPixel blue) : IsPixel (grayOfColor red green blue) := by
  have hstart : Between (zero true) (zero true) (zero true : Single) :=
    ⟨rfl, rfl, Binary.le_iff.2 ⟨rfl, rfl, le_refl _⟩, Binary.le_iff.2 ⟨rfl, rfl, le_refl _⟩⟩
  have hone := hstart.add (between_weighted hred ⟨0, by decide⟩) (by decide +kernel)
    (by decide +kernel)
  have htwo := hone.add (between_weighted hgreen ⟨1, by decide⟩) (by decide +kernel)
    (by decide +kernel)
  have hsum := htwo.add (between_weighted hblue ⟨2, by decide⟩) (by decide +kernel)
    (by decide +kernel)
  have hblack : Binary.ofNat 0 ≤ grayOfColor (Binary.ofNat 0) (Binary.ofNat 0) (Binary.ofNat 0) :=
    Or.inr (by decide +kernel)
  have hwhite : grayOfColor (Binary.ofNat 255) (Binary.ofNat 255) (Binary.ofNat 255) ≤
      Binary.ofNat 255 := Or.inl (by decide +kernel)
  exact Between.widen hsum (by decide +kernel) (by decide +kernel) hblack hwhite

theorem isPixel_grayOf {width height : ℕ} (rgb : Raster (Fin 256) width height 3)
    (y : Fin height) (x : Fin width) : IsPixel (rgb.grayOf y x) := by
  rw [grayOf_eq]
  exact isPixel_grayOfColor (isPixel_ofNat _) (isPixel_ofNat _) (isPixel_ofNat _)

end Raster

/-! ## Normalizing -/

namespace Normalization

variable {mean deviation sample : Single}

/-- Statistics by which samples can be centred and scaled. -/
def IsStatistic (mean deviation : Single) : Prop :=
  mean.isFinite = true ∧ deviation.isFinite = true ∧ (zero false).less deviation = true

instance (mean deviation : Single) : Decidable (IsStatistic mean deviation) :=
  inferInstanceAs (Decidable (_ ∧ _))

theorem isStatistic_color (k : Fin 3) : IsStatistic (means.get k) (deviations.get k) := by
  match k with
  | 0 => decide +kernel
  | 1 => decide +kernel
  | 2 => decide +kernel

theorem isStatistic_gray : IsStatistic (meanOfThree means) (meanOfThree deviations) := by
  decide +kernel

theorem keepsOrder_sub {z : Single} (hfinite : z.isFinite = true) :
    Binary.KeepsOrder (· - z) :=
  Binary.keepsOrder_add (z := -z) hfinite

theorem keepsOrder_div {z : Single} (hfinite : z.isFinite = true)
    (hless : (zero false).less z = true) : Binary.KeepsOrder (· / z) :=
  Binary.keepsOrder_div hfinite (Binary.toRat_pos hfinite hless)

/-- A brighter sample has no lower value. -/
theorem keepsOrder_apply (n : Normalization) (h : IsStatistic mean deviation) :
    Binary.KeepsOrder (n.apply mean deviation) := by
  intro x y hle
  cases n with
  | unit => exact keepsOrder_div (by decide +kernel) (by decide +kernel) hle
  | symmetric =>
    apply keepsOrder_sub (by decide +kernel)
    exact keepsOrder_div (by decide +kernel) (by decide +kernel) hle
  | imagenet =>
    apply keepsOrder_div h.2.1 h.2.2
    apply keepsOrder_sub h.1
    exact keepsOrder_div (by decide +kernel) (by decide +kernel) hle

/-- A value is a number, and between zero and one or between minus one and one if it is brought
there. -/
structure InRange (n : Normalization) (x : Single) : Prop where
  isFinite : x.isFinite = true
  unit : n = .unit → 0 ≤ x.toRat ∧ x.toRat ≤ 1
  symmetric : n = .symmetric → -1 ≤ x.toRat ∧ x.toRat ≤ 1

/-- Values of samples are in the range that their normalization names. -/
theorem inRange_apply (n : Normalization) (hstatistic : IsStatistic mean deviation)
    (hblack : (n.apply mean deviation (Binary.ofNat 0)).isFinite = true)
    (hwhite : (n.apply mean deviation (Binary.ofNat 255)).isFinite = true) (h : IsPixel sample) :
    n.InRange (n.apply mean deviation sample) := by
  have hbetween := Between.map (n.keepsOrder_apply hstatistic) h hblack hwhite
  obtain ⟨-, -, hlow⟩ := Binary.le_iff.1 hbetween.lo_le
  obtain ⟨-, -, hhigh⟩ := Binary.le_iff.1 hbetween.le_hi
  refine ⟨hbetween.isFinite, ?_, ?_⟩
  · rintro rfl
    have hzero : unit.apply mean deviation (Binary.ofNat 0) = zero false := by
      show (Binary.ofNat 0 / Binary.ofNat 255 : Single) = zero false
      decide +kernel
    have hone : unit.apply mean deviation (Binary.ofNat 255) = Binary.ofNat 1 := by
      show (Binary.ofNat 255 / Binary.ofNat 255 : Single) = Binary.ofNat 1
      decide +kernel
    rw [hzero, Binary.toRat_zero] at hlow
    rw [hone, Binary.toRat_ofNat_one] at hhigh
    exact ⟨hlow, hhigh⟩
  · rintro rfl
    have hminus : symmetric.apply mean deviation (Binary.ofNat 0) = -Binary.ofNat 1 := by
      show (Binary.ofNat 0 / ofPlaces 1275 1 - Binary.ofNat 1 : Single) = -Binary.ofNat 1
      decide +kernel
    have hone : symmetric.apply mean deviation (Binary.ofNat 255) = Binary.ofNat 1 := by
      show (Binary.ofNat 255 / ofPlaces 1275 1 - Binary.ofNat 1 : Single) = Binary.ofNat 1
      decide +kernel
    rw [hminus, Binary.toRat_neg, Binary.toRat_ofNat_one] at hlow
    rw [hone, Binary.toRat_ofNat_one] at hhigh
    exact ⟨hlow, hhigh⟩

theorem inRange_color (n : Normalization) (k : Fin 3) (h : IsPixel sample) :
    n.InRange (n.color k sample) := by
  have hends : ∀ x ∈ [Binary.ofNat 0, Binary.ofNat 255], (n.color k x).isFinite = true := by
    match n, k with
    | unit, 0 | unit, 1 | unit, 2 | symmetric, 0 | symmetric, 1 | symmetric, 2 | imagenet, 0
    | imagenet, 1 | imagenet, 2 => decide +kernel
  exact n.inRange_apply (isStatistic_color k) (hends _ (List.mem_cons_self ..))
    (hends _ (List.mem_cons_of_mem _ (List.mem_cons_self ..))) h

theorem inRange_gray (n : Normalization) (h : IsPixel sample) : n.InRange (n.gray sample) := by
  have hends : ∀ x ∈ [Binary.ofNat 0, Binary.ofNat 255], (n.gray x).isFinite = true := by
    cases n <;> decide +kernel
  exact n.inRange_apply isStatistic_gray (hends _ (List.mem_cons_self ..))
    (hends _ (List.mem_cons_of_mem _ (List.mem_cons_self ..))) h

theorem inRange_ofChannel (n : Normalization) (channels k : ℕ) (h : IsPixel sample) :
    n.InRange (n.ofChannel channels k sample) := by
  unfold ofChannel
  split
  · exact n.inRange_color _ h
  · exact n.inRange_gray h

end Normalization

/-! ## Pictures -/

/-- The samples of a picture are in their range before they are normalized. -/
theorem Raster.isPixel_of_mem_buffer {width height channels : ℕ}
    {rgb : Raster (Fin 256) width height 3} {sample : Single} (h : sample ∈ rgb.buffer channels) :
    IsPixel sample := by
  unfold buffer at h
  split at h
  · obtain ⟨v, -, rfl⟩ := Array.mem_map.1 h
    exact isPixel_ofNat v
  · obtain ⟨i, rfl⟩ := Array.mem_ofFn.1 h
    exact rgb.isPixel_grayOf _ _

/-- Inputs of a geometry are made that hold a value of the normalization for each place. They are
made at least where 32 bit words measure the geometry. -/
structure Normalization.KeepsRange (n : Normalization) (g : Geometry)
    (input : Except Stop Tensor) : Prop where
  isOk : g.height < 0x100000000 → g.width < 0x100000000 → ∃ t, input = .ok t
  inRange : ∀ t, input = .ok t → t.shape = g.shape ∧ ∃ xs, t.floats? = some xs ∧
    xs.length = g.height * g.width * g.channels ∧ ∀ x ∈ xs, n.InRange x

theorem Picture.keepsRange_preprocess (p : Picture) (n : Normalization) {g : Geometry}
    (hchannels : g.channels = 1 ∨ g.channels = 3) : n.KeepsRange g (p.preprocess g n) where
  isOk hheight hwidth := by
    obtain ⟨t, ht, -⟩ := p.exists_preprocess n hchannels hheight hwidth
    exact ⟨t, ht⟩
  inRange t ht := by
    obtain ⟨hshape, xs, hxs, hread⟩ := fillInput_eq_ok (fillInput_of_preprocess ht)
    have hlength := Tensor.length_of_floats? hxs
    rw [hshape, Geometry.product_shape] at hlength
    refine ⟨hshape, xs, hxs, hlength, fun x hx => ?_⟩
    have hmem : (.ok x : Except Panic Single) ∈ xs.map .ok := List.mem_map_of_mem hx
    rw [← hread] at hmem
    obtain ⟨place, -, hplace⟩ := List.mem_map.1 hmem
    obtain ⟨sample, hsample, rfl⟩ := Geometry.read_eq_ok_iff.1 hplace
    exact n.inRange_ofChannel _ _ (Raster.isPixel_of_mem_buffer (Array.mem_of_getElem? hsample))

/-- What an image becomes for an input of one or three channels, of any size and in either layout,
are numbers in the range that the normalization names, however far the image was resized. This is so
for whatever is seen in eight bits. -/
theorem preprocess_range (n : Normalization) {g : Geometry}
    (hchannels : g.channels = 1 ∨ g.channels = 3) :
    (∀ i : Image, n.KeepsRange g (preprocess i g n)) ∧
      ∀ p : Picture, n.KeepsRange g (p.preprocess g n) :=
  ⟨fun i => Picture.keepsRange_preprocess i.resizedRgb n hchannels,
    fun p => p.keepsRange_preprocess n hchannels⟩

/-- White beside black. -/
def stripe : Image where
  color := .luma
  depth := .eight
  width := 2
  height := 1
  raster := ⟨#[⟨255, by decide⟩, ⟨0, by decide⟩], rfl⟩

/-- The curve of the resampling runs above white before it falls, and the input does not. -/
theorem preprocess_range_stripe :
    (Binary.ofNat 255).less (Resample.blend (Resample.taps 2 4 ⟨0, by decide⟩) fun i =>
      Binary.ofNat (stripe.raster.get ⟨0, by decide⟩ i ⟨0, by decide⟩).val) = true ∧
    ∃ t xs, preprocess stripe ⟨.nchw, 1, 4, 1⟩ .symmetric = .ok t ∧ t.floats? = some xs ∧
      xs.length = 4 ∧ ∀ x ∈ xs, -1 ≤ x.toRat ∧ x.toRat ≤ 1 := by
  have hovershoot : (Binary.ofNat 255).less (Resample.blend (Resample.taps 2 4 ⟨0, by decide⟩)
      fun i => Binary.ofNat (stripe.raster.get ⟨0, by decide⟩ i ⟨0, by decide⟩).val) = true := by
    decide +kernel
  refine ⟨hovershoot, ?_⟩
  obtain ⟨himages, -⟩ := preprocess_range .symmetric (g := ⟨.nchw, 1, 4, 1⟩) (Or.inl rfl)
  obtain ⟨hok, hrange⟩ := himages stripe
  obtain ⟨t, ht⟩ := hok (by decide) (by decide)
  obtain ⟨-, xs, hxs, hlength, hall⟩ := hrange t ht
  exact ⟨t, xs, ht, hxs, hlength, fun x hx => (hall x hx).symmetric rfl⟩

end QuantClassifier
