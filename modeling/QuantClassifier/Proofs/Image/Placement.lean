import Mathlib.Tactic.Ring
import QuantClassifier.Image.Preprocess

/-!
# Where the pixels are

The floats of a tensor stand in row-major order: the place of an index is found by a mixed radix
count of its axes (`Shape.offset`). An input is filled in this order, so that each of its floats is
what is read for the place that the index names (`floatAt?_fillInput`). The buffer of a picture has
a cell for every place of an input of its size (`Raster.getElem?_buffer`); so an image becomes a
tensor of the shape of its geometry, whatever the size of the image, and each float of it is the
normalized value of a pixel and a channel (`Picture.exists_preprocess`). Only an axis that a 32 bit
word does not measure is too long for that, since the picture is cut there
(`Picture.preprocess_of_long`).
-/

namespace QuantClassifier

/-! ## Row-major order -/

namespace Shape

/-- An index along every axis, each below the length of its axis. -/
def HasIndex : Shape → List Nat → Prop
  | [], [] => True
  | n :: shape, i :: index => i < n ∧ HasIndex shape index
  | _, _ => False

/-- The place of an index in row-major order. -/
def offset : Shape → List Nat → Nat
  | _ :: shape, i :: index => i * product shape + offset shape index
  | _, _ => 0

/-- A line and a place in it are a place of the grid of the lines. -/
theorem mul_add_lt {n m i j : Nat} (hi : i < n) (hj : j < m) : i * m + j < n * m := by
  calc i * m + j < i * m + m := by omega
    _ = (i + 1) * m := (Nat.succ_mul i m).symm
    _ ≤ n * m := Nat.mul_le_mul_right m hi

/-- The place of an index is one of the places of the shape. -/
theorem offset_lt {shape : Shape} {index : List Nat} (h : shape.HasIndex index) :
    shape.offset index < shape.product := by
  induction shape generalizing index with
  | nil => exact Nat.zero_lt_one
  | cons n shape ih =>
    cases index with
    | nil => exact h.elim
    | cons i index => exact mul_add_lt h.1 (ih h.2)

end Shape

/-- The float of a tensor at an index. -/
def Tensor.floatAt? (t : Tensor) (index : List Nat) : Option Single :=
  t.floats?.bind (·[t.shape.offset index]?)

/-- The index of a sample in an input of a layout. -/
def Layout.index (l : Layout) (y x k : Nat) : List Nat :=
  match l with
  | .nhwc => [0, y, x, k]
  | .nchw => [0, k, y, x]

namespace Geometry

variable {g : Geometry} {shape : Shape}

/-- A shape that is read as an image input is the shape of that input, of one or three channels. -/
theorem ofShape_eq_ok (h : ofShape shape = .ok g) :
    g.shape = shape ∧ (g.channels = 1 ∨ g.channels = 3) := by
  unfold ofShape at h
  split at h
  next a b c =>
    split at h
    next hc =>
      cases h
      exact ⟨rfl, by simpa [isChannels] using hc⟩
    next =>
      split at h
      next ha =>
        cases h
        exact ⟨rfl, by simpa [isChannels] using ha⟩
      next => cases h
  next => cases h

end Geometry

/-! ## The places of an input -/

section Places

variable {g : Geometry} {n : Normalization} {buffer : Array Single} {t : Tensor}

/-- A list of blocks of one length is read block by block. -/
theorem getElem?_flatMap {α β : Type} {f : α → List β} {n j : Nat} (h : ∀ x, (f x).length = n)
    (hj : j < n) (xs : List α) (i : Nat) :
    (xs.flatMap f)[i * n + j]? = xs[i]?.bind fun x => (f x)[j]? := by
  induction xs generalizing i with
  | nil => simp
  | cons x xs ih =>
    rw [List.flatMap_cons]
    cases i with
    | zero =>
      rw [Nat.zero_mul, Nat.zero_add, List.getElem?_append_left (by rw [h]; exact hj)]
      rfl
    | succ i =>
      have hsplit : (i + 1) * n + j = (f x).length + (i * n + j) := by
        rw [h, Nat.succ_mul]
        omega
      rw [hsplit, List.getElem?_append_right (Nat.le_add_right _ _), Nat.add_sub_cancel_left, ih]
      rfl

theorem getElem?_grid {α : Type} {a b c i j k : Nat} (f : Nat → Nat → Nat → α) (hi : i < a)
    (hj : j < b) (hk : k < c) : (grid a b c f)[i * (b * c) + (j * c + k)]? = some (f i j k) := by
  rw [grid, getElem?_flatMap (fun i => length_plane b c (f i)) (Shape.mul_add_lt hj hk),
    List.getElem?_range hi, Option.bind_some, getElem?_flatMap (by simp) hk,
    List.getElem?_range hj, Option.bind_some, List.getElem?_map, List.getElem?_range hk]
  rfl

theorem mem_grid {α : Type} {a b c : Nat} {f : Nat → Nat → Nat → α} {v : α} :
    v ∈ grid a b c f ↔ ∃ i j k, i < a ∧ j < b ∧ k < c ∧ f i j k = v := by
  simp only [grid, List.mem_flatMap, List.mem_map, List.mem_range]
  constructor
  · rintro ⟨i, hi, j, hj, k, hk, rfl⟩
    exact ⟨i, j, k, hi, hj, hk, rfl⟩
  · rintro ⟨i, j, k, hi, hj, hk, rfl⟩
    exact ⟨i, hi, j, hj, k, hk, rfl⟩

namespace Geometry

theorem mem_places {p : Place} :
    p ∈ g.places ↔ p.y < g.height ∧ p.x < g.width ∧ p.channel < g.channels := by
  obtain ⟨layout, height, width, channels⟩ := g
  cases layout with
  | nhwc =>
    constructor
    · intro hp
      obtain ⟨y, x, k, hy, hx, hk, rfl⟩ := mem_grid.1 hp
      exact ⟨hy, hx, hk⟩
    · rintro ⟨hy, hx, hk⟩
      exact mem_grid.2 ⟨p.y, p.x, p.channel, hy, hx, hk, rfl⟩
  | nchw =>
    constructor
    · intro hp
      obtain ⟨k, y, x, hk, hy, hx, rfl⟩ := mem_grid.1 hp
      exact ⟨hy, hx, hk⟩
    · rintro ⟨hy, hx, hk⟩
      exact mem_grid.2 ⟨p.channel, p.y, p.x, hk, hy, hx, rfl⟩

theorem mk_mem_places (y : Fin g.height) (x : Fin g.width) (k : Fin g.channels) :
    (⟨y, x, k⟩ : Place) ∈ g.places :=
  mem_places.2 ⟨y.2, x.2, k.2⟩

/-- The places are listed in row-major order of the shape. -/
theorem getElem?_places {p : Place} (hp : p ∈ g.places) :
    g.places[g.shape.offset (g.layout.index p.y p.x p.channel)]? = some p := by
  obtain ⟨hy, hx, hk⟩ := mem_places.1 hp
  obtain ⟨layout, height, width, channels⟩ := g
  cases layout with
  | nhwc =>
    have hplace : Shape.offset [1, height, width, channels] [0, p.y, p.x, p.channel] =
        p.y * (width * channels) + (p.x * channels + p.channel) := by
      simp [Shape.offset]
    refine Eq.trans (congrArg _ hplace) ?_
    exact getElem?_grid _ hy hx hk
  | nchw =>
    have hplace : Shape.offset [1, channels, height, width] [0, p.channel, p.y, p.x] =
        p.channel * (height * width) + (p.y * width + p.x) := by
      simp [Shape.offset]
    refine Eq.trans (congrArg _ hplace) ?_
    exact getElem?_grid _ hk hy hx

theorem read_eq_ok_iff {p : Place} {v : Single} : g.read n buffer p = .ok v ↔
    ∃ sample, buffer[(p.y * g.width + p.x) * g.channels + p.channel]? = some sample ∧
      n.ofChannel g.channels p.channel sample = v := by
  unfold read
  split <;> simp_all

/-- Reading behind the end of the buffer is all that can go wrong. -/
theorem read_eq_error {p : Place} {e : Panic} (h : g.read n buffer p = .error e) :
    e = .outOfBounds := by
  unfold read at h
  split at h <;> cases h
  rfl

end Geometry

/-- What fills an input are the values of its places, in their order. -/
theorem fillInput_eq_ok (h : fillInput buffer g n = .ok t) : t.shape = g.shape ∧
    ∃ xs, t.floats? = some xs ∧ g.places.map (g.read n buffer) = xs.map .ok := by
  unfold fillInput at h
  split at h
  next values hvalues =>
    cases h
    exact ⟨rfl, values, rfl, mapM_eq_ok_iff.1 hvalues⟩
  next => cases h

theorem exists_fillInput_iff : (∃ t, fillInput buffer g n = .ok t) ↔
    ∀ p ∈ g.places, ∃ v, g.read n buffer p = .ok v := by
  rw [← mapM_isOk_iff]
  unfold fillInput
  split <;> simp_all

theorem fillInput_eq_error {e : Panic} (h : fillInput buffer g n = .error e) : e = .outOfBounds := by
  unfold fillInput at h
  split at h
  next => cases h
  next herror =>
    cases h
    obtain ⟨-, p, -, -, -, hp⟩ := mapM_eq_error_iff.1 herror
    exact Geometry.read_eq_error hp

/-- The float at the index of a place is what is read for the place. -/
theorem floatAt?_fillInput (h : fillInput buffer g n = .ok t) {p : Place} (hp : p ∈ g.places)
    {v : Single} (hv : g.read n buffer p = .ok v) :
    t.floatAt? (g.layout.index p.y p.x p.channel) = some v := by
  obtain ⟨hshape, xs, hxs, hmap⟩ := fillInput_eq_ok h
  have hread := congrArg (·[g.shape.offset (g.layout.index p.y p.x p.channel)]?) hmap
  simp only [List.getElem?_map, Geometry.getElem?_places hp, Option.map_some, hv] at hread
  obtain ⟨v', hv', heq⟩ := Option.map_eq_some_iff.1 hread.symm
  cases heq
  rw [Tensor.floatAt?, hxs, hshape]
  exact hv'

end Places

/-! ## The buffer of a picture -/

namespace Raster

theorem getElem?_samples {α : Type} {width height channels : Nat}
    (r : Raster α width height channels) (y : Fin height) (x : Fin width) (k : Fin channels) :
    r.samples[(y * width + x) * channels + k]? = some (r.get y x k) :=
  Array.getElem?_eq_getElem _

variable {width height channels : Nat}

/-- The sample of a channel of a pixel before it is normalized. -/
def sampleAt (rgb : Raster (Fin 256) width height 3) (y : Fin height) (x : Fin width)
    (k : Fin channels) : Single :=
  if h : channels = 3 then Binary.ofNat (rgb.get y x (k.cast h)).val else rgb.grayOf y x

/-- What an input of some channels is given for a pixel: the normalized colour of the channel, or
the normalized grey of the pixel if there is one channel. -/
def inputValue (rgb : Raster (Fin 256) width height 3) (n : Normalization) (y : Fin height)
    (x : Fin width) (k : Fin channels) : Single :=
  if h : channels = 3 then n.color (k.cast h) (Binary.ofNat (rgb.get y x (k.cast h)).val)
  else n.gray (rgb.grayOf y x)

variable (rgb : Raster (Fin 256) width height 3)

theorem size_buffer (hc : channels = 1 ∨ channels = 3) :
    (rgb.buffer channels).size = height * width * channels := by
  rcases hc with rfl | rfl
  · exact size_eq _
  · rw [buffer, if_pos rfl, Array.size_map, rgb.size_eq]

/-- The cell of a place holds its sample. -/
theorem getElem?_buffer (hc : channels = 1 ∨ channels = 3) (y : Fin height) (x : Fin width)
    (k : Fin channels) :
    (rgb.buffer channels)[(y * width + x) * channels + k]? = some (rgb.sampleAt y x k) := by
  rcases hc with rfl | rfl
  · rw [buffer, if_neg (by decide), getElem?_samples, get_ofFn]
    rfl
  · rw [buffer, if_pos rfl, Array.getElem?_map, getElem?_samples]
    rfl

theorem inputValue_eq (n : Normalization) (y : Fin height) (x : Fin width) (k : Fin channels) :
    rgb.inputValue n y x k = n.ofChannel channels k (rgb.sampleAt y x k) := by
  unfold inputValue Normalization.ofChannel sampleAt
  split
  · next h =>
    have hk : k.cast h = Fin.ofNat 3 k := by
      apply Fin.ext
      exact (Nat.mod_eq_of_lt (h ▸ k.2)).symm
    rw [hk]
  · rfl

end Raster

/-! ## Pictures as inputs -/

section Pictures

variable {p : Picture} {g : Geometry} {n : Normalization} {t : Tensor}

/-- The buffer of a picture of the size of an input has what is read for each place. -/
theorem Geometry.read_buffer (rgb : Raster (Fin 256) g.width g.height 3) (n : Normalization)
    (hg : g.channels = 1 ∨ g.channels = 3) (y : Fin g.height) (x : Fin g.width)
    (k : Fin g.channels) :
    g.read n (rgb.buffer g.channels) ⟨y, x, k⟩ = .ok (rgb.inputValue n y x k) :=
  read_eq_ok_iff.2 ⟨_, rgb.getElem?_buffer hg y x k, (rgb.inputValue_eq n y x k).symm⟩

namespace Picture

/-- What a picture becomes is read from the buffer of the picture in its cut size. -/
theorem fillInput_of_preprocess (h : p.preprocess g n = .ok t) :
    fillInput ((p (cutLength g.width) (cutLength g.height)).buffer g.channels) g n = .ok t := by
  unfold preprocess at h
  split at h
  · exact Stop.liftM_panic_eq_ok_iff.1 h
  · cases h

/-- A picture that becomes an input becomes a float tensor of the shape of the geometry. -/
theorem preprocess_eq_ok (h : p.preprocess g n = .ok t) : t.dtype = .f32 ∧ t.shape = g.shape := by
  obtain ⟨hshape, xs, hxs, -⟩ := fillInput_eq_ok (fillInput_of_preprocess h)
  refine ⟨?_, hshape⟩
  obtain ⟨dtype, shape, data, hlength⟩ := t
  cases dtype <;> first | rfl | cases hxs

/-- A picture of a size that 32 bit words measure becomes a float tensor of the shape of the
geometry, with each pixel in its place. -/
theorem exists_preprocess (p : Picture) (n : Normalization)
    (hg : g.channels = 1 ∨ g.channels = 3) (hheight : g.height < 0x100000000)
    (hwidth : g.width < 0x100000000) :
    ∃ t, p.preprocess g n = .ok t ∧
      fillInput ((p g.width g.height).buffer g.channels) g n = .ok t ∧
      ∀ (y : Fin g.height) (x : Fin g.width) (k : Fin g.channels),
        t.floatAt? (g.layout.index y x k) = some ((p g.width g.height).inputValue n y x k) := by
  have hread := Geometry.read_buffer (p g.width g.height) n hg
  obtain ⟨t, ht⟩ : ∃ t, fillInput ((p g.width g.height).buffer g.channels) g n = .ok t := by
    refine exists_fillInput_iff.2 ?_
    intro p hp
    obtain ⟨hy, hx, hk⟩ := Geometry.mem_places.1 hp
    exact ⟨_, hread ⟨p.y, hy⟩ ⟨p.x, hx⟩ ⟨p.channel, hk⟩⟩
  refine ⟨t, ?_, ht, fun y x k => ?_⟩
  · unfold preprocess
    rw [if_pos hg, cutLength_of_lt hwidth, cutLength_of_lt hheight]
    exact Stop.liftM_panic_eq_ok_iff.2 ht
  · exact floatAt?_fillInput ht (Geometry.mk_mem_places y x k) (hread y x k)

/-- The last cell of a buffer that lists a picture line by line. -/
theorem last_cell {height width channels : Nat} (hheight : height ≠ 0) (hwidth : width ≠ 0)
    (hchannels : channels ≠ 0) :
    ((height - 1) * width + (width - 1)) * channels + (channels - 1) + 1 =
      height * width * channels := by
  obtain ⟨h, rfl⟩ := Nat.exists_eq_succ_of_ne_zero hheight
  obtain ⟨w, rfl⟩ := Nat.exists_eq_succ_of_ne_zero hwidth
  obtain ⟨c, rfl⟩ := Nat.exists_eq_succ_of_ne_zero hchannels
  simp only [Nat.succ_eq_add_one, Nat.add_sub_cancel]
  ring

/-- A picture that is cut along an axis has no cell for the last place of an input. -/
theorem preprocess_of_long (p : Picture) (n : Normalization)
    (hg : g.channels = 1 ∨ g.channels = 3) (hheight : g.height ≠ 0) (hwidth : g.width ≠ 0)
    (hlong : 0x100000000 ≤ g.height ∨ 0x100000000 ≤ g.width) :
    p.preprocess g n = .error (.panic .outOfBounds) := by
  have hchannels : 0 < g.channels := by omega
  have hcut : cutLength g.height * cutLength g.width < g.height * g.width := by
    have hle : ∀ m, cutLength m ≤ m := fun m => Nat.mod_le m _
    have hlt : ∀ m, cutLength m < 0x100000000 := fun m => Nat.mod_lt m (by decide)
    rcases hlong with hlong | hlong
    · calc cutLength g.height * cutLength g.width
          ≤ cutLength g.height * g.width := Nat.mul_le_mul_left _ (hle _)
        _ < g.height * g.width :=
          Nat.mul_lt_mul_of_pos_right (Nat.lt_of_lt_of_le (hlt _) hlong) (Nat.pos_of_ne_zero hwidth)
    · calc cutLength g.height * cutLength g.width
          ≤ g.height * cutLength g.width := Nat.mul_le_mul_right _ (hle _)
        _ < g.height * g.width :=
          Nat.mul_lt_mul_of_pos_left (Nat.lt_of_lt_of_le (hlt _) hlong) (Nat.pos_of_ne_zero hheight)
  have hlast : (⟨g.height - 1, g.width - 1, g.channels - 1⟩ : Place) ∈ g.places :=
    Geometry.mem_places.2 ⟨Nat.sub_one_lt hheight, Nat.sub_one_lt hwidth,
      Nat.sub_one_lt hchannels.ne'⟩
  unfold preprocess
  rw [if_pos hg]
  cases hfill : fillInput ((p (cutLength g.width) (cutLength g.height)).buffer g.channels) g n with
  | error e =>
    rw [fillInput_eq_error hfill]
    rfl
  | ok t =>
    obtain ⟨v, hv⟩ := exists_fillInput_iff.1 ⟨t, hfill⟩ _ hlast
    obtain ⟨sample, hsample, -⟩ := Geometry.read_eq_ok_iff.1 hv
    obtain ⟨hlt, -⟩ := Array.getElem?_eq_some_iff.1 hsample
    rw [Raster.size_buffer _ hg] at hlt
    dsimp only at hlt
    have hcell := last_cell hheight hwidth hchannels.ne'
    have hless := Nat.mul_lt_mul_of_pos_right hcut hchannels
    omega

end Picture

end Pictures

end QuantClassifier
