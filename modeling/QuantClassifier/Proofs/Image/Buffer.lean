import Mathlib.Logic.Equiv.Fin.Basic
import Mathlib.Tactic.Ring
import QuantClassifier.Proofs.Image.Placement

/-!
# The buffer between an image and its tensor

Before they are normalized, the samples of an image of the size of an input lie in one buffer, line
by line: all colours of a pixel together, or one grey for each pixel. A place of the image has its
cell in the buffer, and every cell belongs to one place (`cell_bijective`). The buffer normalized in
its own order is the tensor whose channels come last (`floats?_fillInput_nhwc`), and the other
layout holds the same values at the same places (`preprocess_layouts`).
-/

namespace QuantClassifier

namespace Raster

variable {width height channels : Nat}

/-- The cell of a place in a buffer that lists a picture line by line. -/
def cell (p : Fin height × Fin width × Fin channels) : Fin (height * width * channels) :=
  ⟨(p.1 * width + p.2.1) * channels + p.2.2, offset_lt p.1.2 p.2.1.2 p.2.2.2⟩

/-- Every cell is that of one place. -/
theorem cell_bijective : Function.Bijective
    (cell : Fin height × Fin width × Fin channels → Fin (height * width * channels)) := by
  have hcell : (cell : Fin height × Fin width × Fin channels → _) =
      (Equiv.prodAssoc _ _ _).symm.trans
        ((finProdFinEquiv.prodCongr (Equiv.refl _)).trans finProdFinEquiv) := by
    funext p
    apply Fin.ext
    simp only [cell, Equiv.trans_apply, Equiv.prodAssoc_symm_apply, Equiv.prodCongr_apply, Prod.map,
      Equiv.refl_apply, finProdFinEquiv_apply_val]
    ring
  rw [hcell]
  exact Equiv.bijective _

theorem val_cell (y : Fin height) (x : Fin width) (k : Fin channels) :
    (cell (y, x, k) : Nat) = (y * width + x) * channels + k :=
  rfl

theorem val_cell_mod (y : Fin height) (x : Fin width) (k : Fin channels) :
    (cell (y, x, k) : Nat) % channels = k := by
  rw [val_cell, Nat.mul_add_mod_self_right, Nat.mod_eq_of_lt k.2]

end Raster

section Filling

variable {g : Geometry} {n : Normalization} {buffer : Array Single} {t : Tensor}

/-- Where the channels come last, the place of an index is its cell in the buffer. -/
theorem Geometry.offset_nhwc (hlayout : g.layout = .nhwc) (y x k : Nat) :
    g.shape.offset (g.layout.index y x k) = (y * g.width + x) * g.channels + k := by
  simp only [shape, hlayout, Layout.index, Shape.offset, Shape.product_cons, Shape.product_nil]
  ring

/-- Where the channels come last, the input is the buffer normalized in its own order. -/
theorem floats?_fillInput_nhwc (hlayout : g.layout = .nhwc)
    (hsize : buffer.size = g.height * g.width * g.channels) (h : fillInput buffer g n = .ok t) :
    t.floats? =
      some (buffer.toList.mapIdx fun i => n.ofChannel g.channels (i % g.channels)) := by
  obtain ⟨hshape, xs, hxs, -⟩ := fillInput_eq_ok h
  rw [hxs]
  refine congrArg some (List.ext_getElem? fun i => ?_)
  have hlist : buffer.toList[i]? = buffer[i]? := Array.getElem?_toList
  rw [List.getElem?_mapIdx, hlist]
  by_cases hi : i < g.height * g.width * g.channels
  · obtain ⟨⟨y, x, k⟩, hcell⟩ := Raster.cell_bijective.2 ⟨i, hi⟩
    have hval : (y * g.width + x) * g.channels + k = i := congrArg Fin.val hcell
    have hmod : i % g.channels = k := by rw [← hval, ← Raster.val_cell, Raster.val_cell_mod]
    obtain ⟨sample, hsample⟩ : ∃ sample, buffer[i]? = some sample :=
      ⟨_, Array.getElem?_eq_getElem (hsize.symm ▸ hi)⟩
    have hread := floatAt?_fillInput h (Geometry.mk_mem_places y x k)
      (Geometry.read_eq_ok_iff.2 ⟨sample, (congrArg (buffer[·]?) hval).trans hsample, rfl⟩)
    rw [Tensor.floatAt?, hxs, Option.bind_some, hshape, Geometry.offset_nhwc hlayout, hval] at hread
    rw [hread, hsample, hmod]
    rfl
  · have hlength := Tensor.length_of_floats? hxs
    rw [hshape, Geometry.product_shape] at hlength
    rw [List.getElem?_eq_none (by omega), Array.getElem?_eq_none (by omega)]
    rfl

end Filling

/-- An image as an input of one or three channels. The samples of the resized picture lie in a
buffer with as many cells as the input has places, and the cell of a place, which is the one that is
read for it, is within the buffer and that of no other place, so that each cell is read once. If the
channels come last, the tensor is the buffer normalized in its own order, and if they come first,
the same values are found with the channel as the first index of the three. Both are at each place
the normalized sample of the picture in that line, that column and that channel. Other numbers of
channels are refused. -/
theorem preprocess_layouts (i : Image) (n : Normalization) (height width channels : Nat) :
    (channels = 1 ∨ channels = 3 → height < 0x100000000 → width < 0x100000000 →
      let rgb := i.resizedRgb width height
      let buffer := (rgb.buffer channels).toList
      buffer.length = height * width * channels ∧
      Function.Bijective (Raster.cell :
        Fin height × Fin width × Fin channels → Fin (height * width * channels)) ∧
      ∃ nhwc nchw, preprocess i ⟨.nhwc, height, width, channels⟩ n = .ok nhwc ∧
        preprocess i ⟨.nchw, height, width, channels⟩ n = .ok nchw ∧
        nhwc.shape = [1, height, width, channels] ∧ nchw.shape = [1, channels, height, width] ∧
        nhwc.floats? = some (buffer.mapIdx fun c => n.ofChannel channels (c % channels)) ∧
        ∀ (y : Fin height) (x : Fin width) (k : Fin channels),
          buffer[(y * width + x) * channels + k]? = some (rgb.sampleAt y x k) ∧
          nhwc.floatAt? [0, y, x, k] = some (n.ofChannel channels k (rgb.sampleAt y x k)) ∧
          nchw.floatAt? [0, k, y, x] = nhwc.floatAt? [0, y, x, k]) ∧
    (channels ≠ 1 → channels ≠ 3 → ∀ layout, preprocess i ⟨layout, height, width, channels⟩ n =
      .error (.ofKind (.unsupportedFormat s!"images with {channels} channels"))) := by
  constructor
  · intro hc hheight hwidth rgb buffer
    obtain ⟨nhwc, hnhwc, hlast, hlastAt⟩ := Picture.exists_preprocess
      (g := ⟨.nhwc, height, width, channels⟩) i.resizedRgb n hc hheight hwidth
    obtain ⟨nchw, hnchw, hfirst, hfirstAt⟩ := Picture.exists_preprocess
      (g := ⟨.nchw, height, width, channels⟩) i.resizedRgb n hc hheight hwidth
    have hsize := rgb.size_buffer hc
    refine ⟨?_, Raster.cell_bijective, nhwc, nchw, hnhwc, hnchw, (Picture.preprocess_eq_ok hnhwc).2,
      (Picture.preprocess_eq_ok hnchw).2, floats?_fillInput_nhwc rfl hsize hlast, ?_⟩
    · rw [Array.length_toList, hsize]
    · intro y x k
      refine ⟨?_, ?_, ?_⟩
      · rw [Array.getElem?_toList]
        exact rgb.getElem?_buffer hc y x k
      · rw [← Raster.inputValue_eq]
        exact hlastAt y x k
      · exact (hfirstAt y x k).trans (hlastAt y x k).symm
  · intro hone hthree layout
    exact if_neg (not_or.2 ⟨hone, hthree⟩)

/-- Two pixels side by side. -/
def twoPixels : Image where
  color := .rgb
  depth := .eight
  width := 2
  height := 1
  raster := ⟨#[10, 20, 30, 40, 50, 60], rfl⟩

/-- The blue of the right pixel is the last float of either layout. -/
theorem preprocess_layouts_twoPixels :
    (∃ nhwc nchw, preprocess twoPixels ⟨.nhwc, 1, 2, 3⟩ .unit = .ok nhwc ∧
      preprocess twoPixels ⟨.nchw, 1, 2, 3⟩ .unit = .ok nchw ∧
      nhwc.floatAt? [0, 0, 1, 2] = some (Binary.ofNat 60 / Binary.ofNat 255) ∧
      nchw.floatAt? [0, 2, 0, 1] = some (Binary.ofNat 60 / Binary.ofNat 255)) ∧
    preprocess twoPixels ⟨.nhwc, 1, 2, 4⟩ .unit =
      .error (.ofKind (.unsupportedFormat "images with 4 channels")) := by
  constructor
  · obtain ⟨-, -, nhwc, nchw, hnhwc, hnchw, -, -, -, hplaces⟩ :=
      (preprocess_layouts twoPixels .unit 1 2 3).1 (.inr rfl) (by decide) (by decide)
    obtain ⟨-, hlast, hfirst⟩ := hplaces 0 1 2
    have hsample : (twoPixels.resizedRgb 2 1).get 0 1 2 = 60 := by decide +kernel
    have hvalue : Normalization.unit.ofChannel 3 2
        ((twoPixels.resizedRgb 2 1).sampleAt 0 1 (2 : Fin 3)) =
          Binary.ofNat 60 / Binary.ofNat 255 := by
      change Binary.ofNat ((twoPixels.resizedRgb 2 1).get 0 1 2).val / Binary.ofNat 255 = _
      rw [hsample]
      rfl
    exact ⟨nhwc, nchw, hnhwc, hnchw, hlast.trans (congrArg some hvalue),
      (hfirst.trans hlast).trans (congrArg some hvalue)⟩
  · exact (preprocess_layouts twoPixels .unit 1 2 4).2 (by decide) (by decide) .nhwc

end QuantClassifier
