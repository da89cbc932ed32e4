/-!
# Rasters

Samples on a grid of pixels, row by row and, within a pixel, channel by channel. The size is part of
the type, so that a sample is read at a place that exists.
-/

namespace QuantClassifier

/-- Samples of `channels` channels on a grid. -/
structure Raster (α : Type) (width height channels : Nat) where
  samples : Array α
  size_eq : samples.size = height * width * channels

namespace Raster

variable {α β : Type} {width height channels : Nat}

/-- Where the samples of a place are. -/
def offset (width channels y x k : Nat) : Nat := (y * width + x) * channels + k

theorem offset_lt {y x k : Nat} (hy : y < height) (hx : x < width) (hk : k < channels) :
    offset width channels y x k < height * width * channels := by
  have h₁ : y * width + x + 1 ≤ height * width := by
    calc y * width + x + 1 ≤ y * width + width := by omega
      _ = (y + 1) * width := (Nat.succ_mul y width).symm
      _ ≤ height * width := Nat.mul_le_mul_right _ hy
  calc (y * width + x) * channels + k < (y * width + x) * channels + channels := by omega
    _ = (y * width + x + 1) * channels := (Nat.succ_mul _ _).symm
    _ ≤ height * width * channels := Nat.mul_le_mul_right _ h₁

/-- The sample of a channel at row `y` and column `x`. -/
def get (r : Raster α width height channels) (y : Fin height) (x : Fin width) (k : Fin channels) :
    α :=
  have h : offset width channels y x k < r.samples.size := r.size_eq ▸ offset_lt y.2 x.2 k.2
  r.samples[offset width channels y x k]

/-- The row of a sample. -/
def row (i : Fin (height * width * channels)) : Fin height :=
  ⟨i / channels / width, by
    have h := i.2
    rw [Nat.div_div_eq_div_mul]
    apply Nat.div_lt_of_lt_mul
    rw [Nat.mul_comm channels, Nat.mul_comm _ height, ← Nat.mul_assoc]
    exact h⟩

/-- The column of a sample. -/
def column (i : Fin (height * width * channels)) : Fin width :=
  ⟨i / channels % width, Nat.mod_lt _ (Nat.pos_of_ne_zero (by
    rintro rfl
    have h := i.2
    simp at h))⟩

/-- The channel of a sample. -/
def channel (i : Fin (height * width * channels)) : Fin channels :=
  ⟨i % channels, Nat.mod_lt _ (Nat.pos_of_ne_zero (by
    rintro rfl
    have h := i.2
    simp at h))⟩

/-- The raster whose samples a function gives. -/
def ofFn (f : Fin height → Fin width → Fin channels → α) : Raster α width height channels :=
  ⟨Array.ofFn fun i => f (row i) (column i) (channel i), Array.size_ofFn⟩

/-- The raster with each sample replaced. -/
def map (f : α → β) (r : Raster α width height channels) : Raster β width height channels :=
  ⟨r.samples.map f, by rw [Array.size_map, r.size_eq]⟩

/-- The raster of some samples, if there are as many as places. -/
def ofArray? (width height channels : Nat) (samples : Array α) :
    Option (Raster α width height channels) :=
  if h : samples.size = height * width * channels then some ⟨samples, h⟩ else none

theorem get_ofFn (f : Fin height → Fin width → Fin channels → α) (y : Fin height) (x : Fin width)
    (k : Fin channels) : (ofFn f).get y x k = f y x k := by
  have hk := k.2
  have hx := x.2
  have h₁ : offset width channels y x k / channels = y * width + x := by
    rw [offset, Nat.mul_comm, Nat.mul_add_div (by omega), Nat.div_eq_of_lt hk, Nat.add_zero]
  have h₂ : offset width channels y x k % channels = k := by
    rw [offset, Nat.mul_comm, Nat.mul_add_mod, Nat.mod_eq_of_lt hk]
  have h₃ : ((y : Nat) * width + x) / width = y := by
    rw [Nat.mul_comm, Nat.mul_add_div (by omega), Nat.div_eq_of_lt hx, Nat.add_zero]
  have h₄ : ((y : Nat) * width + x) % width = x := by
    rw [Nat.mul_comm, Nat.mul_add_mod, Nat.mod_eq_of_lt hx]
  simp only [get, ofFn, Array.getElem_ofFn]
  congr 1 <;> apply Fin.ext <;> simp [row, column, channel, h₁, h₂, h₃, h₄]

end Raster

end QuantClassifier
