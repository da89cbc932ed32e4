import QuantClassifier.Program.Classify
import QuantClassifier.Proofs.Classifier.StoredInput
import QuantClassifier.Proofs.Image.Placement

/-!
# Images and features fit the input

Whatever a classifier is fed from an image or from a list of features is a float tensor of the shape
of its input, so it is stored without a complaint about its shape or its type. An image is taken
whenever the input is one for images, and features are taken exactly if there are as many as the
input has places (`frontEnds_fit`).
-/

namespace QuantClassifier

section Features

variable {features : List Single} {shape : Shape} {t : Tensor}

/-- Features are taken if they are as many as the shape has places and these can be counted. -/
theorem exists_featuresToTensor_iff : (∃ t, featuresToTensor features shape = .ok t) ↔
    ¬ shape.Overflows ∧ features.length = shape.product := by
  rw [← Shape.count_eq_ok_iff]
  unfold featuresToTensor
  split
  next n hn =>
    rw [hn.congr_left, Except.ok.injEq, eq_comm (a := n)]
    split <;> simp [*]
  next p hp => simp [hp]

/-- The tensor of some features has the shape that was asked for and holds them in their order. -/
theorem featuresToTensor_eq_ok (h : featuresToTensor features shape = .ok t) :
    t.dtype = .f32 ∧ t.shape = shape ∧ t.floats? = some features := by
  unfold featuresToTensor at h
  split at h
  · split at h
    · cases h
      exact ⟨rfl, rfl, rfl⟩
    · cases h
  · cases h

/-- Every index of a float tensor has a float. -/
theorem Tensor.exists_floatAt? {xs : List Single} {index : List Nat}
    (hxs : t.floats? = some xs) (hindex : t.shape.HasIndex index) :
    ∃ x, xs[t.shape.offset index]? = some x ∧ t.floatAt? index = some x := by
  have hlength := Tensor.length_of_floats? hxs
  have hlt : t.shape.offset index < xs.length := hlength ▸ Shape.offset_lt hindex
  refine ⟨xs[t.shape.offset index], List.getElem?_eq_getElem hlt, ?_⟩
  rw [Tensor.floatAt?, hxs]
  exact List.getElem?_eq_getElem hlt

end Features

variable {c : Classifier} {t : Tensor} {files : FileView} {n : Normalization}
  {source : CommandLine.InputSource}

/-- What the program feeds a classifier is a float tensor of the shape of its input. -/
theorem ClassifyProgram.input_eq_ok (h : input files c n source = .ok t) :
    t.shape = c.input.shape ∧ t.dtype = .f32 := by
  cases source with
  | image path =>
    obtain ⟨image, -, h⟩ := bind_eq_ok_iff.1 h
    obtain ⟨g, hg, h⟩ := bind_eq_ok_iff.1 h
    obtain ⟨hshape, -⟩ := Geometry.ofShape_eq_ok (Stop.liftM_failure_eq_ok_iff.1 hg)
    obtain ⟨hfloat, hsame⟩ := Picture.preprocess_eq_ok h
    exact ⟨hsame.trans hshape, hfloat⟩
  | features path =>
    obtain ⟨features, -, h⟩ := bind_eq_ok_iff.1 h
    obtain ⟨hfloat, hshape, -⟩ := featuresToTensor_eq_ok h
    exact ⟨hshape, hfloat⟩

namespace Classifier

/-- What a classifier is fed fits its input. If the input is one for images, of a size that 32 bit
words measure, every image becomes a float tensor of its shape, with each pixel where the layout of
the input has it. Features become a float tensor of its shape exactly if they are as many as the
product of the shape, and are read from it in row-major order; for this the input has to have
places, and not more than a word counts, as it has in every usable model
(`UsableModel.counted_of_ofModel`). All these tensors, and with them whatever the program feeds the
classifier from a file, are stored. -/
theorem frontEnds_fit (c : Classifier) :
    (∀ g, c.input.geometry = .ok g → g.height < 0x100000000 → g.width < 0x100000000 →
      ∀ (image : Image) (n : Normalization), ∃ t,
        preprocess image g n = .ok t ∧ t.dtype = .f32 ∧ t.shape = c.input.shape ∧
        (∀ (y : Fin g.height) (x : Fin g.width) (k : Fin g.channels),
          t.floatAt? (g.layout.index y x k) =
            some ((image.resizedRgb g.width g.height).inputValue n y x k)) ∧
        ∃ v, c.quantizeInput t = .ok v) ∧
      (c.input.shape.product < 0x10000000000000000 → 0 ∉ c.input.shape → ∀ features,
        (∃ t, featuresToTensor features c.input.shape = .ok t) ↔
          features.length = c.input.shape.product) ∧
      (∀ features t, featuresToTensor features c.input.shape = .ok t →
        t.dtype = .f32 ∧ t.shape = c.input.shape ∧ t.floats? = some features ∧
        (∀ index, c.input.shape.HasIndex index →
          ∃ x, features[c.input.shape.offset index]? = some x ∧ t.floatAt? index = some x) ∧
        ∃ v, c.quantizeInput t = .ok v) ∧
      ∀ files n source t, ClassifyProgram.input files c n source = .ok t →
        ∃ v, c.quantizeInput t = .ok v := by
  refine ⟨?_, ?_, ?_, ?_⟩
  · intro g hg hheight hwidth image n
    obtain ⟨hshape, hchannels⟩ := Geometry.ofShape_eq_ok hg
    obtain ⟨t, ht, -, hpixels⟩ :=
      Picture.exists_preprocess image.resizedRgb n hchannels hheight hwidth
    obtain ⟨hfloat, hsame⟩ := Picture.preprocess_eq_ok ht
    have hinput : t.shape = c.input.shape := hsame.trans hshape
    exact ⟨t, ht, hfloat, hinput, hpixels, exists_quantizeInput_iff.2 ⟨hinput, hfloat⟩⟩
  · intro hcount hvalues features
    have hfits : ¬ c.input.shape.Overflows := by rwa [Shape.overflows_iff hvalues, Nat.not_le]
    rw [exists_featuresToTensor_iff, and_iff_right hfits]
  · intro features t ht
    obtain ⟨hfloat, hshape, hfeatures⟩ := featuresToTensor_eq_ok ht
    refine ⟨hfloat, hshape, hfeatures, ?_, exists_quantizeInput_iff.2 ⟨hshape, hfloat⟩⟩
    rw [← hshape]
    exact fun index => Tensor.exists_floatAt? hfeatures
  · intro files n source t ht
    exact exists_quantizeInput_iff.2 (ClassifyProgram.input_eq_ok ht)

/-- The classifier of a model that passes on three by two pixels, or pictures of two by three pixels
channel by channel: both axes have the length of channels. -/
def bothLayouts : Classifier :=
  { pairClassifier .f32 .f32 with
    model := ⟨[⟨"image", ⟨.f32, [.fixed 1, .fixed 3, .fixed 2, .fixed 3]⟩, none⟩],
      [.input ⟨0, Nat.zero_lt_one⟩]⟩
    input := ⟨[1, 3, 2, 3], .f32, .unquantized⟩ }

/-- Where the input could be read in both ways, images and features still fit it. -/
theorem bothLayouts_fit : bothLayouts.input.geometry = .ok ⟨.nhwc, 3, 2, 3⟩ ∧
    (∀ image n, ∃ t v, preprocess image ⟨.nhwc, 3, 2, 3⟩ n = .ok t ∧
      bothLayouts.quantizeInput t = .ok v) ∧
    ∃ t v, featuresToTensor (List.replicate 18 (Binary.ofNat 1)) [1, 3, 2, 3] = .ok t ∧
      bothLayouts.quantizeInput t = .ok v := by
  have hloaded : UsableModel.ofModel .tflite bothLayouts.model = .ok bothLayouts.toUsableModel := rfl
  obtain ⟨hplaces, hvalues⟩ := UsableModel.counted_of_ofModel hloaded
  obtain ⟨himage, hcount, hfeatures, -⟩ := frontEnds_fit bothLayouts
  refine ⟨rfl, ?_, ?_⟩
  · intro image n
    obtain ⟨t, ht, -, -, -, v, hv⟩ := himage ⟨.nhwc, 3, 2, 3⟩ rfl (by decide) (by decide) image n
    exact ⟨t, v, ht, hv⟩
  · obtain ⟨t, ht⟩ := (hcount hplaces hvalues (List.replicate 18 (Binary.ofNat 1))).2 rfl
    obtain ⟨-, -, -, -, v, hv⟩ := hfeatures _ t ht
    exact ⟨t, v, ht, hv⟩

end Classifier

end QuantClassifier
