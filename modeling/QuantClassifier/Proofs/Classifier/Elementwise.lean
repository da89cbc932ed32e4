import QuantClassifier.Proofs.Classifier.StoredInput

/-!
# Models that pass on their input

A classifier whose model passes on its input reports, for each value that it is given, the score of
that value in the input slot: what is left of it after it has been stored and read back. No score
depends on another value (`classifyOn_elementwise`). The runtime is only known to hand out what it
is given; running a model with one input does that, so the report of such a model is known in full
(`classify_of_isScaled`).
-/

namespace QuantClassifier

variable {t r : Tensor} {xs : List Single} {elapsedMs : Double}

theorem Report.ofTensor_of_floats? (h : t.floats? = some xs) :
    Report.ofTensor t elapsedMs = .ok ⟨t.shape, xs, elapsedMs, []⟩ := by
  rw [Report.ofTensor, h]

namespace Classifier

variable {c : Classifier} {d : Delegate} {u : UsableModel} {m : Model} {format : ModelFormat}
  {run : Runtime} {v raw : Tensor} {rest : List Tensor} {f : Failure}

/-- What can not be stored is not reported on, for the same reason. -/
theorem classifyOn_of_error (h : c.quantizeInput t = .error f) :
    c.classifyOn run t elapsedMs = .error f := by
  rw [classifyOn, h]
  rfl

/-- The report is on the first output of the runtime, read by the parameters of the output slot. -/
theorem classifyOn_of_ok (hstored : c.quantizeInput t = .ok v) (hrun : run [v] = .ok (raw :: rest))
    (hread : raw.dequantize c.output.params = .ok r) :
    c.classifyOn run t elapsedMs = Report.ofTensor r elapsedMs := by
  simp only [classifyOn, hstored, bind, Except.bind, hrun, hread]

/-- A runtime that hands out what it is given makes a report of the values that are stored in the
input slot and read back from it. -/
theorem classifyOn_of_passesFirst (hu : UsableModel.ofModel format m = .ok u)
    (hpass : m.PassesFirst) (hreal : ∀ first, m.inputs.head? = some first →
      first.fact.dtype.isReal = true)
    (hc : prepare d u = .ok c)
    (hrun : ∀ v, c.quantizeInput t = .ok v → ∃ rest, run [v] = .ok (v :: rest))
    (hshape : t.shape = c.input.shape) (hxs : t.floats? = some xs) :
    c.classifyOn run t elapsedMs =
      .ok ⟨c.input.shape, xs.map (c.input.slotType.score c.input.params), elapsedMs, []⟩ := by
  obtain ⟨first, hfirst, -, hslot, hin, hout⟩ := UsableModel.slots_of_passesFirst hu hpass
  obtain ⟨rfl, -⟩ := toUsableModel_of_prepare hc
  obtain ⟨v, r, hv, hr, hsame, hscores⟩ :=
    Tensor.exists_dequantize_quantize hslot (hreal first hfirst) hxs
  have hstored : c.quantizeInput t = .ok v := by rw [quantizeInput_of_shape_eq hshape, hin, hv]
  obtain ⟨rest, hrest⟩ := hrun v hstored
  have hread : v.dequantize c.output.params = .ok r := by rw [hout, hr]
  rw [classifyOn_of_ok hstored hrest hread, Report.ofTensor_of_floats? hscores, hin, hsame, hshape]

/-- A classifier whose model passes on its input, on a runtime that hands out what it is given. A
tensor of another shape than the input's is refused for its shape, and one of that shape that does
not hold floats for its type. Floats of that shape are reported on, as many as the product of the
shape: there is one score for each, which is the float stored in the input slot and read back. -/
theorem classifyOn_elementwise (elapsedMs : Double)
    (hu : UsableModel.ofModel format m = .ok u) (hpass : m.PassesFirst)
    (hreal : ∀ first, m.inputs.head? = some first → first.fact.dtype.isReal = true)
    (hc : prepare d u = .ok c)
    (hrun : ∀ v, c.quantizeInput t = .ok v → ∃ rest, run [v] = .ok (v :: rest)) :
    (c.classifyOn run t elapsedMs = .error (.ofKind (.shapeMismatch u.input.shape t.shape)) ↔
        t.shape ≠ u.input.shape) ∧
      (t.shape = u.input.shape →
        (c.classifyOn run t elapsedMs = .error (.ofKind (.unsupportedDatumType t.dtype)) ↔
          t.dtype ≠ .f32)) ∧
      (t.shape = u.input.shape → t.dtype = .f32 → ∃ (xs : List Single) (r : Report),
        t.floats? = some xs ∧ c.classifyOn run t elapsedMs = .ok r ∧ r.shape = u.input.shape ∧
        r.scores.length = u.input.shape.product ∧
        ∀ i : Nat, r.scores[i]? = xs[i]?.map (u.input.slotType.score u.input.params)) := by
  have hinput : u.input = c.input := by rw [← (toUsableModel_of_prepare hc).1]
  have hfloats : t.shape = c.input.shape → ∀ xs, t.floats? = some xs →
      c.classifyOn run t elapsedMs =
        .ok ⟨c.input.shape, xs.map (c.input.slotType.score c.input.params), elapsedMs, []⟩ :=
    fun hshape _ hxs => classifyOn_of_passesFirst hu hpass hreal hc hrun hshape hxs
  have htype : t.shape = c.input.shape → t.dtype ≠ .f32 →
      c.classifyOn run t elapsedMs = .error (.ofKind (.unsupportedDatumType t.dtype)) :=
    fun hshape hne => classifyOn_of_error (quantizeInput_of_dtype_ne hshape hne)
  rw [hinput]
  refine ⟨⟨?_, ?_⟩, ?_, ?_⟩
  · rintro h hshape
    by_cases hf : t.dtype = .f32
    · obtain ⟨xs, hxs⟩ := Tensor.exists_floats?_iff.2 hf
      rw [hfloats hshape xs hxs] at h
      cases h
    · rw [htype hshape hf] at h
      cases h
  · intro hshape
    exact classifyOn_of_error (quantizeInput_of_shape_ne hshape)
  · intro hshape
    refine ⟨?_, htype hshape⟩
    intro h hf
    obtain ⟨xs, hxs⟩ := Tensor.exists_floats?_iff.2 hf
    rw [hfloats hshape xs hxs] at h
    cases h
  · intro hshape hf
    obtain ⟨xs, hxs⟩ := Tensor.exists_floats?_iff.2 hf
    have hlength := Tensor.length_of_floats? hxs
    refine ⟨xs, _, hxs, hfloats hshape xs hxs, rfl, ?_, fun i => List.getElem?_map⟩
    rw [← hshape, List.length_map]
    exact hlength

/-- The runtime of a model with one input hands out what the input slot stores, if the elements of
the input are floats, or have a zero point and a scale that is a number. -/
theorem run_quantizeInput {first : ModelInput} (hu : UsableModel.ofModel format m = .ok u)
    (hpass : m.PassesFirst) (hone : m.inputs = [first])
    (htype : first.fact.dtype.isScaled = true) (hc : prepare d u = .ok c)
    (hv : c.quantizeInput t = .ok v) : ∃ rest, m.run [v] = .ok (v :: rest) := by
  obtain ⟨first', hfirst, hconcrete, hslot, hparams⟩ := input_of_prepare hu hc
  obtain rfl : first = first' := by simpa [hone] using hfirst
  obtain ⟨hshape, -⟩ := exists_quantizeInput_iff.1 ⟨v, hv⟩
  rw [quantizeInput_of_shape_eq hshape, hparams] at hv
  obtain ⟨hsame, -⟩ := Tensor.quantize_ofDatumType hslot hv
  have hagrees := Tensor.agrees_of_quantize hslot htype hv
  apply Model.run_of_admits hone hpass
  apply Fact.admits_of_concrete? _ hagrees
  rw [hsame, hshape, hconcrete]

/-- So such a model reports the score of every float that it is given. -/
theorem classify_of_isScaled {first : ModelInput} (hu : UsableModel.ofModel format m = .ok u)
    (hpass : m.PassesFirst) (hone : m.inputs = [first])
    (htype : first.fact.dtype.isScaled = true) (hc : prepare d u = .ok c)
    (hshape : t.shape = c.input.shape) (hxs : t.floats? = some xs) :
    c.classify t elapsedMs =
      .ok ⟨c.input.shape, xs.map (c.input.slotType.score c.input.params), elapsedMs, []⟩ := by
  have hmodel : c.model = m := by
    obtain ⟨-, -, -, -, -, -, -, hm⟩ := UsableModel.ofModel_eq_ok_iff.1 hu
    rw [(toUsableModel_of_prepare hc).1, hm]
  have hreal : ∀ first', m.inputs.head? = some first' → first'.fact.dtype.isReal = true := by
    intro first' hfirst
    obtain rfl : first = first' := by simpa [hone] using hfirst
    exact DatumType.isReal_of_isScaled htype
  apply classifyOn_of_passesFirst hu hpass hreal hc _ hshape hxs
  intro v hv
  rw [hmodel]
  exact run_quantizeInput hu hpass hone htype hc hv

/-- A pair of floats is stored as halves and read back, element by element. -/
theorem classifyOn_halves : ∃ r, (pairClassifier halves .u8).classify oneTwo (.zero false) = .ok r ∧
    r.shape = [1, 2] ∧ r.scores = [Binary.ofNat 1, Binary.ofNat 2] := by
  have hslot : SlotType.ofDatumType halves = .ok .u8 := rfl
  have hu := ofModel_passPair hslot
  have hc := prepare_unoptimized (pairClassifier halves .u8).toUsableModel
  have hpass : (passPair halves).PassesFirst := ⟨Nat.zero_lt_one, rfl⟩
  have hreal : ∀ first, (passPair halves).inputs.head? = some first →
      first.fact.dtype.isReal = true := by
    rintro first hfirst
    cases hfirst
    decide +kernel
  have hrun : ∀ v, (pairClassifier halves .u8).quantizeInput oneTwo = .ok v →
      ∃ rest, (passPair halves).run [v] = .ok (v :: rest) :=
    fun v => run_quantizeInput hu hpass rfl (by decide +kernel) hc
  obtain ⟨-, -, h⟩ := classifyOn_elementwise (.zero false) hu hpass hreal hc hrun
  obtain ⟨xs, r, hxs, hr, hshape, -, hscores⟩ := h rfl rfl
  cases hxs
  refine ⟨r, hr, hshape, List.ext_getElem? fun i => ?_⟩
  rw [hscores, ← List.getElem?_map]
  have : oneTwo.data.map ((pairClassifier halves .u8).input.slotType.score
      (pairClassifier halves .u8).input.params) = [Binary.ofNat 1, Binary.ofNat 2] := by
    decide +kernel
  exact congrArg (·[i]?) this

end Classifier

end QuantClassifier
