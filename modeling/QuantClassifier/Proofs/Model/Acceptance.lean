import QuantClassifier.Proofs.Model.Loading

/-!
# Which models are usable

A model is not usable for the first of five reasons: a dimension of its input has no length, its
input has a type that no slot stores, the places of its input can not be counted in a word, there
are none, its output has a type that no slot stores (`Refusal`). Counting places panics where the
leading axes alone have more of them than the word holds (`Shape.Overflows`); among axes with
lengths other than zero these are the inputs whose product does not fit, so that such an input is
not taken although it takes values (`ofModel_vastInput`).
-/

namespace QuantClassifier

/-- A type that some slot stores: floats, or bytes of either sign, quantized or not. -/
def DatumType.isStorable : DatumType → Bool
  | f32 | u8 | i8 | quantized .u8 _ | quantized .i8 _ => true
  | _ => false

namespace SlotType

variable {t : DatumType}

theorem exists_ofDatumType (h : t.isStorable = true) : ∃ s, ofDatumType t = .ok s := by
  cases t with
  | f32 => exact ⟨f32, rfl⟩
  | u8 => exact ⟨u8, rfl⟩
  | i8 => exact ⟨i8, rfl⟩
  | quantized storage z =>
    cases storage with
    | u8 => exact ⟨u8, rfl⟩
    | i8 => exact ⟨i8, rfl⟩
    | i32 => cases h
  | _ => cases h

theorem ofDatumType_of_not_isStorable (h : t.isStorable = false) :
    ofDatumType t = .error (.ofKind (.unsupportedDatumType t)) := by
  cases t with
  | quantized storage z =>
    cases storage with
    | i32 => rfl
    | _ => cases h
  | f32 | u8 | i8 => cases h
  | _ => rfl

end SlotType

namespace UsableModel

/-- The reasons against a model whose first input and first output are these, each if none of those
before it holds, and how each stops the model from being used. -/
inductive Refusal (f : Fact) (out : DatumType) : Stop → Prop where
  | unknownLength {name : String} : .symbol name ∈ f.shape →
      Refusal f out (.ofKind (InputSlot.unknownLength f))
  | inputType {shape : Shape} : f.shape = shape.map .fixed → f.dtype.isStorable = false →
      Refusal f out (.ofKind (.unsupportedDatumType f.dtype))
  | uncounted {shape : Shape} : f.shape = shape.map .fixed → f.dtype.isStorable = true →
      shape.Overflows → Refusal f out (.panic .overflow)
  | noValue {shape : Shape} : f.shape = shape.map .fixed → f.dtype.isStorable = true →
      ¬ shape.Overflows → 0 ∈ shape →
      Refusal f out (.ofKind (InputSlot.noValue shape))
  | outputType {shape : Shape} : f.shape = shape.map .fixed → f.dtype.isStorable = true →
      ¬ shape.Overflows → 0 ∉ shape → out.isStorable = false →
      Refusal f out (.ofKind (.unsupportedDatumType out))

/-- There is no reason against a model whose first input has this shape. -/
structure Accepts (f : Fact) (out : DatumType) (shape : Shape) : Prop where
  lengths : f.shape = shape.map .fixed
  inputType : f.dtype.isStorable = true
  counted : ¬ shape.Overflows
  values : 0 ∉ shape
  outputType : out.isStorable = true

theorem refusal_or_accepts (f : Fact) (out : DatumType) :
    (∃ s, Refusal f out s) ∨ ∃ shape, Accepts f out shape := by
  cases hshape : f.concrete? with
  | none =>
    obtain ⟨name, hname⟩ := Dimension.mapM_fixed?_eq_none_iff.1 hshape
    exact Or.inl ⟨_, .unknownLength hname⟩
  | some shape =>
    have hlengths := Dimension.mapM_fixed?_eq_some_iff.1 hshape
    cases hin : f.dtype.isStorable with
    | false => exact Or.inl ⟨_, .inputType hlengths hin⟩
    | true =>
      by_cases hcounted : shape.Overflows
      · exact Or.inl ⟨_, .uncounted hlengths hin hcounted⟩
      · by_cases hvalues : 0 ∈ shape
        · exact Or.inl ⟨_, .noValue hlengths hin hcounted hvalues⟩
        · cases hout : out.isStorable with
          | false => exact Or.inl ⟨_, .outputType hlengths hin hcounted hvalues hout⟩
          | true => exact Or.inr ⟨shape, hlengths, hin, hcounted, hvalues, hout⟩

end UsableModel

/-! ## Slots of inputs -/

namespace InputSlot

variable {f : Fact} {shape : Shape}

theorem ofFact_of_symbol {name : String} (h : .symbol name ∈ f.shape) :
    ofFact f = .error (.ofKind (unknownLength f)) := by
  have hnone : f.concrete? = none := Dimension.mapM_fixed?_eq_none_iff.2 ⟨name, h⟩
  rw [ofFact, hnone]
  rfl

theorem ofFact_of_not_isStorable (hshape : f.shape = shape.map .fixed)
    (h : f.dtype.isStorable = false) :
    ofFact f = .error (.ofKind (.unsupportedDatumType f.dtype)) := by
  have hsome : f.concrete? = some shape := Dimension.mapM_fixed?_eq_some_iff.2 hshape
  rw [ofFact, hsome]
  simp only [SlotType.ofDatumType_of_not_isStorable h]
  rfl

theorem ofFact_of_overflows (hshape : f.shape = shape.map .fixed)
    (htype : f.dtype.isStorable = true) (h : shape.Overflows) :
    ofFact f = .error (.panic .overflow) := by
  have hsome : f.concrete? = some shape := Dimension.mapM_fixed?_eq_some_iff.2 hshape
  obtain ⟨s, hs⟩ := SlotType.exists_ofDatumType htype
  have hempty : isEmpty ⟨shape, s, .ofDatumType f.dtype⟩ = .error .overflow :=
    isEmpty_eq_error_iff.2 ⟨h, rfl⟩
  rw [ofFact, hsome]
  simp only [hs, Stop.liftM_failure_ok, Stop.ok_bind, hempty]
  rfl

theorem ofFact_of_zero_mem (hshape : f.shape = shape.map .fixed)
    (htype : f.dtype.isStorable = true) (hcounted : ¬ shape.Overflows) (h : 0 ∈ shape) :
    ofFact f = .error (.ofKind (noValue shape)) := by
  have hsome : f.concrete? = some shape := Dimension.mapM_fixed?_eq_some_iff.2 hshape
  obtain ⟨s, hs⟩ := SlotType.exists_ofDatumType htype
  have hempty : isEmpty ⟨shape, s, .ofDatumType f.dtype⟩ = .ok true :=
    isEmpty_eq_ok_iff.2 ⟨hcounted, (decide_eq_true h).symm⟩
  rw [ofFact, hsome]
  simp only [hs, Stop.liftM_failure_ok, Stop.ok_bind, hempty]
  rfl

theorem exists_ofFact (hshape : f.shape = shape.map .fixed) (htype : f.dtype.isStorable = true)
    (hcounted : ¬ shape.Overflows) (hvalues : 0 ∉ shape) :
    ∃ slot, ofFact f = .ok slot ∧ slot.shape = shape := by
  obtain ⟨s, hs⟩ := SlotType.exists_ofDatumType htype
  have hempty : isEmpty ⟨shape, s, .ofDatumType f.dtype⟩ = .ok false :=
    isEmpty_eq_ok_iff.2 ⟨hcounted, (decide_eq_false hvalues).symm⟩
  exact ⟨⟨shape, s, .ofDatumType f.dtype⟩, ofFact_eq_ok_iff.2
    ⟨Dimension.mapM_fixed?_eq_some_iff.2 hshape, hs, rfl, hempty⟩, rfl⟩

end InputSlot

namespace UsableModel

section Outcome

variable {format : ModelFormat} {m : Model} {first : ModelInput} {output : Output m.inputs.length}
  {s : Stop}

theorem ofModel_of_error (hfirst : m.inputs.head? = some first)
    (houtput : m.outputs.head? = some output) (h : InputSlot.ofFact first.fact = .error s) :
    ofModel format m = .error s := by
  rw [ofModel, hfirst, houtput]
  simp only [h]
  rfl

/-- A reason against a model stops it from being used. -/
theorem ofModel_of_refusal (hfirst : m.inputs.head? = some first)
    (houtput : m.outputs.head? = some output)
    (h : Refusal first.fact (m.outputType output) s) : ofModel format m = .error s := by
  cases h with
  | unknownLength hname =>
    exact ofModel_of_error hfirst houtput (InputSlot.ofFact_of_symbol hname)
  | inputType hshape htype =>
    exact ofModel_of_error hfirst houtput (InputSlot.ofFact_of_not_isStorable hshape htype)
  | uncounted hshape htype hover =>
    exact ofModel_of_error hfirst houtput (InputSlot.ofFact_of_overflows hshape htype hover)
  | noValue hshape htype hcounted hempty =>
    exact ofModel_of_error hfirst houtput
      (InputSlot.ofFact_of_zero_mem hshape htype hcounted hempty)
  | outputType hshape htype hcounted hvalues hout =>
    obtain ⟨slot, hslot, -⟩ := InputSlot.exists_ofFact hshape htype hcounted hvalues
    rw [ofModel, hfirst, houtput]
    simp only [hslot, Stop.ok_bind, OutputSlot.ofDatumType,
      SlotType.ofDatumType_of_not_isStorable hout]
    rfl

/-- A model without a reason against it is used as it is, with the shape of its first input. -/
theorem exists_ofModel_of_accepts {shape : Shape} (hfirst : m.inputs.head? = some first)
    (houtput : m.outputs.head? = some output)
    (h : Accepts first.fact (m.outputType output) shape) :
    ∃ u, ofModel format m = .ok u ∧ u.format = format ∧ u.model = m ∧ u.input.shape = shape := by
  obtain ⟨slot, hslot, hshape⟩ :=
    InputSlot.exists_ofFact h.lengths h.inputType h.counted h.values
  obtain ⟨s, hs⟩ := SlotType.exists_ofDatumType h.outputType
  exact ⟨⟨format, m, slot, ⟨s, .ofDatumType (m.outputType output)⟩⟩,
    ofModel_eq_ok_iff.2 ⟨first, output, hfirst, houtput, hslot,
      OutputSlot.ofDatumType_eq_ok_iff.2 ⟨hs, rfl⟩, rfl, rfl⟩, rfl, rfl, hshape⟩

/-- A model with an input and an output is stopped exactly for the first reason against it, and is
usable exactly if there is none: all dimensions of its first input are known and other than zero,
slots store the types of that input and of its first output, and the places of the input can be
counted in a word. A count is the product of the dimensions, so that an input is empty exactly if
one of its axes is; where none is, the places can be counted exactly if their number fits in a
word. -/
theorem ofModel_outcome (hfirst : m.inputs.head? = some first)
    (houtput : m.outputs.head? = some output) :
    (∀ s, ofModel format m = .error s ↔ Refusal first.fact (m.outputType output) s) ∧
    (∀ shape, (∃ u, ofModel format m = .ok u ∧ u.input.shape = shape) ↔
      Accepts first.fact (m.outputType output) shape) ∧
    ∀ slot : InputSlot,
      (∀ n, slot.size = .ok n ↔ ¬ slot.shape.Overflows ∧ n = slot.shape.product) ∧
      (∀ empty, slot.isEmpty = .ok empty ↔
        ¬ slot.shape.Overflows ∧ empty = decide (0 ∈ slot.shape)) ∧
      (0 ∉ slot.shape → (slot.shape.Overflows ↔ 0x10000000000000000 ≤ slot.shape.product)) := by
  have hrefused : ∀ {s}, Refusal first.fact (m.outputType output) s →
      ofModel format m = .error s := ofModel_of_refusal hfirst houtput
  have haccepted : ∀ {shape}, Accepts first.fact (m.outputType output) shape → ∃ u,
      ofModel format m = .ok u ∧ u.format = format ∧ u.model = m ∧ u.input.shape = shape :=
    exists_ofModel_of_accepts hfirst houtput
  refine ⟨fun s => ⟨fun hs => ?_, hrefused⟩, fun shape => ⟨?_, fun h => ?_⟩, fun slot =>
    ⟨fun n => Shape.count_eq_ok_iff, fun empty => InputSlot.isEmpty_eq_ok_iff,
      Shape.overflows_iff⟩⟩
  · rcases refusal_or_accepts first.fact (m.outputType output) with ⟨s', hs'⟩ | ⟨shape, hshape⟩
    · cases hs.symm.trans (hrefused hs')
      exact hs'
    · obtain ⟨u, hu, -⟩ := haccepted hshape
      cases hs.symm.trans hu
  · rintro ⟨u, hu, rfl⟩
    rcases refusal_or_accepts first.fact (m.outputType output) with ⟨s, hs⟩ | ⟨shape, hshape⟩
    · cases hu.symm.trans (hrefused hs)
    · obtain ⟨u', hu', -, -, hsame⟩ := haccepted hshape
      cases hu.symm.trans hu'
      rw [hsame]
      exact hshape
  · obtain ⟨u, hu, -, -, hsame⟩ := haccepted h
    exact ⟨u, hu, hsame⟩

end Outcome

/-- A model that passes on an input of a type and a shape. -/
def passOn (dtype : DatumType) (shape : Shape) : Model where
  inputs := [⟨"input", ⟨dtype, shape.map .fixed⟩, none⟩]
  outputs := [.input ⟨0, Nat.zero_lt_one⟩]

/-- A long line of bytes is taken, and is as long as it says. Of two reasons against an empty input
of wide numbers the type comes first, and an input without values comes before the output. An empty
axis comes too late behind more places than a word counts. -/
theorem ofModel_outcome_passOn :
    (∃ u, ofModel .tflite (passOn .u8 [1, 0x7FFFFFFFFFFFFFFF]) = .ok u ∧
      u.input.size = .ok 0x7FFFFFFFFFFFFFFF) ∧
    ofModel .tflite (passOn .i64 [0]) = .error (.ofKind (.unsupportedDatumType .i64)) ∧
    ofModel .tflite { passOn .f32 [3, 0] with outputs := [.constant (.scalar .i64 1)] } =
      .error (.ofKind (.missingShape "input shape [3, 0] holds no value")) ∧
    ofModel .tflite (passOn .f32 [0x100000000, 0x100000000, 0]) = .error (.panic .overflow) := by
  refine ⟨?_, ?_, ?_, ?_⟩
  · obtain ⟨-, haccepted, hslots⟩ :=
      @ofModel_outcome .tflite (passOn .u8 [1, 0x7FFFFFFFFFFFFFFF]) _ _ rfl rfl
    have hcounted : ¬ Shape.Overflows [1, 0x7FFFFFFFFFFFFFFF] := by
      rw [Shape.overflows_iff (by decide)]
      decide
    obtain ⟨u, hu, hshape⟩ := (haccepted [1, 0x7FFFFFFFFFFFFFFF]).2
      ⟨rfl, rfl, hcounted, by decide, rfl⟩
    refine ⟨u, hu, ((hslots u.input).1 _).2 ?_⟩
    rw [hshape]
    exact ⟨hcounted, rfl⟩
  · exact ((ofModel_outcome rfl rfl).1 _).2 (.inputType rfl rfl)
  · have hcounted : ¬ Shape.Overflows [3, 0] := ((Shape.count_eq_ok_iff (n := 0)).1 rfl).1
    exact ((ofModel_outcome rfl rfl).1 _).2
      (@Refusal.noValue _ _ [3, 0] rfl rfl hcounted (by decide))
  · have hover : Shape.Overflows [0x100000000, 0x100000000, 0] :=
      ⟨[0x100000000, 0x100000000], ⟨[0], rfl⟩, by decide⟩
    exact ((ofModel_outcome rfl rfl).1 _).2 (.uncounted rfl rfl hover)

/-- An input with as many lines as there are words of 32 bits, each as long as that. -/
theorem ofModel_vastInput :
    let shape : Shape := [0x100000000, 0x100000000]
    0 ∉ shape ∧ DatumType.f32.isStorable = true ∧
      ofModel .tflite (passOn .f32 shape) = .error (.panic .overflow) ∧
      (InputSlot.mk shape .f32 .unquantized).size = .error .overflow :=
  ⟨by decide, rfl, rfl, rfl⟩

end UsableModel

end QuantClassifier
