import QuantClassifier.Model.Slots
import QuantClassifier.Outcome
import QuantClassifier.Proofs.Quantization.Slots

/-!
# Usable models

A usable model is a model whose first input has a known shape that holds values, and whose first
input and output have types that slots store; nothing else of the model matters (`ofModel_eq_ok_iff`).
Running a model that passes on its only input hands out what is given to it, if the type and the
shape of that input admit it (`run_of_admits`).
-/

namespace QuantClassifier

/-! ## Slots of usable models -/

theorem InputSlot.isEmpty_eq_false_iff {s : InputSlot} :
    s.isEmpty = .ok false ↔ 0 ∉ s.shape ∧ s.shape.product < Shape.wordSize := by
  rw [isEmpty_eq_ok_iff, eq_comm, decide_eq_false_iff_not, and_comm]
  refine and_congr_right fun hvalues => ?_
  rw [Shape.overflows_iff hvalues, Nat.not_le]

theorem InputSlot.ofFact_eq_ok_iff {f : Fact} {s : InputSlot} : ofFact f = .ok s ↔
    f.concrete? = some s.shape ∧ SlotType.ofDatumType f.dtype = .ok s.slotType ∧
      s.params = .ofDatumType f.dtype ∧ s.isEmpty = .ok false := by
  unfold ofFact
  cases hshape : f.concrete? with
  | none => simp [throw, throwThe, MonadExceptOf.throw]
  | some shape =>
    simp only [bind_eq_ok_iff, Stop.liftM_failure_eq_ok_iff, Stop.liftM_panic_eq_ok_iff]
    constructor
    · rintro ⟨slotType, htype, empty, hempty, h⟩
      cases empty with
      | true => cases h
      | false =>
        cases h
        exact ⟨rfl, htype, rfl, hempty⟩
    · obtain ⟨shape', slotType, params⟩ := s
      rintro ⟨hsame, htype, rfl, hfull⟩
      cases hsame
      exact ⟨slotType, htype, false, hfull, rfl⟩

theorem OutputSlot.ofDatumType_eq_ok_iff {t : DatumType} {s : OutputSlot} :
    OutputSlot.ofDatumType t = .ok s ↔
      SlotType.ofDatumType t = .ok s.slotType ∧ s.params = .ofDatumType t := by
  obtain ⟨slotType, params⟩ := s
  unfold OutputSlot.ofDatumType
  simp only [bind_eq_ok_iff, pure_eq_ok_iff, OutputSlot.mk.injEq]
  constructor
  · rintro ⟨a, ha, rfl, rfl⟩
    exact ⟨ha, rfl⟩
  · rintro ⟨ha, rfl⟩
    exact ⟨slotType, ha, rfl, rfl⟩

theorem UsableModel.ofModel_eq_ok_iff {format : ModelFormat} {m : Model} {u : UsableModel} :
    ofModel format m = .ok u ↔ ∃ first output, m.inputs.head? = some first ∧
      m.outputs.head? = some output ∧ InputSlot.ofFact first.fact = .ok u.input ∧
      OutputSlot.ofDatumType (m.outputType output) = .ok u.output ∧ u.format = format ∧
      u.model = m := by
  obtain ⟨format', model, input, output⟩ := u
  unfold ofModel
  cases hin : m.inputs.head? with
  | none => simp [throw, throwThe, MonadExceptOf.throw]
  | some first =>
    cases hout : m.outputs.head? with
    | none => simp [throw, throwThe, MonadExceptOf.throw]
    | some last =>
      simp only [bind_eq_ok_iff, pure_eq_ok_iff, Stop.liftM_failure_eq_ok_iff,
        UsableModel.mk.injEq]
      constructor
      · rintro ⟨a, ha, b, hb, rfl, rfl, rfl, rfl⟩
        exact ⟨first, last, rfl, rfl, ha, hb, rfl, rfl⟩
      · rintro ⟨first', last', hfirst, hlast, ha, hb, rfl, rfl⟩
        cases hfirst
        cases hlast
        exact ⟨input, ha, output, hb, rfl, rfl, rfl, rfl⟩

/-- The input of a usable model takes values, and they can be counted. -/
theorem UsableModel.counted_of_ofModel {format : ModelFormat} {m : Model} {u : UsableModel}
    (h : ofModel format m = .ok u) :
    u.input.shape.product < Shape.wordSize ∧ 0 ∉ u.input.shape := by
  obtain ⟨first, output, -, -, hin, -⟩ := ofModel_eq_ok_iff.1 h
  obtain ⟨-, -, -, hfull⟩ := InputSlot.ofFact_eq_ok_iff.1 hin
  exact (InputSlot.isEmpty_eq_false_iff.1 hfull).symm

/-! ## Passing on the first input -/

/-- The first output is the first input. -/
def Model.PassesFirst (m : Model) : Prop :=
  ∃ h : 0 < m.inputs.length, m.outputs.head? = some (.input ⟨0, h⟩)

/-- Both slots of a model that passes on its first input have the parameters of its type. -/
theorem UsableModel.slots_of_passesFirst {format : ModelFormat} {m : Model} {u : UsableModel}
    (h : ofModel format m = .ok u) (hpass : m.PassesFirst) :
    ∃ first, m.inputs.head? = some first ∧ first.fact.concrete? = some u.input.shape ∧
      SlotType.ofDatumType first.fact.dtype = .ok u.input.slotType ∧
      u.input.params = .ofDatumType first.fact.dtype ∧
      u.output.params = .ofDatumType first.fact.dtype := by
  obtain ⟨first, output, hfirst, houtput, hin, hout, -, -⟩ := ofModel_eq_ok_iff.1 h
  obtain ⟨hshape, htype, hparams, -⟩ := InputSlot.ofFact_eq_ok_iff.1 hin
  obtain ⟨-, hback⟩ := OutputSlot.ofDatumType_eq_ok_iff.1 hout
  refine ⟨first, hfirst, hshape, htype, hparams, ?_⟩
  obtain ⟨hpos, hpass⟩ := hpass
  obtain rfl : output = .input ⟨0, hpos⟩ := Option.some.inj (houtput.symm.trans hpass)
  have hget : m.inputs.get ⟨0, hpos⟩ = first := by
    rw [List.head?_eq_getElem?, List.getElem?_eq_getElem hpos] at hfirst
    exact Option.some.inj hfirst
  rw [hback]
  exact congrArg (fun i : ModelInput => QuantParams.ofDatumType i.fact.dtype) hget

/-! ## Known dimensions -/

namespace Dimension

variable {dims : List Dimension} {shape : Shape}

theorem mapM_fixed?_symbol (name : String) (dims : List Dimension) :
    (symbol name :: dims).mapM fixed? = none := rfl

theorem mapM_fixed?_fixed (n : Nat) (dims : List Dimension) :
    (fixed n :: dims).mapM fixed? = (dims.mapM fixed?).map (n :: ·) := by
  rw [List.mapM_cons]
  cases dims.mapM fixed? <;> rfl

/-- Dimensions are all known if they are the lengths of some shape. -/
theorem mapM_fixed?_eq_some_iff : dims.mapM fixed? = some shape ↔ dims = shape.map fixed := by
  induction dims generalizing shape with
  | nil => cases shape <;> simp [pure]
  | cons d dims ih =>
    rw [@eq_comm _ _ (shape.map fixed), List.map_eq_cons_iff]
    cases d with
    | symbol name =>
      rw [mapM_fixed?_symbol]
      simp
    | fixed n =>
      rw [mapM_fixed?_fixed, Option.map_eq_some_iff]
      simp only [ih, fixed.injEq]
      constructor
      · rintro ⟨rest, rfl, rfl⟩
        exact ⟨n, rest, rfl, rfl, rfl⟩
      · rintro ⟨_, rest, rfl, rfl, rfl⟩
        exact ⟨rest, rfl, rfl⟩

/-- Dimensions are not all known if one of them is a name. -/
theorem mapM_fixed?_eq_none_iff : dims.mapM fixed? = none ↔ ∃ name, .symbol name ∈ dims := by
  induction dims with
  | nil => simp [pure]
  | cons d dims ih =>
    cases d with
    | symbol name =>
      rw [mapM_fixed?_symbol]
      simp
    | fixed n =>
      rw [mapM_fixed?_fixed, Option.map_eq_none_iff, ih]
      simp

/-- Lengths are admitted where they are the ones known. -/
theorem all_admits_fixed (shape : Shape) :
    ((shape.map fixed).zip shape).all (fun (d, n) => d.admits n) = true := by
  induction shape with
  | nil => rfl
  | cons n shape ih =>
    rw [List.map_cons, List.zip_cons_cons, List.all_cons, ih]
    simp [admits]

end Dimension

/-! ## Running -/

theorem Fact.admits_of_concrete? {f : Fact} {t : Tensor} (hshape : f.concrete? = some t.shape)
    (htype : f.dtype.agrees t.dtype = true) : f.admits t = true := by
  have hlengths : f.shape = t.shape.map .fixed := Dimension.mapM_fixed?_eq_some_iff.1 hshape
  simp [admits, htype, hlengths, Dimension.all_admits_fixed]

/-- A model with one input hands out first what it is given, if it passes on that input. -/
theorem Model.run_of_admits {m : Model} {first : ModelInput} {t : Tensor}
    (hone : m.inputs = [first]) (hpass : m.PassesFirst) (ht : first.fact.admits t = true) :
    ∃ rest, m.run [t] = .ok (t :: rest) := by
  obtain ⟨hpos, hpass⟩ := hpass
  obtain ⟨rest, houtputs⟩ := List.head?_eq_some_iff.1 hpass
  have hlength : [t].length = m.inputs.length := by rw [hone]; rfl
  have hcheck : checkInputs 0 m.inputs [t] = .ok () := by
    rw [hone]
    simp [checkInputs, ht]
  unfold run
  rw [dif_pos hlength, hcheck, houtputs]
  exact ⟨_, rfl⟩

end QuantClassifier
