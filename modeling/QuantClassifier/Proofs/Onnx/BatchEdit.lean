import QuantClassifier.Proofs.Onnx.Agreement
import QuantClassifier.Proofs.Onnx.PinnedDimension

/-!
# The batch edit in two parts

Setting the batch dimension first asks what the model lacks (`missing?`) and then, if it lacks
nothing, edits the two dimensions (`setBoth`); the batch size plays no part in the question
(`setBatch_eq`). The edit leaves the answer as it was (`missing?_setBoth`), of two edits the second
counts (`setBoth_setBoth`), and models that agree are answered and edited alike.
-/

namespace QuantClassifier.Onnx

open Wire Message

/-- What a graph lacks to have the batch dimension of a slot set. -/
def missingAt? (graph : Message) (slot : Slot) : Option Missing :=
  match graph.child? slot.field with
  | none => some (.value slot)
  | some value =>
    match rank? value with
    | some (_ + 1) => none
    | _ => some (.shape slot (value.bytesOf 1))

/-- What a model lacks to have its batch dimension set. -/
def missing? (model : Message) : Option Missing :=
  match model.child? 7 with
  | none => some .graph
  | some graph => (missingAt? graph .input).or (missingAt? graph .output)

/-- The model with the first dimension of both slots set. -/
def setBoth (batch : Int) (model : Message) : Message :=
  (model.modifyAt Slot.input.dimensionPath (setDimension batch)).modifyAt
    Slot.output.dimensionPath (setDimension batch)

section Edit

variable {batch batch' : Int} {model graph value : Message} {slot other : Slot}

theorem setSlot_eq (batch : Int) (graph : Message) (slot : Slot) :
    setSlot batch graph slot =
      match missingAt? graph slot with
      | some e => .error e
      | none => .ok (graph.modifyChild slot.field (setFirstDimension batch)) := by
  unfold setSlot missingAt?
  cases graph.child? slot.field with
  | none => rfl
  | some value =>
    simp only
    rcases rank? value with _ | _ | rank <;> rfl

theorem modifyAt_dimensionPath (batch : Int) (model : Message) (slot : Slot) :
    model.modifyAt slot.dimensionPath (setDimension batch) =
      model.modifyChild 7 fun graph => graph.modifyChild slot.field (setFirstDimension batch) :=
  rfl

theorem missingAt?_modifyChild_of_ne (h : slot.field ≠ other.field) (graph : Message)
    (f : Message → Message) :
    missingAt? (graph.modifyChild slot.field f) other = missingAt? graph other := by
  unfold missingAt?
  rw [child?_modifyChild_of_ne h]

theorem Slot.field_input_ne_output : Slot.input.field ≠ Slot.output.field := by decide

/-- The two paths leave each other below the graph. -/
theorem Slot.dimensionPath_eq (slot : Slot) :
    slot.dimensionPath = [7] ++ slot.field :: [2, 1, 2, 1] :=
  rfl

/-- The batch dimension is set exactly where nothing is missing. -/
theorem setBatch_eq (batch : Int) (model : Message) :
    setBatch batch model =
      match missing? model with
      | some e => .error e
      | none => .ok (setBoth batch model) := by
  unfold setBatch editBatch missing?
  cases hgraph : model.child? 7 with
  | none => rfl
  | some graph =>
    simp only [setSlot_eq]
    cases missingAt? graph .input with
    | some e => rfl
    | none =>
      simp only [Option.none_or, missingAt?_modifyChild_of_ne Slot.field_input_ne_output]
      cases missingAt? graph .output with
      | some e => rfl
      | none =>
        simp only [setBoth, modifyAt_dimensionPath, modifyChild_modifyChild_self]
        exact congrArg Except.ok (modifyChild_congr hgraph rfl)

theorem setBatch_eq_ok_iff {model' : Message} :
    setBatch batch model = .ok model' ↔ missing? model = none ∧ setBoth batch model = model' := by
  rw [setBatch_eq]
  cases missing? model <;> simp

theorem setBatch_eq_error_iff {e : Missing} (batch : Int) :
    setBatch batch model = .error e ↔ missing? model = some e := by
  rw [setBatch_eq]
  cases missing? model <;> simp

/-- The number of dimensions stays. -/
theorem rank?_setFirstDimension (batch : Int) (value : Message) :
    rank? (setFirstDimension batch value) = rank? value := by
  unfold rank? setFirstDimension
  rw [child?_modifyChild_self]
  cases value.child? 2 with
  | none => rfl
  | some type =>
    simp only [Option.map_some, Option.bind_eq_bind, Option.bind_some, child?_modifyChild_self]
    cases type.child? 1 with
    | none => rfl
    | some tensor =>
      simp only [Option.map_some, Option.bind_some, child?_modifyChild_self]
      cases tensor.child? 2 with
      | none => rfl
      | some shape =>
        simp only [Option.map_some, Option.bind_some, length_children_modifyChild]

/-- Setting a dimension takes nothing away that is needed to set it. -/
theorem missingAt?_modifyChild_setFirstDimension (batch : Int) (graph : Message)
    (slot other : Slot) :
    missingAt? (graph.modifyChild slot.field (setFirstDimension batch)) other =
      missingAt? graph other := by
  by_cases h : slot.field = other.field
  · unfold missingAt?
    rw [h, child?_modifyChild_self]
    cases graph.child? other.field with
    | none => rfl
    | some value =>
      have hname : (setFirstDimension batch value).bytesOf 1 = value.bytesOf 1 := by
        unfold setFirstDimension bytesOf
        rw [get?_modifyChild_of_ne (by decide)]
      simp only [Option.map_some, rank?_setFirstDimension, hname]
  · exact missingAt?_modifyChild_of_ne h ..

theorem missing?_modifyAt (batch : Int) (model : Message) (slot : Slot) :
    missing? (model.modifyAt slot.dimensionPath (setDimension batch)) = missing? model := by
  unfold missing?
  rw [modifyAt_dimensionPath, child?_modifyChild_self]
  cases model.child? 7 with
  | none => rfl
  | some graph => simp only [Option.map_some, missingAt?_modifyChild_setFirstDimension]

theorem missing?_setBoth (batch : Int) (model : Message) :
    missing? (setBoth batch model) = missing? model := by
  rw [setBoth, missing?_modifyAt, missing?_modifyAt]

theorem setDimension_comp (batch batch' : Int) :
    setDimension batch' ∘ setDimension batch = setDimension batch' := by
  funext dimension
  exact setDimension_setDimension batch batch' dimension

/-- Of two batch sizes the second counts. -/
theorem setBoth_setBoth (batch batch' : Int) (model : Message) :
    setBoth batch' (setBoth batch model) = setBoth batch' model := by
  have hcomm : ∀ (m : Message) (f g : Message → Message),
      (m.modifyAt Slot.output.dimensionPath f).modifyAt Slot.input.dimensionPath g =
        (m.modifyAt Slot.input.dimensionPath g).modifyAt Slot.output.dimensionPath f := by
    intro m f g
    rw [Slot.dimensionPath_eq, Slot.dimensionPath_eq]
    exact modifyAt_comm Slot.field_input_ne_output.symm m f g
  simp only [setBoth, hcomm, modifyAt_modifyAt_self, setDimension_comp]

end Edit

section Agreement

variable {batch : Int} {m m' : Message} {slot : Slot}

theorem Message.Matched.setDimension (h : Matched m m') (batch : Int) :
    Matched (setDimension batch m) (setDimension batch m') :=
  (h.erase 2).put 1 (by simp [Value.agrees])

theorem Message.Matched.setBoth (h : Matched m m') (batch : Int) :
    Matched (setBoth batch m) (setBoth batch m') :=
  (h.modifyAt (fun _ _ hd => hd.setDimension batch) _).modifyAt
    (fun _ _ hd => hd.setDimension batch) _

theorem Message.Matched.rank? (h : Matched m m') : rank? m = rank? m' := by
  unfold Onnx.rank?
  rcases h.child? 2 with ⟨hm, hm'⟩ | ⟨type, type', hm, hm', h⟩
  · rw [hm, hm']
  · simp only [hm, hm', Option.bind_eq_bind, Option.bind_some]
    rcases h.child? 1 with ⟨hm, hm'⟩ | ⟨tensor, tensor', hm, hm', h⟩
    · rw [hm, hm']
    · simp only [hm, hm', Option.bind_some]
      rcases h.child? 2 with ⟨hm, hm'⟩ | ⟨shape, shape', hm, hm', h⟩
      · rw [hm, hm']
      · simp only [hm, hm', Option.bind_some, h.length_children]

theorem Message.Matched.missingAt? (h : Matched m m') (slot : Slot) :
    missingAt? m slot = missingAt? m' slot := by
  unfold Onnx.missingAt?
  rcases h.child? slot.field with ⟨hm, hm'⟩ | ⟨value, value', hm, hm', h⟩
  · rw [hm, hm']
  · simp only [hm, hm', h.rank?, h.bytesOf]

theorem Message.Matched.missing? (h : Matched m m') : missing? m = missing? m' := by
  unfold Onnx.missing?
  rcases h.child? 7 with ⟨hm, hm'⟩ | ⟨graph, graph', hm, hm', h⟩
  · rw [hm, hm']
  · simp only [hm, hm', h.missingAt?]

/-- A model that agrees with an edited one is edited like the original one. -/
theorem agrees_setBoth_of_agrees_setBoth {actual model : Message}
    (h : actual.agrees (setBoth batch model) = true) (batch' : Int) :
    missing? actual = missing? model ∧
      (setBoth batch' actual).agrees (setBoth batch' model) = true := by
  have hmatched := agrees_iff_matched.1 h
  refine ⟨hmatched.missing?.trans (missing?_setBoth batch model), ?_⟩
  rw [← setBoth_setBoth batch batch' model, agrees_iff_matched]
  exact hmatched.setBoth batch'

end Agreement

end QuantClassifier.Onnx
