import QuantClassifier.Proofs.Onnx.CanonicalPatch
import QuantClassifier.Proofs.Onnx.RoundTrip

/-!
# Patching does not look at the rest of a model

Whether the encoding of a model is patched is decided by the first input and the first output of its
graph, and by whether there is a NaN anywhere in it (`pinBatch_encode_ok_iff`). A NaN is kept by the
patch, which decodes to the edited model (`pinBatch_encode_of_missing?`). But a model with a NaN
agrees with none, not even with itself, and so the patch is given up.
-/

namespace QuantClassifier.Onnx

open Wire Message

/-! ## Edits and NaNs -/

namespace Message

variable {m sub d : Message} {number : Nat} {path : List Nat} {t child : MessageType}
  {f : Message → Message}

theorem nanFree_cons (number : Nat) (v : Value) (m : Message) :
    nanFree ((number, v) :: m) = (v.nanFree && m.nanFree) := by
  rw [nanFree, Value.fieldsNanFree, nanFree]

theorem nanFree_iff : m.nanFree = true ↔ ∀ p ∈ m, p.2.nanFree = true := by
  induction m with
  | nil => simp [nanFree, Value.fieldsNanFree]
  | cons p m ih => rw [nanFree_cons, Bool.and_eq_true, ih, List.forall_mem_cons]

/-- An edit of a child that takes no NaN away and adds none does neither to the message. -/
theorem nanFree_modifyChild (h : m.child? number = some sub) (hf : (f sub).nanFree = sub.nanFree) :
    (m.modifyChild number f).nanFree = m.nanFree := by
  rw [child?_eq_some_iff] at h
  induction m with
  | nil => cases h
  | cons p m ih =>
    obtain ⟨k, v⟩ := p
    rw [get?_cons] at h
    split at h
    · next hk =>
      cases h
      subst hk
      rw [modifyChild_cons_message, nanFree_cons, nanFree_cons, Value.nanFree, Value.nanFree]
      exact congrArg (· && nanFree m) hf
    · next hk => rw [modifyChild_cons_of_ne hk, nanFree_cons, nanFree_cons, ih h]

theorem nanFree_modifyAt (h : m.childAt? path = some sub) (hf : (f sub).nanFree = sub.nanFree) :
    (m.modifyAt path f).nanFree = m.nanFree := by
  induction path generalizing m with
  | nil =>
    cases h
    exact hf
  | cons number path ih =>
    obtain ⟨sub₁, hsub₁, h⟩ := Option.bind_eq_some_iff.1 h
    exact nanFree_modifyChild hsub₁ (ih h)

/-- What a path leads to in a message of a type is of the type that it leads to. -/
theorem isOf_childAt? (h : m.isOf t = true) (ht : t.childTypeAt? path = some child)
    (hsub : m.childAt? path = some sub) : sub.isOf child = true := by
  induction path generalizing m t with
  | nil =>
    cases ht
    cases hsub
    exact h
  | cons number path ih =>
    obtain ⟨u, hchild, ht⟩ := Option.bind_eq_some_iff.1 ht
    obtain ⟨sub₁, hsub₁, hsub⟩ := Option.bind_eq_some_iff.1 hsub
    exact ih (isOf_child? h hchild hsub₁) ht hsub

/-- Only the float types have NaNs. -/
theorem nanFree_of_fits {v : Value} {field : Field} {s : Scalar} (h : v.fits field = true)
    (htype : field.type = .scalar s) (hs : s ≠ .float ∧ s ≠ .double) : v.nanFree = true := by
  rcases Value.cases_of_fits h with ⟨child, sub, hmessage, -⟩ | ⟨s', hs', hv⟩
  · cases htype.symm.trans hmessage
  · cases htype.symm.trans hs'
    rcases hv with ⟨-, hv⟩ | ⟨-, hv, -⟩ <;> cases v <;>
      simp_all [Value.nanFree, Scalar.isEntry, Scalar.isOne]

/-- A dimension holds numbers and texts. -/
theorem nanFree_of_isOf_dimension (h : d.isOf .dimension = true) : d.nanFree = true := by
  have htypes : ∀ field ∈ MessageType.dimension.fields,
      field.type = .scalar .int64 ∨ field.type = .scalar .string := by decide
  rw [nanFree_iff]
  intro p hp
  obtain ⟨field, hfield, hfits⟩ := field?_of_isOf h p hp
  rcases htypes field (List.mem_of_find?_eq_some hfield) with htype | htype
  · exact nanFree_of_fits hfits htype (by decide)
  · exact nanFree_of_fits hfits htype (by decide)

theorem nanFree_setDimension (h : d.isOf .dimension = true) (batch : Int) :
    (setDimension batch d).nanFree = d.nanFree := by
  have hd := nanFree_of_isOf_dimension h
  rw [hd, nanFree_iff]
  intro p hp
  rw [setDimension_eq] at hp
  rcases mem_put hp with rfl | hp
  · rfl
  · exact nanFree_iff.1 hd p (mem_of_mem_erase hp)

end Message

section Patch

variable {batch : Int} {model model' graph graph' : Message} {bytes out : Bytes}

/-- Setting the two dimensions of a model takes no NaN away and adds none. -/
theorem nanFree_setBoth (hmodel : model.isOf .model = true)
    (hdims : ∀ slot : Slot, ∃ d, model.childAt? slot.dimensionPath = some d) (batch : Int) :
    (setBoth batch model).nanFree = model.nanFree := by
  have hset : ∀ slot d, model.childAt? (Slot.dimensionPath slot) = some d →
      (setDimension batch d).nanFree = d.nanFree := fun slot d hd =>
    nanFree_setDimension (isOf_childAt? hmodel (childTypeAt?_dimensionPath slot) hd) batch
  obtain ⟨dIn, hin⟩ := hdims .input
  obtain ⟨dOut, hout⟩ := hdims .output
  have hout' : (model.modifyAt Slot.input.dimensionPath (setDimension batch)).childAt?
      Slot.output.dimensionPath = some dOut := by
    rw [← hout, Slot.dimensionPath_eq, Slot.dimensionPath_eq]
    exact childAt?_modifyAt_of_ne Slot.field_input_ne_output model _
  rw [setBoth, nanFree_modifyAt hout' (hset .output dOut hout),
    nanFree_modifyAt hin (hset .input dIn hin)]

/-- A patch that decodes to the edited model is accepted exactly if the model has no NaN. -/
theorem accept_self (hout : decode? .model out = some model) :
    accept model out = if model.nanFree then .ok out else .error .unexpected := by
  rw [accept, hout]
  simp only [agrees_self_iff]

/-- A model with a weight of zero is accepted as a patch of itself, and one with a NaN is not. -/
example :
    let acceptSelf : Bytes → Option Bytes := fun bytes =>
      (decode? .model bytes).bind fun model => (accept model bytes).toOption
    let zero : Bytes := [0x3A, 0x08, 0x2A, 0x06, 0x22, 0x04, 0x00, 0x00, 0x00, 0x00]
    let nan : Bytes := [0x3A, 0x08, 0x2A, 0x06, 0x22, 0x04, 0x00, 0x00, 0xC0, 0x7F]
    acceptSelf zero = some zero ∧ acceptSelf nan = none := by
  decide +kernel

/-- The encoding of a model that lacks nothing is patched, and the patch decodes to the edited
model. It is given up all the same if there is a NaN in the model. -/
theorem pinBatch_encode_of_missing? (batch : Int64) (hmodel : model.isOf .model = true)
    (hdec : (decode? .model (encode model)).isSome = true)
    (hlen : (encode model).length < 2 ^ 63) (hmissing : missing? model = none) :
    ∃ out, pinBoth batch.toInt (encode model) = .ok out ∧
      decode? .model out = some (setBoth batch.toInt model) ∧
      pinBatch batch.toInt (encode model) =
        if model.nanFree then .ok out else .error .unexpected := by
  have hround := decode?_encode hmodel (by omega) hdec
  have hplain : ∀ slot : Slot, PlainAlong slot.dimensionPath .model (encode model) := fun slot =>
    ((roundTrips_iff slot).1 hround).plainAlong (by omega) (childTypeAt?_dimensionPath slot)
  have hdims : ∀ slot : Slot, ∃ d, model.childAt? slot.dimensionPath = some d := fun slot =>
    exists_dimension hround (hplain slot) hmissing
  obtain ⟨out, hpin, hout⟩ :=
    pinBoth_of_plain batch.le_toInt batch.toInt_lt hround hplain hmissing hlen
  refine ⟨out, hpin, hout, ?_⟩
  rw [pinBatch_eq hround, hmissing, hpin, ← nanFree_setBoth hmodel hdims batch.toInt]
  exact accept_self hout

/-- The encoding of a model is patched exactly if the model lacks nothing and has no NaN. -/
theorem pinBatch_encode_ok_iff {batch : Int64} (hmodel : model.isOf .model = true)
    (hdec : (decode? .model (encode model)).isSome = true)
    (hlen : (encode model).length < 2 ^ 63) :
    (∃ out, pinBatch batch.toInt (encode model) = .ok out) ↔
      missing? model = none ∧ model.nanFree = true := by
  cases hmissing : missing? model with
  | some e =>
    have hround := decode?_encode hmodel (by omega) hdec
    simp [pinBatch_of_missing? batch.toInt hround hmissing]
  | none =>
    obtain ⟨out, -, -, hpin⟩ := pinBatch_encode_of_missing? batch hmodel hdec hlen hmissing
    rw [hpin]
    cases model.nanFree <;> simp

/-- What a model lacks is seen from the first input and the first output of its graph. -/
theorem missing?_congr (hgraph : model.child? 7 = some graph)
    (hgraph' : model'.child? 7 = some graph')
    (hvalues : ∀ slot : Slot, graph.child? slot.field = graph'.child? slot.field) :
    missing? model = missing? model' := by
  have hat : ∀ slot, missingAt? graph slot = missingAt? graph' slot := by
    intro slot
    rw [missingAt?, missingAt?, hvalues]
  simp only [missing?, hgraph, hgraph', hat]

/-- Of two models whose graphs have the same first input and the same first output, either both
encodings are patched or neither is, if both models have a NaN or neither has. -/
theorem pinBatch_ok_iff_of_same_values {batch : Int64} (hmodel : model.isOf .model = true)
    (hmodel' : model'.isOf .model = true)
    (hdec : (decode? .model (encode model)).isSome = true)
    (hdec' : (decode? .model (encode model')).isSome = true)
    (hlen : (encode model).length < 2 ^ 63) (hlen' : (encode model').length < 2 ^ 63)
    (hgraph : model.child? 7 = some graph) (hgraph' : model'.child? 7 = some graph')
    (hvalues : ∀ slot : Slot, graph.child? slot.field = graph'.child? slot.field)
    (hnan : model.nanFree = model'.nanFree) :
    (∃ out, pinBatch batch.toInt (encode model) = .ok out) ↔
      ∃ out, pinBatch batch.toInt (encode model') = .ok out := by
  rw [pinBatch_encode_ok_iff hmodel hdec hlen, pinBatch_encode_ok_iff hmodel' hdec' hlen',
    missing?_congr hgraph hgraph' hvalues, hnan]

/-- A value with one dimension, of which nothing is said. -/
def shapedValue : Message := [(2, .message [(1, .message [(2, .message [(1, .message [])])])])]

/-- A graph with a constant, one input and one output. -/
def weightedGraph (weights : List Single) : Message :=
  [(5, .message [(4, .floats weights)]), (11, .message shapedValue), (12, .message shapedValue)]

def weightedModel (weights : List Single) : Message := [(7, .message (weightedGraph weights))]

/-- Zeros and infinities make no difference. -/
theorem pinBatch_ok_iff_of_same_values_weights :
    let model := weightedModel [Binary.zero true]
    let model' := weightedModel [Binary.infinity true, Binary.infinity false]
    model.isOf .model = true ∧ model'.isOf .model = true ∧
      (decode? .model (encode model)).isSome = true ∧
      (decode? .model (encode model')).isSome = true ∧
      (encode model).length < 2 ^ 63 ∧ (encode model').length < 2 ^ 63 ∧
      model.nanFree = model'.nanFree ∧
      ((∃ out, pinBatch (4 : Int64).toInt (encode model) = .ok out) ↔
        ∃ out, pinBatch (4 : Int64).toInt (encode model') = .ok out) := by
  intro model model'
  have hmodel : model.isOf .model = true := by decide +kernel
  have hmodel' : model'.isOf .model = true := by decide +kernel
  have hdec : (decode? .model (encode model)).isSome = true := by decide +kernel
  have hdec' : (decode? .model (encode model')).isSome = true := by decide +kernel
  have hlen : (encode model).length < 2 ^ 63 := by decide +kernel
  have hlen' : (encode model').length < 2 ^ 63 := by decide +kernel
  have hnan : model.nanFree = model'.nanFree := by decide +kernel
  have hvalues : ∀ slot : Slot, (weightedGraph [Binary.zero true]).child? slot.field =
      (weightedGraph [Binary.infinity true, Binary.infinity false]).child? slot.field := by
    intro slot
    cases slot <;> rfl
  exact ⟨hmodel, hmodel', hdec, hdec', hlen, hlen', hnan,
    pinBatch_ok_iff_of_same_values hmodel hmodel' hdec hdec' hlen hlen' rfl rfl hvalues hnan⟩

/-- A NaN among the weights makes the difference: the patch decodes to the edited model, and is given
up. -/
theorem pinBatch_nan_weight :
    let model := weightedModel [Binary.zero false]
    let model' := weightedModel [Binary.nan false]
    model.isOf .model = true ∧ model'.isOf .model = true ∧
      (decode? .model (encode model)).isSome = true ∧
      (decode? .model (encode model')).isSome = true ∧
      (∃ graph graph', model.child? 7 = some graph ∧ model'.child? 7 = some graph' ∧
        ∀ slot : Slot, graph.child? slot.field = graph'.child? slot.field) ∧
      (∃ out, pinBatch (4 : Int64).toInt (encode model) = .ok out) ∧
      pinBatch (4 : Int64).toInt (encode model') = .error .unexpected ∧
      ∃ out edited, pinBoth (4 : Int64).toInt (encode model') = .ok out ∧
        setBatch (4 : Int64).toInt model' = .ok edited ∧ decode? .model out = some edited := by
  intro model model'
  have hmodel : model.isOf .model = true := by decide +kernel
  have hmodel' : model'.isOf .model = true := by decide +kernel
  have hdec : (decode? .model (encode model)).isSome = true := by decide +kernel
  have hdec' : (decode? .model (encode model')).isSome = true := by decide +kernel
  have hmissing : missing? model = none := rfl
  have hmissing' : missing? model' = none := rfl
  obtain ⟨out, hpin, hout, hreject⟩ := pinBatch_encode_of_missing? 4 hmodel' hdec' (by decide +kernel)
    hmissing'
  refine ⟨hmodel, hmodel', hdec, hdec', ⟨_, _, rfl, rfl, ?_⟩, ?_, hreject, out, _, hpin,
    setBatch_eq_ok_iff.2 ⟨hmissing', rfl⟩, hout⟩
  · intro slot
    cases slot <;> rfl
  · exact (pinBatch_encode_ok_iff hmodel hdec (by decide +kernel)).2 ⟨hmissing, rfl⟩

end Patch

end QuantClassifier.Onnx
