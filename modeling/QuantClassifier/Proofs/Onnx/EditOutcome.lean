import QuantClassifier.Proofs.Onnx.BatchEdit
import QuantClassifier.Proofs.Onnx.RoundTrip

/-!
# What the batch edit leaves behind

The batch edit of a decoded model ends in one of three ways (`editBatch_outcome`). A model that lacks
nothing has the first dimension of its first input and of its first output pinned and is the same
everywhere else. A model without a graph or without a dimension of an input stays as it was. But a
model that only lacks something at the output is left with the dimension of the input pinned: the
edit stops half way (`editBatch_halfShaped`).

Being the same everywhere else is said by what surrounds the messages on the way to a dimension, not
by the edit (`EditedAt`).
-/

namespace QuantClassifier.Onnx

open Wire

namespace Message

/-- The first message in a field, between what comes before and after it. -/
structure SplitsAt (m : Message) (number : Nat) (before : Message) (sub : Message)
    (after : Message) : Prop where
  eq : m = before ++ (number, .message sub) :: after
  first : ∀ p ∈ before, p.1 = number → p.2.message? = none

/-- Two messages are the same but for the message at the end of a path that enters the first message
of each field, and there they are related. -/
inductive EditedAt (r : Message → Message → Prop) : List Nat → Message → Message → Prop where
  | here {m m' : Message} : r m m' → EditedAt r [] m m'
  | enter {m before sub sub' after : Message} {number : Nat} {path : List Nat} :
      m.SplitsAt number before sub after → EditedAt r path sub sub' →
        EditedAt r (number :: path) m (before ++ (number, .message sub') :: after)

variable {m before sub sub' after : Message} {number : Nat} {path : List Nat}
  {f : Message → Message} {r : Message → Message → Prop}

theorem exists_splitsAt (h : m.children number ≠ []) :
    ∃ before sub after, m.SplitsAt number before sub after := by
  induction m with
  | nil => exact absurd rfl h
  | cons p m ih =>
    obtain ⟨k, v⟩ := p
    by_cases hfirst : k = number ∧ ∃ sub, v = .message sub
    · obtain ⟨rfl, sub, rfl⟩ := hfirst
      exact ⟨[], sub, m, rfl, fun p hp => absurd hp List.not_mem_nil⟩
    · have hv : k = number → v.message? = none := by
        rintro rfl
        cases hv : v.message? with
        | none => rfl
        | some sub =>
          cases v <;> cases hv
          exact absurd ⟨rfl, _, rfl⟩ hfirst
      rw [children_cons] at h
      obtain ⟨before, sub, after, rfl, hbefore⟩ := ih fun hnil => h (by
        rw [hnil, List.append_nil]
        split
        next hk => rw [hv hk, Option.toList_none]
        next => rfl)
      refine ⟨(k, v) :: before, sub, after, rfl, ?_⟩
      intro p hp
      rcases List.mem_cons.1 hp with rfl | hp
      · exact hv
      · exact hbefore p hp

/-- An edit of a child replaces the first message of its field. -/
theorem SplitsAt.modifyChild_eq (h : m.SplitsAt number before sub after) (f : Message → Message) :
    m.modifyChild number f = before ++ (number, .message (f sub)) :: after := by
  obtain ⟨rfl, hfirst⟩ := h
  induction before with
  | nil => exact modifyChild_cons_message ..
  | cons p before ih =>
    obtain ⟨k, v⟩ := p
    have ih := ih fun p hp => hfirst p (List.mem_cons_of_mem _ hp)
    have hv := hfirst (k, v) List.mem_cons_self
    by_cases hk : k = number
    · rw [List.cons_append, modifyChild_cons_of_message?_eq_none (hv hk), ih]
      rfl
    · rw [List.cons_append, modifyChild_cons_of_ne hk, ih]
      rfl

theorem SplitsAt.eq_of_child? (h : m.SplitsAt number before sub after)
    (hchild : m.child? number = some sub') : sub' = sub := by
  obtain ⟨rfl, hfirst⟩ := h
  rw [child?_eq_some_iff] at hchild
  induction before with
  | nil =>
    rw [List.nil_append, get?_cons, if_pos rfl] at hchild
    cases hchild
    rfl
  | cons p before ih =>
    obtain ⟨k, v⟩ := p
    rw [List.cons_append, get?_cons] at hchild
    split at hchild
    next hk =>
      cases hchild
      exact absurd (hfirst (k, .message sub') List.mem_cons_self hk) (Option.some_ne_none sub')
    next => exact ih (fun p hp => hfirst p (List.mem_cons_of_mem _ hp)) hchild

theorem children_ne_nil_of_child? (h : m.child? number = some sub) : m.children number ≠ [] := by
  rw [child?_eq_some_iff] at h
  induction m with
  | nil => cases h
  | cons p m ih =>
    obtain ⟨k, v⟩ := p
    rw [get?_cons] at h
    rw [children_cons]
    split at h
    next hk =>
      cases h
      simp [hk, Value.message?]
    next => exact fun hnil => ih h (List.append_eq_nil_iff.1 hnil).2

/-- An edit one level below, which is known for the child that is there. -/
theorem EditedAt.modifyChild (hchild : m.child? number = some sub)
    (h : EditedAt r path sub (f sub)) : EditedAt r (number :: path) m (m.modifyChild number f) := by
  obtain ⟨before, sub', after, hsplit⟩ := exists_splitsAt (children_ne_nil_of_child? hchild)
  obtain rfl := hsplit.eq_of_child? hchild
  rw [hsplit.modifyChild_eq]
  exact .enter hsplit h

/-- An edit of the last message on the way. -/
theorem editedAt_modifyChild (hchildren : m.children number ≠ []) (h : ∀ sub, r sub (f sub)) :
    EditedAt r [number] m (m.modifyChild number f) := by
  obtain ⟨before, sub, after, hsplit⟩ := exists_splitsAt hchildren
  rw [hsplit.modifyChild_eq]
  exact .enter hsplit (.here (h sub))

theorem get?_erase_self (m : Message) (number : Nat) : (m.erase number).get? number = none := by
  rw [get?_eq_none_iff]
  intro p hp
  simpa using (List.mem_filter.1 hp).2

end Message

open Message

/-- A dimension and the same dimension with a number for its value, whatever value it had. -/
structure PinnedTo (batch : Int) (dimension dimension' : Message) : Prop where
  number : dimension'.get? 1 = some (.int batch)
  symbol : dimension'.get? 2 = none
  others : (dimension'.erase 1).erase 2 = (dimension.erase 1).erase 2

theorem pinnedTo_setDimension (batch : Int) (dimension : Message) :
    PinnedTo batch dimension (setDimension batch dimension) where
  number := get?_put_self ..
  symbol := by rw [setDimension_eq, get?_put_of_ne (by decide), get?_erase_self]
  others := by rw [setDimension_eq, erase_put_self, erase_comm, erase_erase_self, erase_comm]

section Slot

variable {batch : Int} {model graph value : Message} {slot : Slot} {e : Missing}

theorem editedAt_setFirstDimension {rank : Nat} (h : rank? value = some (rank + 1)) (batch : Int) :
    EditedAt (PinnedTo batch) [2, 1, 2, 1] value (setFirstDimension batch value) := by
  simp only [rank?, Option.bind_eq_bind, Option.pure_def, Option.bind_eq_some_iff,
    Option.some_inj] at h
  obtain ⟨type, htype, tensor, htensor, shape, hshape, hlength⟩ := h
  have hdimensions : shape.children 1 ≠ [] := by
    rw [← List.length_pos_iff]
    omega
  exact .modifyChild htype (.modifyChild htensor (.modifyChild hshape
    (editedAt_modifyChild hdimensions (pinnedTo_setDimension batch))))

/-- A slot of a graph that lacks nothing has its first dimension pinned. -/
theorem editedAt_modifyAt (hgraph : model.child? 7 = some graph)
    (h : missingAt? graph slot = none) (batch : Int) :
    EditedAt (PinnedTo batch) slot.dimensionPath model
      (model.modifyAt slot.dimensionPath (setDimension batch)) := by
  unfold missingAt? at h
  split at h
  next => cases h
  next value hvalue =>
    split at h
    next rank hrank =>
      exact .modifyChild hgraph (.modifyChild hvalue (editedAt_setFirstDimension hrank batch))
    next => cases h

/-- To put an edited graph in its place is to edit the model. -/
theorem modifyChild_graph (hgraph : model.child? 7 = some graph) :
    model.modifyChild 7 (fun _ => graph.modifyChild slot.field (setFirstDimension batch)) =
      model.modifyAt slot.dimensionPath (setDimension batch) :=
  modifyChild_congr hgraph rfl

end Slot

/-- The end of the graph at which something is missing. -/
def Missing.slot? : Missing → Option Slot
  | graph => none
  | value slot => some slot
  | shape slot _ => some slot
  | dimension slot => some slot

/-- The ways in which the batch edit of a model ends. -/
inductive EditOutcome (batch : Int) (model : Message) : Message × Option Missing → Prop where
  | complete {mid model' : Message} : missing? model = none →
      EditedAt (PinnedTo batch) Slot.input.dimensionPath model mid →
      EditedAt (PinnedTo batch) Slot.output.dimensionPath mid model' →
        EditOutcome batch model (model', none)
  | untouched {e : Missing} : missing? model = some e → e.slot? ≠ some .output →
      EditOutcome batch model (model, some e)
  | halfway {e : Missing} {model' : Message} : missing? model = some e → e.slot? = some .output →
      EditedAt (PinnedTo batch) Slot.input.dimensionPath model model' →
        EditOutcome batch model (model', some e)

theorem slot?_of_missingAt? {graph : Message} {slot : Slot} {e : Missing}
    (h : missingAt? graph slot = some e) : e.slot? = some slot := by
  unfold missingAt? at h
  split at h
  next =>
    cases h
    rfl
  next =>
    split at h
    next => cases h
    next =>
      cases h
      rfl

/-- The batch edit pins both dimensions, or changes nothing, or stops half way if something is missing
at the output. -/
theorem editBatch_outcome (batch : Int) (model : Message) :
    EditOutcome batch model (editBatch batch model) := by
  cases hgraph : model.child? 7 with
  | none =>
    have hedit : editBatch batch model = (model, some .graph) := by rw [editBatch, hgraph]
    rw [hedit]
    exact .untouched (by rw [missing?, hgraph]) nofun
  | some graph =>
    have hmissing : missing? model = (missingAt? graph .input).or (missingAt? graph .output) := by
      rw [missing?, hgraph]
    unfold editBatch
    simp only [hgraph, setSlot_eq]
    cases hinput : missingAt? graph .input with
    | some e =>
      rw [hinput] at hmissing
      exact .untouched hmissing (by rw [slot?_of_missingAt? hinput]; nofun)
    | none =>
      rw [hinput, Option.none_or] at hmissing
      have hpinned := editedAt_modifyAt hgraph hinput batch
      simp only [missingAt?_modifyChild_of_ne Slot.field_input_ne_output, modifyChild_graph hgraph]
      cases houtput : missingAt? graph .output with
      | some e =>
        rw [houtput] at hmissing
        exact .halfway hmissing (slot?_of_missingAt? houtput) hpinned
      | none =>
        rw [houtput] at hmissing
        -- The graph that the second edit starts from is the one that the first edit leaves.
        have hgraph' : (model.modifyAt Slot.input.dimensionPath (setDimension batch)).child? 7 =
            some (graph.modifyChild Slot.input.field (setFirstDimension batch)) := by
          rw [modifyAt_dimensionPath, child?_modifyChild_self, hgraph, Option.map_some]
        have houtput' : missingAt? (graph.modifyChild Slot.input.field (setFirstDimension batch))
            .output = none := by
          rw [missingAt?_modifyChild_of_ne Slot.field_input_ne_output, houtput]
        refine .complete hmissing hpinned ?_
        rw [modifyChild_graph hgraph']
        exact editedAt_modifyAt hgraph' houtput' batch

/-- A model with one dimension at the input and none at the output. -/
def halfShapedModel : Message :=
  [(7, .message [
    (11, .message [(2, .message [(1, .message [(2, .message [(1, .message [])])])])]),
    (12, .message [(1, .bytes [0x79])])])]

/-- Pinning such a model fails for the output and leaves the dimension of the input pinned. -/
theorem editBatch_halfShaped :
    encode halfShapedModel = [0x3a, 0x0f, 0x5a, 0x08, 0x12, 0x06, 0x0a, 0x04, 0x12, 0x02, 0x0a, 0x00,
        0x62, 0x03, 0x0a, 0x01, 0x79] ∧
      decode? .model (encode halfShapedModel) = some halfShapedModel ∧
      (editBatch 4 halfShapedModel).2 = some (.shape .output [0x79]) ∧
      (halfShapedModel.childAt? Slot.input.dimensionPath).map (·.get? 1 |>.isSome) = some false ∧
      ((editBatch 4 halfShapedModel).1.childAt? Slot.input.dimensionPath).map (·.intOf 1) = some 4 ∧
      (editBatch 4 halfShapedModel).1 ≠ halfShapedModel := by
  refine ⟨by decide +kernel, ?_, rfl, rfl, rfl, ?_⟩
  · exact decode?_encode (by decide +kernel) (by decide +kernel) (by decide +kernel)
  · intro h
    have hnumber := congrArg
      (fun model => (model.childAt? Slot.input.dimensionPath).map (·.intOf 1)) h
    exact absurd hnumber (by decide)

end QuantClassifier.Onnx
