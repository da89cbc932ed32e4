import QuantClassifier.Proofs.Onnx.BatchPatch

/-!
# What a patch leaves as it was

A patched model is compared with the model it came from, message by message along the paths to the
two dimensions. Outside the dimensions the records are the same, but for the payload and the length
of those that lead on to a dimension; a dimension keeps all records but those of its value
(`frame_of_update`). Nothing is asked of the model: it may hold fields that no schema knows, in any
order and spelling.
-/

namespace QuantClassifier.Onnx

open Wire

/-- A number that continues a path towards the dimension of some slot. -/
def IsNextStep (path : List Nat) (number : Nat) : Prop :=
  ∃ slot : Slot, path ++ [number] <+: slot.dimensionPath

section Frame

variable {batch : Int} {bytes out old new : Bytes} {number : Nat} {path rest : List Nat}
  {slot : Slot}

theorem isNextStep_of_append (h : path ++ number :: rest = slot.dimensionPath) :
    IsNextStep path number := by
  refine ⟨slot, rest, ?_⟩
  rw [List.append_assoc]
  exact h

theorem isNextStep_model : IsNextStep [] 7 := ⟨.input, [11, 2, 1, 2, 1], rfl⟩

theorem isNextStep_graph (slot : Slot) : IsNextStep [7] slot.field := ⟨slot, [2, 1, 2, 1], rfl⟩

/-- The message that an update starts at: a dimension, if there is no way to go, and otherwise one
in which the update takes a step. -/
theorem frame_of_update {steps : Nat → Prop}
    (hsteps : ∀ number rest', rest = number :: rest' → steps number)
    (h : update (pinDimension batch) rest old = .ok (some new)) (hlen : new.length < 2 ^ 64) :
    ∃ records records', Record.readAll old = .ok records ∧ Record.readAll new = .ok records' ∧
      (rest = [] → records' = valueRecord batch :: records.filter isKept) ∧
      (rest ≠ [] → SameBut steps records records') := by
  cases rest with
  | nil =>
    obtain ⟨old', new', hold, hpin, hnew⟩ := update_eq_ok_some_iff.1 h
    cases hold
    cases hnew
    obtain ⟨records, hall, rfl⟩ := pinDimension_eq_ok_iff.1 hpin
    refine ⟨records, _, hall, readAll_pinned hall batch, ?_, ?_⟩
    · intro _
      rfl
    · intro hne
      exact absurd rfl hne
  | cons number rest =>
    have hnumber := hsteps number rest rfl
    obtain ⟨records, records', hall, hall', hsame⟩ := sameBut_of_update hnumber h hlen
    refine ⟨records, records', hall, hall', ?_, ?_⟩
    · intro he
      cases he
    · intro _
      exact hsame

/-- A patch replaces the graph by one that was updated twice, and leaves the records around it. -/
theorem graph_of_pinBatch (h : pinBatch batch bytes = .ok out) :
    ∃ records step mid graph, Record.readAll bytes = .ok records ∧
      records.find? (Record.isStep 7) = some step ∧
      update (pinDimension batch) (Slot.input.field :: [2, 1, 2, 1]) step.payload =
        .ok (some mid) ∧
      update (pinDimension batch) (Slot.output.field :: [2, 1, 2, 1]) mid = .ok (some graph) ∧
      mid.length < 2 ^ 64 ∧ graph.length < 2 ^ 64 ∧
      out = Record.writeAll (replaceFirst (Record.isStep 7) (.delimited 7 graph) records) := by
  obtain ⟨model, actual, -, -, hpin, hactual, -⟩ := pinBatch_eq_ok_iff.1 h
  obtain ⟨bytes', hin, hout⟩ := pinBoth_eq_ok_iff.1 hpin
  obtain ⟨records, step, mid, hall, hstep, hmid, rfl⟩ := update_cons_eq_ok_some_iff.1 hin
  obtain ⟨records', step', graph, hall', hstep', hgraph, rfl⟩ := update_cons_eq_ok_some_iff.1 hout
  have hmidLen : mid.length < 2 ^ 64 := by
    apply length_lt_of_readAll_replaceFirst hall hstep
    rw [hall']
    simp
  have hself := Record.isStep_delimited 7 mid
  cases (readAll_replaceFirst hall hstep hmidLen).symm.trans hall'
  cases (find?_replaceFirst_self hself hstep).symm.trans hstep'
  have hgraphLen : graph.length < 2 ^ 64 := by
    apply length_lt_of_readAll_replaceFirst hall' hstep'
    rw [decode?, decodeInto_eq] at hactual
    rcases readAll_of_decodeRecords hactual with ⟨rs, hrs⟩ | ⟨number, hrs⟩
    · rw [hrs]
      simp
    · rw [hrs]
      simp
  refine ⟨records, step, mid, graph, hall, hstep, hmid, hgraph, hmidLen, hgraphLen, ?_⟩
  rw [replaceFirst_replaceFirst_self hself]

/-- Below the graph each path is changed by the update of its own slot only. -/
theorem exists_update_below_graph {msg mid graph : Bytes}
    (hin : update (pinDimension batch) (Slot.input.field :: [2, 1, 2, 1]) msg = .ok (some mid))
    (hout : update (pinDimension batch) (Slot.output.field :: [2, 1, 2, 1]) mid = .ok (some graph))
    (hmid : mid.length < 2 ^ 64) (hgraph : graph.length < 2 ^ 64)
    (hpath : path ++ rest = [2, 1, 2, 1]) :
    ∃ old new, select? (slot.field :: path) msg = some old ∧
      select? (slot.field :: path) graph = some new ∧
      update (pinDimension batch) rest old = .ok (some new) ∧ new.length < 2 ^ 64 := by
  rw [← hpath, ← List.cons_append] at hin hout
  obtain ⟨oldIn, newIn, holdIn, hupdateIn, hrepIn⟩ := exists_update_of_update_append hin
  obtain ⟨oldOut, newOut, holdOut, hupdateOut, hrepOut⟩ := exists_update_of_update_append hout
  have hleIn := length_le_of_replace? hrepIn
  have hleOut := length_le_of_replace? hrepOut
  cases slot with
  | input =>
    refine ⟨oldIn, newIn, holdIn, ?_, hupdateIn, by omega⟩
    rw [select?_replace?_of_ne Slot.field_input_ne_output.symm hrepOut hgraph]
    exact select?_replace? hrepIn hmid
  | output =>
    refine ⟨oldOut, newOut, ?_, select?_replace? hrepOut hgraph, hupdateOut, by omega⟩
    rw [← select?_replace?_of_ne Slot.field_input_ne_output hrepIn hmid]
    exact holdOut

/-- A patched model differs from the model it came from in the two dimensions alone. On every path
that leads to one of them, both models select a message. Where the path has not reached the
dimension, the two messages have the same records, up to the ones that lead on; where it has, the
new message begins with a record of the batch size, and the records of other fields follow as they
were. -/
theorem pinBatch_frame {batch : Int64} (h : pinBatch batch.toInt bytes = .ok out)
    (hpath : path ++ rest = slot.dimensionPath) :
    ∃ old new records records',
      select? path bytes = some old ∧ select? path out = some new ∧
      Record.readAll old = .ok records ∧ Record.readAll new = .ok records' ∧
      (rest ≠ [] → SameBut (IsNextStep path) records records') ∧
      (rest = [] → records' = valueRecord batch.toInt :: records.filter isKept ∧
        Scalar.int64.read? (valueRecord batch.toInt).payload = some (.int batch.toInt)) := by
  obtain ⟨all, step, mid, graph, hall, hstep, hin, hout, hmid, hgraph, rfl⟩ := graph_of_pinBatch h
  have hall' := readAll_replaceFirst hall hstep hgraph
  have hself := Record.isStep_delimited 7 graph
  have hstep' := find?_replaceFirst_self hself hstep
  have hread := read?_encodeInt batch.le_toInt batch.toInt_lt
  have hsteps : ∀ number rest', rest = number :: rest' → IsNextStep path number := by
    rintro number rest' rfl
    exact isNextStep_of_append hpath
  match path with
  | [] =>
    refine ⟨bytes, _, all, _, rfl, rfl, hall, hall', ?_, ?_⟩
    · intro _
      exact sameBut_replaceFirst isNextStep_model graph all
    · rintro rfl
      cases hpath
  | [number] =>
    obtain ⟨rfl, rfl⟩ : number = 7 ∧ rest = slot.field :: [2, 1, 2, 1] := by
      simpa [Slot.dimensionPath] using hpath
    obtain ⟨records, records₁, hrecords, hrecords₁, hsame⟩ :=
      sameBut_of_update (isNextStep_graph .input) hin hmid
    obtain ⟨records₁', records', hrecords₁', hrecords', hsame'⟩ :=
      sameBut_of_update (isNextStep_graph .output) hout hgraph
    cases hrecords₁.symm.trans hrecords₁'
    have hold : select? [7] bytes = some step.payload := select?_cons hall hstep
    have hnew : select? [7] _ = some graph := select?_cons hall' hstep'
    refine ⟨step.payload, graph, records, records', hold, hnew, hrecords, hrecords', ?_, ?_⟩
    · intro _
      exact hsame.trans hsame'
    · intro he
      cases he
  | number :: number' :: path =>
    obtain ⟨rfl, rfl, hpath'⟩ :
        number = 7 ∧ number' = slot.field ∧ path ++ rest = [2, 1, 2, 1] := by
      simpa [Slot.dimensionPath] using hpath
    obtain ⟨old, new, hold, hnew, hupdate, hlen⟩ :=
      exists_update_below_graph hin hout hmid hgraph hpath'
    obtain ⟨records, records', hrecords, hrecords', hend, hway⟩ :=
      frame_of_update hsteps hupdate hlen
    refine ⟨old, new, records, records', ?_, ?_, hrecords, hrecords', hway, ?_⟩
    · rw [select?_cons hall hstep, hold]
    · rw [select?_cons hall' hstep', Record.payload_delimited, hnew]
    · intro he
      exact ⟨hend he, hread⟩

/-- In the graph of the loose model both steps are taken, and the unknown field between them stays.
-/
theorem pinBatch_frame_looseModel :
    pinBatch (4 : Int64).toInt looseModel = .ok pinnedLooseModel ∧
    [7] ++ [11, 2, 1, 2, 1] = Slot.input.dimensionPath ∧
    ∃ old new records records',
      select? [7] looseModel = some old ∧ select? [7] pinnedLooseModel = some new ∧
      Record.readAll old = .ok records ∧ Record.readAll new = .ok records' ∧
      SameBut (IsNextStep [7]) records records' := by
  have hpath : [7] ++ [11, 2, 1, 2, 1] = Slot.input.dimensionPath := rfl
  obtain ⟨old, new, records, records', hold, hnew, hrecords, hrecords', hway, -⟩ :=
    pinBatch_frame pinBatch_looseModel hpath
  exact ⟨pinBatch_looseModel, hpath, old, new, records, records', hold, hnew, hrecords, hrecords',
    hway (by decide)⟩

end Frame

end QuantClassifier.Onnx
