import QuantClassifier.Proofs.Wire.Frame

/-!
# Updates are lawful

An update walks along its path and has three ways to end. It gives nothing where the walk comes to a
message without the next step (`StopsShort`), fails where it comes to one that does not split, and
otherwise does to the selected payload what its function does (`update_of_select?`). What it gives
then splits again at every level of the path, whatever the function wrote, and leads to what was
written (`update_lawful`).
-/

namespace QuantClassifier.Wire

/-- The walk along a path comes to a message that splits into records, none of which leads on. -/
def StopsShort (path : List Nat) (msg : Bytes) : Prop :=
  ∃ front number back message records, path = front ++ number :: back ∧
    select? front msg = some message ∧ Record.readAll message = .ok records ∧
    records.find? (Record.isStep number) = none

/-- Every message that the walk reaches before the end of the path splits into records. -/
def SplitsAlong (path : List Nat) (msg : Bytes) : Prop :=
  ∀ front number back message, path = front ++ number :: back →
    select? front msg = some message → ∃ records, Record.readAll message = .ok records

section Walk

variable {ε : Type} {leaf : Bytes → Except ε Bytes} {number : Nat} {path : List Nat}
  {msg old out : Bytes} {records : List Record} {step : Record}

theorem not_stopsShort_nil : ¬ StopsShort [] msg := by
  rintro ⟨front, number, back, message, records, hpath, -⟩
  cases front <;> cases hpath

theorem stopsShort_cons : StopsShort (number :: path) msg ↔
    ∃ records, Record.readAll msg = .ok records ∧
      (records.find? (Record.isStep number) = none ∨
        ∃ step, records.find? (Record.isStep number) = some step ∧
          StopsShort path step.payload) := by
  constructor
  · rintro ⟨front, number', back, message, records, hpath, hsel, hall, hnone⟩
    cases front with
    | nil =>
      cases hpath
      cases hsel
      exact ⟨records, hall, Or.inl hnone⟩
    | cons k front =>
      cases hpath
      obtain ⟨records', step, hall', hstep, hsel⟩ := select?_cons_eq_some_iff.1 hsel
      exact ⟨records', hall', Or.inr ⟨step, hstep, front, number', back, message, records, rfl,
        hsel, hall, hnone⟩⟩
  · rintro ⟨records, hall, hnone | ⟨step, hstep, front, number', back, message, records', rfl, hsel,
      hall', hnone⟩⟩
    · exact ⟨[], number, path, msg, records, rfl, rfl, hall, hnone⟩
    · exact ⟨number :: front, number', back, message, records', rfl,
        select?_cons_eq_some_iff.2 ⟨records, step, hall, hstep, hsel⟩, hall', hnone⟩

/-- Where a path leads on, the walk stops short behind it or not at all. -/
theorem stopsShort_append {stem : List Nat} (h : select? stem msg = some old) :
    StopsShort (stem ++ path) msg ↔ StopsShort path old := by
  induction stem generalizing msg with
  | nil =>
    cases h
    rfl
  | cons k stem ih =>
    obtain ⟨records, step, hall, hstep, h⟩ := select?_cons_eq_some_iff.1 h
    rw [List.cons_append, stopsShort_cons, ← ih h]
    simp only [hall, hstep, Except.ok.injEq, exists_eq_left', reduceCtorEq, Option.some.injEq,
      false_or]

theorem splitsAlong_nil : SplitsAlong [] msg := by
  intro front number back message hpath
  cases front <;> cases hpath

theorem splitsAlong_cons : SplitsAlong (number :: path) msg ↔
    ∃ records, Record.readAll msg = .ok records ∧
      ∀ step, records.find? (Record.isStep number) = some step →
        SplitsAlong path step.payload := by
  constructor
  · intro h
    obtain ⟨records, hall⟩ := h [] number path msg rfl rfl
    refine ⟨records, hall, ?_⟩
    rintro step hstep front number' back message rfl hsel
    exact h (number :: front) number' back message rfl
      (select?_cons_eq_some_iff.2 ⟨records, step, hall, hstep, hsel⟩)
  · rintro ⟨records, hall, hnext⟩ front number' back message hpath hsel
    cases front with
    | nil =>
      cases hsel
      exact ⟨records, hall⟩
    | cons k front =>
      cases hpath
      obtain ⟨records', step, hall', hstep, hsel⟩ := select?_cons_eq_some_iff.1 hsel
      cases hall.symm.trans hall'
      exact hnext step hstep front number' back message rfl hsel

/-- Where the walk stops short does not change by a write on a path that leaves its own. -/
theorem stopsShort_replace?_of_diverging {stem rest : List Nat} {other : Nat} {new : Bytes}
    (hne : number ≠ other) (h : replace? new (stem ++ number :: path) msg = some out)
    (hlen : out.length < 2 ^ 64) :
    StopsShort (stem ++ other :: rest) out ↔ StopsShort (stem ++ other :: rest) msg := by
  obtain ⟨old, written, hold, hwritten, hrep⟩ := replace?_append_eq_some_iff.1 h
  have hwrittenLen := length_le_of_replace? hrep
  rw [stopsShort_append (select?_replace? hrep hlen), stopsShort_append hold]
  obtain ⟨records, step, inner, hall, hstep, -, rfl⟩ := replace?_cons_eq_some_iff.1 hwritten
  have hinnerLen := length_le_of_replaceFirst hstep inner
  have hall' := readAll_replaceFirst hall hstep (show inner.length < 2 ^ 64 by omega)
  have hfind := find?_replaceFirst_of_disjoint (Record.not_isStep_of_ne hne)
    (Record.not_isStep_of_ne hne _ (Record.isStep_delimited number inner)) records
  simp only [stopsShort_cons, hall, hall', hfind, Except.ok.injEq, exists_eq_left']

/-! ## One level of an update -/

theorem update_cons_of_error {e : Error} (hall : Record.readAll msg = .error e) :
    update leaf (number :: path) msg = .error (.malformed e) := by
  rw [update, hall]
  rfl

theorem update_cons_of_none (hall : Record.readAll msg = .ok records)
    (hnone : records.find? (Record.isStep number) = none) :
    update leaf (number :: path) msg = .ok none := by
  rw [update, hall]
  simp only [mapError_ok, bind, Except.bind, splitAtFirst_eq_none_iff.2 hnone]
  rfl

theorem update_cons_of_some (hall : Record.readAll msg = .ok records)
    (hstep : records.find? (Record.isStep number) = some step) :
    update leaf (number :: path) msg =
      (update leaf path step.payload).map (·.map fun inner =>
        Record.writeAll
          (replaceFirst (Record.isStep number) (.delimited number inner) records)) := by
  obtain ⟨before, after, hsplit⟩ := exists_splitAtFirst hstep
  rw [update, hall]
  simp only [mapError_ok, bind, Except.bind, hsplit, replaceFirst_of_splitAtFirst hsplit]
  cases update leaf path step.payload with
  | error e => rfl
  | ok inner? => cases inner? <;> rfl

/-! ## The three ways to end -/

/-- An update gives nothing exactly where the walk stops short. -/
theorem update_eq_ok_none_iff : update leaf path msg = .ok none ↔ StopsShort path msg := by
  induction path generalizing msg with
  | nil =>
    simp only [not_stopsShort_nil, iff_false, update, bind_eq_ok_iff, pure_eq_ok_iff]
    rintro ⟨inner, -, h⟩
    cases h
  | cons number path ih =>
    rw [stopsShort_cons]
    cases hall : Record.readAll msg with
    | error e => simp [update_cons_of_error hall]
    | ok records =>
      cases hstep : records.find? (Record.isStep number) with
      | none => simp only [update_cons_of_none hall hstep, Except.ok.injEq, exists_eq_left', hstep,
          true_or]
      | some step =>
        simp only [update_cons_of_some hall hstep, Except.ok.injEq, exists_eq_left', hstep,
          reduceCtorEq, Option.some.injEq, false_or, ← ih]
        rcases update leaf path step.payload with e | _ | inner <;> simp [Except.map]

/-- An update fails at a message that does not split. -/
theorem exists_malformed_of_not_splitsAlong (leaf : Bytes → Except ε Bytes)
    (h : ¬ SplitsAlong path msg) : ∃ e, update leaf path msg = .error (.malformed e) := by
  induction path generalizing msg with
  | nil => exact absurd splitsAlong_nil h
  | cons number path ih =>
    cases hall : Record.readAll msg with
    | error e => exact ⟨e, update_cons_of_error hall⟩
    | ok records =>
      cases hstep : records.find? (Record.isStep number) with
      | none =>
        refine absurd (splitsAlong_cons.2 ⟨records, hall, ?_⟩) h
        intro step hstep'
        rw [hstep] at hstep'
        cases hstep'
      | some step =>
        have hnext : ¬ SplitsAlong path step.payload := by
          intro hnext
          refine h (splitsAlong_cons.2 ⟨records, hall, ?_⟩)
          intro step' hstep'
          cases hstep.symm.trans hstep'
          exact hnext
        obtain ⟨e, he⟩ := ih hnext
        rw [update_cons_of_some hall hstep, he]
        exact ⟨e, rfl⟩

/-- Otherwise the walk reaches the end of the path. -/
theorem exists_select? (hsplits : SplitsAlong path msg) (hshort : ¬ StopsShort path msg) :
    ∃ old, select? path msg = some old := by
  induction path generalizing msg with
  | nil => exact ⟨msg, rfl⟩
  | cons number path ih =>
    obtain ⟨records, hall, hnext⟩ := splitsAlong_cons.1 hsplits
    cases hstep : records.find? (Record.isStep number) with
    | none => exact absurd (stopsShort_cons.2 ⟨records, hall, Or.inl hstep⟩) hshort
    | some step =>
      have hshort' : ¬ StopsShort path step.payload := by
        intro h
        exact hshort (stopsShort_cons.2 ⟨records, hall, Or.inr ⟨step, hstep, h⟩⟩)
      rw [select?_cons hall hstep]
      exact ih (hnext step hstep) hshort'

/-- Where a payload is selected, an update is the function and a write. -/
theorem update_of_select? (leaf : Bytes → Except ε Bytes) (hold : select? path msg = some old) :
    update leaf path msg = ((leaf old).mapError .leaf).map fun new => replace? new path msg := by
  induction path generalizing msg with
  | nil =>
    cases hold
    rw [update]
    cases leaf old <;> rfl
  | cons number path ih =>
    obtain ⟨records, step, hall, hstep, hold⟩ := select?_cons_eq_some_iff.1 hold
    rw [update_cons_of_some hall hstep, ih hold]
    cases leaf old with
    | error e => rfl
    | ok new => exact congrArg Except.ok (replace?_cons hall hstep).symm

/-- Along its path an update leaves all records as they were but those that it enters. -/
theorem sameBut_along (h : update leaf path msg = .ok (some out)) (hlen : out.length < 2 ^ 64)
    {front back : List Nat} (hpath : path = front ++ number :: back) :
    ∃ message message' records records',
      select? front msg = some message ∧ select? front out = some message' ∧
      Record.readAll message = .ok records ∧ Record.readAll message' = .ok records' ∧
      SameBut (· = number) records records' := by
  subst hpath
  obtain ⟨message, message', hmessage, hupdate, hrep⟩ := exists_update_of_update_append h
  have hle := length_le_of_replace? hrep
  obtain ⟨records, records', hall, hall', hsame⟩ : ∃ records records',
      Record.readAll message = .ok records ∧ Record.readAll message' = .ok records' ∧
        SameBut (· = number) records records' :=
    sameBut_of_update rfl hupdate (by omega)
  exact ⟨message, message', records, records', hmessage, select?_replace? hrep hlen, hall, hall',
    hsame⟩

end Walk

/-- An update is lawful. It gives nothing exactly if the walk stops short, and fails where the walk
comes to a message that does not split. Otherwise a payload is selected, and if the function fails
on it, the update fails in the same way. If the function writes new bytes, whatever they are, the
update gives a message in which the path selects them, and which splits at every level of the path
into as many records as before, all of them as they were but the ones on the path, which keep their
number and type. No buffer holds `2 ^ 64` bytes, so that every length can be written. -/
theorem update_lawful {ε : Type} (leaf : Bytes → Except ε Bytes) (path : List Nat) (msg : Bytes) :
    (update leaf path msg = .ok none ↔ StopsShort path msg) ∧
    (¬ SplitsAlong path msg → ∃ e, update leaf path msg = .error (.malformed e)) ∧
    (SplitsAlong path msg → ¬ StopsShort path msg → ∃ old, select? path msg = some old ∧
      (∀ e, leaf old = .error e → update leaf path msg = .error (.leaf e)) ∧
      (∀ new, leaf old = .ok new → ∃ out, update leaf path msg = .ok (some out) ∧
        (out.length < 2 ^ 64 → select? path out = some new ∧
          ∀ front number back, path = front ++ number :: back →
            ∃ message message' records records',
              select? front msg = some message ∧ select? front out = some message' ∧
              Record.readAll message = .ok records ∧ Record.readAll message' = .ok records' ∧
              SameBut (· = number) records records'))) := by
  refine ⟨update_eq_ok_none_iff, exists_malformed_of_not_splitsAlong leaf, ?_⟩
  intro hsplits hshort
  obtain ⟨old, hold⟩ := exists_select? hsplits hshort
  have hupdate := update_of_select? leaf hold
  refine ⟨old, hold, ?_, ?_⟩
  · intro e he
    rw [hupdate, he]
    rfl
  · intro new hnew
    obtain ⟨out, hout⟩ := exists_replace? hold new
    have hsome : update leaf path msg = .ok (some out) := by
      rw [hupdate, hnew, mapError_ok, Except.map, hout]
    refine ⟨out, hsome, ?_⟩
    intro hlen
    refine ⟨select?_replace? hout hlen, ?_⟩
    intro front number back hpath
    exact sameBut_along hsome hlen hpath

/-- A message with a number in front of the message in the same field, whose key and length are
padded, and with another message behind it. -/
def nestedMessage : Bytes :=
  [0x08, 0x05, 0x8A, 0x00, 0x86, 0x00, 0x38, 0x01, 0x3A, 0x02, 0x61, 0x62, 0x0A, 0x00]

/-- The same message with bytes that do not split in place of the two letters. -/
def rewrittenMessage : Bytes :=
  [0x08, 0x05, 0x0A, 0x05, 0x38, 0x01, 0x3A, 0x01, 0xFF, 0x0A, 0x00]

theorem update_lawful_nestedMessage :
    let leaf : Bytes → Except Unit Bytes := fun _ => .ok [0xFF]
    SplitsAlong [1, 7] nestedMessage ∧ ¬ StopsShort [1, 7] nestedMessage ∧
      update leaf [1, 7] nestedMessage = .ok (some rewrittenMessage) ∧
      select? [1, 7] rewrittenMessage = some [0xFF] ∧
      ∃ message message' records records',
        select? [1] nestedMessage = some message ∧ select? [1] rewrittenMessage = some message' ∧
        Record.readAll message = .ok records ∧ Record.readAll message' = .ok records' ∧
        SameBut (· = 7) records records' := by
  intro leaf
  have hupdate : update leaf [1, 7] nestedMessage = .ok (some rewrittenMessage) :=
    toOption_eq_some_iff.1 (by decide +kernel)
  obtain ⟨hnone, hmalformed, hlawful⟩ := update_lawful leaf [1, 7] nestedMessage
  have hshort : ¬ StopsShort [1, 7] nestedMessage := by
    rw [← hnone, hupdate]
    simp
  have hsplits : SplitsAlong [1, 7] nestedMessage := by
    apply Classical.byContradiction
    intro hno
    obtain ⟨e, he⟩ := hmalformed hno
    rw [hupdate] at he
    cases he
  obtain ⟨old, -, -, hleaf⟩ := hlawful hsplits hshort
  obtain ⟨out, hout, hwritten⟩ := hleaf [0xFF] rfl
  cases hupdate.symm.trans hout
  obtain ⟨hselect, hframe⟩ := hwritten (by decide)
  exact ⟨hsplits, hshort, hupdate, hselect, hframe [1] 7 [] rfl⟩

end QuantClassifier.Wire
