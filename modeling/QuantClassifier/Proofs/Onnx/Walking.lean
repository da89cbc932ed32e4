import QuantClassifier.Proofs.Onnx.Absorbing
import QuantClassifier.Proofs.Wire.Selection

/-!
# Paths in bytes and in messages

A path of field numbers is followed in the bytes of a message by `select?` and in the decoded
message by `childAt?`. Where no message on the path is split or holds a group (`PlainAlong`), what is
entered in the message is there in the bytes (`select?_of_childAt?`), and what is written at the end
of the path in the bytes is seen at its end in the message, and nowhere else
(`decodeInto_replace?`).
-/

namespace QuantClassifier.Onnx

open Wire Message

/-- No field of the message is a group. -/
def GroupFree (msg : Bytes) : Prop := ∀ number, Record.readAll msg ≠ .error (.group number)

/-- On a path through a message of a type, no message has a field that is a group, and where the
path enters a field that is not repeated, the field occurs at most once. -/
def PlainAlong : (path : List Nat) → MessageType → Bytes → Prop
  | [], _, msg => GroupFree msg
  | number :: path, t, msg =>
    GroupFree msg ∧ ∀ records, Record.readAll msg = .ok records →
      (t.isRepeated number = false → records.countP (·.number = number) ≤ 1) ∧
      ∀ step child, records.find? (Record.isStep number) = some step →
        t.childType? number = some child → PlainAlong path child step.payload

theorem groupFree_of_readAll {msg : Bytes} {records : List Record}
    (h : Record.readAll msg = .ok records) : GroupFree msg := by
  intro number hgroup
  rw [h] at hgroup
  cases hgroup

/-- Some field of the message is a group. -/
def hasGroup (msg : Bytes) : Bool :=
  match Record.readAll msg with
  | .error (.group _) => true
  | _ => false

theorem groupFree_iff {msg : Bytes} : GroupFree msg ↔ hasGroup msg = false := by
  unfold GroupFree hasGroup
  split <;> simp_all

instance decidableGroupFree (msg : Bytes) : Decidable (GroupFree msg) :=
  decidable_of_iff _ groupFree_iff.symm

instance decidablePlainAlong : ∀ path t msg, Decidable (PlainAlong path t msg)
  | [], _, msg => decidableGroupFree msg
  | number :: path, t, msg =>
    match hall : Record.readAll msg with
    | .error _ => decidable_of_iff (GroupFree msg) (by simp [PlainAlong, hall])
    | .ok records =>
      match hstep : records.find? (Record.isStep number), hchild : t.childType? number with
      | some step, some child =>
        have := decidablePlainAlong path child step.payload
        decidable_of_iff
          ((t.isRepeated number = false → records.countP (·.number = number) ≤ 1) ∧
            PlainAlong path child step.payload)
          (by simp [PlainAlong, hall, hstep, hchild, groupFree_of_readAll hall])
      | none, _ =>
        decidable_of_iff (t.isRepeated number = false → records.countP (·.number = number) ≤ 1)
          (by simp [PlainAlong, hall, hstep, groupFree_of_readAll hall])
      | _, none =>
        decidable_of_iff (t.isRepeated number = false → records.countP (·.number = number) ≤ 1)
          (by simp [PlainAlong, hall, hchild, groupFree_of_readAll hall])

namespace MessageType

/-- The type of the message at the end of a path. -/
def childTypeAt? : (path : List Nat) → MessageType → Option MessageType
  | [], t => some t
  | number :: path, t => (t.childType? number).bind (childTypeAt? path)

end MessageType

section Step

variable {enter : MessageType → Message → Bytes → Option Message} {budget number : Nat}
  {t child : MessageType} {m sub : Message} {r : Record} {records : List Record} {msg : Bytes}

theorem isStep_of_absorb {m' : Message} (hchild : t.childType? number = some child)
    (hr : r.number = number) (h : absorb enter budget t m r = some m') :
    r.isStep number = true := by
  obtain ⟨f, hf, htype⟩ := MessageType.childType?_eq_some_iff.1 hchild
  refine Record.isStep_iff.2 ⟨hr, ?_⟩
  simp only [absorb, hr, hf, Field.decode, htype] at h
  split at h
  · assumption
  · cases h

theorem exists_absorb_of_mem {m' : Message} (h : records.foldlM (absorb enter budget t) m = some m')
    (hr : r ∈ records) : ∃ b b', absorb enter budget t b r = some b' := by
  induction records generalizing m with
  | nil => cases hr
  | cons x xs ih =>
    rw [List.foldlM_cons] at h
    obtain ⟨m₁, hm₁, h⟩ := Option.bind_eq_some_iff.1 h
    rcases List.mem_cons.1 hr with rfl | hr
    · exact ⟨m, m₁, hm₁⟩
    · exact ih h hr

/-- In decoded records every record of a field of messages is a step of the field's number. -/
theorem isStep_of_foldlM {m' : Message} (hchild : t.childType? number = some child)
    (h : records.foldlM (absorb enter budget t) m = some m') (hr : r ∈ records)
    (hn : r.number = number) : r.isStep number = true := by
  obtain ⟨b, b', hb⟩ := exists_absorb_of_mem h hr
  exact isStep_of_absorb hchild hn hb

/-- What the first record of a field of messages does to the message that absorbs it. -/
theorem absorb_first (enter : MessageType → Message → Bytes → Option Message) (budget : Nat)
    (hchild : t.childType? number = some child) (hm : m.get? number = none) :
    ∃ insert : Message → Message,
      (∀ r : Record, r.isStep number = true → absorb enter budget t m r =
        (enter child [] r.payload).map insert) ∧
      ∀ sub, (insert sub).child? number = some sub ∧ (m.Ascending → (insert sub).Ascending) ∧
        ∀ g, (insert sub).modifyChild number g = insert (g sub) := by
  obtain ⟨f, hf, htype⟩ := MessageType.childType?_eq_some_iff.1 hchild
  have hn := MessageType.number_of_field? hf
  have hnone : m.child? number = none := by rw [child?, hm]; rfl
  by_cases hlabel : f.label = .repeated
  · refine ⟨fun sub => m.push number (.message sub), ?_, ?_⟩
    · intro r hr
      obtain ⟨hnumber, hwire⟩ := Record.isStep_iff.1 hr
      simp only [absorb, hnumber, hf, Field.decode, htype, hwire, if_true, hlabel, hn]
    · intro sub
      refine ⟨child?_eq_some_iff.2 (get?_push_self hm _), ?_, ?_⟩
      · intro hasc
        exact ascending_push hasc ..
      · intro g
        exact modifyChild_push_self hm sub g
  · refine ⟨fun sub => m.put number (.message sub), ?_, ?_⟩
    · intro r hr
      obtain ⟨hnumber, hwire⟩ := Record.isStep_iff.1 hr
      simp only [absorb, hnumber, hf, Field.decode, htype, hwire, if_true, hn, hnone,
        Option.getD_none]
    · intro sub
      refine ⟨child?_eq_some_iff.2 (get?_put_self ..), ?_, ?_⟩
      · intro hasc
        exact ascending_put hasc ..
      · intro g
        exact modifyChild_put_self hm sub g

/-- A number that occurs once does not occur behind its record. -/
theorem number_ne_of_countP_le {before after : List Record} {step : Record}
    (hcount : (before ++ step :: after).countP (·.number = number) ≤ 1)
    (hstep : step.number = number) : ∀ r ∈ after, r.number ≠ number := by
  intro r hr hn
  have hpos : 0 < after.countP (·.number = number) :=
    List.countP_pos_iff.2 ⟨r, hr, decide_eq_true hn⟩
  rw [List.countP_append, List.countP_cons_of_pos (by simpa using hstep)] at hcount
  omega

/-- One step of a path, in records and in the message that they decode to: either neither has the
field, or the first record of the field is its first message, and replacing the record replaces
the message. -/
theorem step_of_foldlM (hchild : t.childType? number = some child)
    (hone : t.isRepeated number = false → records.countP (·.number = number) ≤ 1)
    (h : records.foldlM (absorb enter budget t) [] = some m) :
    (records.find? (Record.isStep number) = none ∧ m.get? number = none) ∨
    ∃ step sub, records.find? (Record.isStep number) = some step ∧
      enter child [] step.payload = some sub ∧ m.child? number = some sub ∧
      ∀ inner sub', enter child [] inner = some sub' →
        (replaceFirst (Record.isStep number) (.delimited number inner) records).foldlM
          (absorb enter budget t) [] = some (m.modifyChild number fun _ => sub') := by
  have hstep : ∀ r ∈ records, r.isStep number = false → r.number ≠ number := by
    intro r hr hno hn
    rw [isStep_of_foldlM hchild h hr hn] at hno
    cases hno
  cases hfind : records.find? (Record.isStep number) with
  | none =>
    refine Or.inl ⟨rfl, ?_⟩
    rw [List.find?_eq_none] at hfind
    rw [get?_foldlM_absorb_of_ne hchild
      (fun r hr => hstep r hr (Bool.not_eq_true _ ▸ hfind r hr)) h]
    rfl
  | some step =>
    obtain ⟨before, after, hsplit⟩ := exists_splitAtFirst hfind
    obtain ⟨hrecords, hself, hbefore⟩ := eq_of_splitAtFirst hsplit
    have hfirst : ∀ r ∈ before, r.number ≠ number := by
      intro r hr
      exact hstep r (hrecords ▸ List.mem_append_left _ hr) (hbefore r hr)
    have hrest : ∀ r ∈ after, r.number ≠ number ∨ t.isRepeated number = true := by
      intro r hr
      rw [Decidable.or_iff_not_imp_right, Bool.not_eq_true]
      intro hsingle
      exact number_ne_of_countP_le (hrecords ▸ hone hsingle) (Record.isStep_iff.1 hself).1 r hr
    rw [hrecords, List.foldlM_append] at h
    obtain ⟨m₁, hm₁, h⟩ := Option.bind_eq_some_iff.1 h
    have hnone : m₁.get? number = none := get?_foldlM_absorb_of_ne hchild hfirst hm₁
    have hasc : m₁.Ascending := ascending_foldlM_absorb .nil hm₁
    obtain ⟨insert, habsorb, hinsert⟩ := absorb_first enter budget hchild hnone
    rw [List.foldlM_cons, habsorb step hself] at h
    obtain ⟨m₂, hm₂, h⟩ := Option.bind_eq_some_iff.1 h
    obtain ⟨sub, hsub, rfl⟩ := Option.map_eq_some_iff.1 hm₂
    obtain ⟨hsubChild, hsubAsc, hsubMod⟩ := hinsert sub
    obtain ⟨hm, hmod⟩ := foldlM_absorb_modifyChild hchild hrest (hsubAsc hasc) hsubChild h
    refine Or.inr ⟨step, sub, rfl, hsub, hm, ?_⟩
    intro inner sub' hinner
    rw [replaceFirst_of_splitAtFirst hsplit, List.foldlM_append, hm₁]
    simp only [Option.bind_eq_bind, Option.bind_some, List.foldlM_cons]
    rw [habsorb _ (Record.isStep_delimited number inner), Record.payload_delimited, hinner,
      Option.map_some, Option.bind_some, ← hmod, hsubMod]

/-- What is decoded and has no group splits into records that are absorbed. -/
theorem foldlM_of_decodeInto (hfree : GroupFree msg) (h : decodeInto budget t [] msg = some m) :
    ∃ records, Record.readAll msg = .ok records ∧
      records.foldlM (absorb (enterBelow budget) budget t) [] = some m := by
  rw [decodeInto_eq] at h
  rcases readAll_of_decodeRecords h with ⟨records, hall⟩ | ⟨number, hgroup⟩
  · rw [decodeRecords_of_readAll hall] at h
    exact ⟨records, hall, h⟩
  · exact absurd hgroup (hfree number)

theorem decodeInto_of_foldlM (hall : Record.readAll msg = .ok records)
    (h : records.foldlM (absorb (enterBelow budget) budget t) [] = some m) :
    decodeInto budget t [] msg = some m := by
  rw [decodeInto_eq, decodeRecords_of_readAll hall, h]

end Step

section Path

variable {path : List Nat} {budget number : Nat} {t child : MessageType} {m sub sub' : Message}
  {msg out old new : Bytes} {v : Value}

/-- One step of a path, in bytes and in the message that they decode to. -/
theorem step_of_decodeInto (hchild : t.childType? number = some child)
    (hplain : PlainAlong (number :: path) t msg)
    (h : decodeInto (budget + 1) t [] msg = some m) :
    ∃ records, Record.readAll msg = .ok records ∧
      ((records.find? (Record.isStep number) = none ∧ m.get? number = none) ∨
      ∃ step sub, records.find? (Record.isStep number) = some step ∧
        PlainAlong path child step.payload ∧ decodeInto budget child [] step.payload = some sub ∧
        m.child? number = some sub ∧
        ∀ inner sub', inner.length < 2 ^ 64 → decodeInto budget child [] inner = some sub' →
          decodeInto (budget + 1) t [] (Record.writeAll
            (replaceFirst (Record.isStep number) (.delimited number inner) records)) =
              some (m.modifyChild number fun _ => sub')) := by
  obtain ⟨hfree, hplain⟩ := hplain
  obtain ⟨records, hall, hfold⟩ := foldlM_of_decodeInto hfree h
  obtain ⟨hone, hnext⟩ := hplain records hall
  refine ⟨records, hall, ?_⟩
  rcases step_of_foldlM hchild hone hfold with hnone | ⟨step, sub, hstep, hsub, hm, hmod⟩
  · exact Or.inl hnone
  · refine Or.inr ⟨step, sub, hstep, hnext step child hstep hchild, hsub, hm, ?_⟩
    intro inner sub' hlen hinner
    exact decodeInto_of_foldlM (readAll_replaceFirst hall hstep hlen) (hmod inner sub' hinner)

/-- What a path enters in the decoded message it enters in the bytes. -/
theorem select?_of_childAt? (ht : t.childTypeAt? path = some child) (hplain : PlainAlong path t msg)
    (h : decodeInto (budget + path.length) t [] msg = some m) (hsub : m.childAt? path = some sub) :
    ∃ old, select? path msg = some old ∧ decodeInto budget child [] old = some sub := by
  induction path generalizing t msg m with
  | nil =>
    cases ht
    cases hsub
    exact ⟨msg, rfl, h⟩
  | cons number path ih =>
    obtain ⟨u, hchild, ht⟩ := Option.bind_eq_some_iff.1 ht
    obtain ⟨sub₁, hsub₁, hsub⟩ := Option.bind_eq_some_iff.1 hsub
    obtain ⟨records, hall, ⟨-, hnone⟩ | ⟨step, sub₂, hstep, hnext, henter, hsub₂, -⟩⟩ :=
      step_of_decodeInto hchild hplain h
    · rw [child?, hnone] at hsub₁
      cases hsub₁
    · cases hsub₁.symm.trans hsub₂
      rw [select?_cons hall hstep]
      exact ih ht hnext henter hsub

/-- What is written at the end of a path in the bytes is decoded at its end in the message. -/
theorem decodeInto_replace? (ht : t.childTypeAt? path = some child) (hplain : PlainAlong path t msg)
    (h : decodeInto (budget + path.length) t [] msg = some m)
    (hnew : decodeInto budget child [] new = some sub') (hrep : replace? new path msg = some out)
    (hlen : out.length < 2 ^ 64) :
    decodeInto (budget + path.length) t [] out = some (m.modifyAt path fun _ => sub') := by
  induction path generalizing t msg m out with
  | nil =>
    cases ht
    cases hrep
    exact hnew
  | cons number path ih =>
    obtain ⟨u, hchild, ht⟩ := Option.bind_eq_some_iff.1 ht
    obtain ⟨records', step', inner, hall', hstep', hinner, rfl⟩ := replace?_cons_eq_some_iff.1 hrep
    have hle := length_le_of_replaceFirst hstep' inner
    obtain ⟨records, hall, ⟨hnone, -⟩ | ⟨step, sub₁, hstep, hnext, henter, hsub₁, hmod⟩⟩ :=
      step_of_decodeInto hchild hplain h
    · cases hall.symm.trans hall'
      rw [hnone] at hstep'
      cases hstep'
    · cases hall.symm.trans hall'
      cases hstep.symm.trans hstep'
      have hdec := ih ht hnext henter hinner (by omega)
      refine (hmod inner _ (by omega) hdec).trans ?_
      exact congrArg some (modifyChild_congr hsub₁ rfl)

/-- A value of a field of messages, at the end of a path, comes with a first message. -/
theorem child?_of_get?_childAt? (ht : t.childTypeAt? (path ++ [number]) = some child)
    (hplain : PlainAlong (path ++ [number]) t msg)
    (h : decodeInto (budget + path.length + 1) t [] msg = some m)
    (hsub : m.childAt? path = some sub) (hv : sub.get? number = some v) :
    ∃ sub', sub.child? number = some sub' := by
  induction path generalizing t msg m with
  | nil =>
    cases hsub
    obtain ⟨u, hchild, -⟩ := Option.bind_eq_some_iff.1 ht
    obtain ⟨records, hall, ⟨-, hnone⟩ | ⟨step, sub', -, -, -, hsub', -⟩⟩ :=
      step_of_decodeInto hchild hplain h
    · rw [hnone] at hv
      cases hv
    · exact ⟨sub', hsub'⟩
  | cons k path ih =>
    obtain ⟨u, hchild, ht⟩ := Option.bind_eq_some_iff.1 ht
    obtain ⟨sub₁, hsub₁, hsub⟩ := Option.bind_eq_some_iff.1 hsub
    obtain ⟨records, hall, ⟨-, hnone⟩ | ⟨step, sub₂, hstep, hnext, henter, hsub₂, -⟩⟩ :=
      step_of_decodeInto hchild hplain h
    · rw [child?, hnone] at hsub₁
      cases hsub₁
    · cases hsub₁.symm.trans hsub₂
      exact ih ht hnext henter hsub

end Path

end QuantClassifier.Onnx
