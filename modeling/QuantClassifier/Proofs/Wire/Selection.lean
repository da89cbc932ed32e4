import QuantClassifier.Proofs.Wire.Reading
import QuantClassifier.Wire.Update

/-!
# The payload that a path selects

`select?` follows a path and `replace?` writes a payload in its place; an update is the one after
the other (`update_eq_ok_some_iff`). While a message keeps below `2 ^ 64` bytes the two are lawful:
what was written is selected (`select?_replace?`), of two payloads written in one place the second
stays (`replace?_replace?`), and what is written on one path is not seen on another that leaves it
(`select?_replace?_of_diverging`), so that two such writes can both be made, in either order
(`replace?_diamond`).
-/

namespace QuantClassifier.Wire

/-- Replaces the first element that passes a test. -/
def replaceFirst {α : Type} (p : α → Bool) (b : α) : List α → List α
  | [] => []
  | a :: as => if p a then b :: as else a :: replaceFirst p b as

section ReplaceFirst

variable {α : Type} {p q : α → Bool} {a b c : α} {as : List α}

theorem find?_of_splitAtFirst {before after : List α}
    (h : splitAtFirst p as = some (before, a, after)) : as.find? p = some a := by
  obtain ⟨rfl, ha, hb⟩ := eq_of_splitAtFirst h
  rw [List.find?_append, List.find?_eq_none.2 (by simpa using hb), List.find?_cons_of_pos ha]
  rfl

theorem replaceFirst_of_splitAtFirst {before after : List α}
    (h : splitAtFirst p as = some (before, a, after)) (b : α) :
    replaceFirst p b as = before ++ b :: after := by
  induction as generalizing before with
  | nil => cases h
  | cons x xs ih =>
    unfold splitAtFirst at h
    split at h
    · next hx =>
      cases h
      rw [replaceFirst, if_pos hx]
      rfl
    · next hx =>
      obtain ⟨⟨before', y, after'⟩, hs, he⟩ := Option.map_eq_some_iff.1 h
      cases he
      rw [replaceFirst, if_neg hx, ih hs]
      rfl

theorem splitAtFirst_eq_none_iff : splitAtFirst p as = none ↔ as.find? p = none := by
  induction as with
  | nil => simp [splitAtFirst]
  | cons x xs ih =>
    unfold splitAtFirst
    by_cases hx : p x = true
    · simp [hx]
    · simp [hx, ih]

theorem exists_splitAtFirst (h : as.find? p = some a) :
    ∃ before after, splitAtFirst p as = some (before, a, after) := by
  cases hs : splitAtFirst p as with
  | none =>
    rw [splitAtFirst_eq_none_iff.1 hs] at h
    cases h
  | some x =>
    obtain ⟨before, a', after⟩ := x
    cases h.symm.trans (find?_of_splitAtFirst hs)
    exact ⟨before, after, rfl⟩

theorem find?_replaceFirst_self (hb : p b = true) (h : as.find? p = some a) :
    (replaceFirst p b as).find? p = some b := by
  induction as with
  | nil => cases h
  | cons x xs ih =>
    by_cases hx : p x = true
    · simp [replaceFirst, hx, hb]
    · rw [List.find?_cons_of_neg hx] at h
      simp [replaceFirst, hx, ih h]

theorem find?_replaceFirst_of_disjoint (hd : ∀ x, p x = true → q x = false) (hb : q b = false)
    (as : List α) :
    (replaceFirst p b as).find? q = as.find? q := by
  induction as with
  | nil => rfl
  | cons x xs ih =>
    by_cases hx : p x = true
    · simp [replaceFirst, hx, hb, hd x hx]
    · simp [replaceFirst, hx, List.find?_cons, ih]

theorem replaceFirst_replaceFirst_self (hb : p b = true) :
    replaceFirst p c (replaceFirst p b as) = replaceFirst p c as := by
  induction as with
  | nil => rfl
  | cons x xs ih =>
    by_cases hx : p x = true
    · simp [replaceFirst, hx, hb]
    · simp [replaceFirst, hx, ih]

theorem replaceFirst_comm (hd : ∀ x, p x = true → q x = false) (hb : q b = false)
    (hc : p c = false) :
    replaceFirst q c (replaceFirst p b as) = replaceFirst p b (replaceFirst q c as) := by
  induction as with
  | nil => rfl
  | cons x xs ih =>
    by_cases hx : p x = true
    · simp [replaceFirst, hx, hb, hd x hx]
    · by_cases hy : q x = true
      · simp [replaceFirst, hx, hy, hc]
      · simp [replaceFirst, hx, hy, ih]

theorem replaceFirst_of_find? (h : as.find? p = some a) : replaceFirst p a as = as := by
  induction as with
  | nil => rfl
  | cons x xs ih =>
    by_cases hx : p x = true
    · rw [List.find?_cons_of_pos hx] at h
      cases h
      simp [replaceFirst, hx]
    · rw [List.find?_cons_of_neg hx] at h
      simp [replaceFirst, hx, ih h]

theorem mem_replaceFirst (h : c ∈ replaceFirst p b as) : c = b ∨ c ∈ as := by
  induction as with
  | nil => cases h
  | cons x xs ih =>
    rw [replaceFirst] at h
    split at h
    · rcases List.mem_cons.1 h with rfl | h
      · exact Or.inl rfl
      · exact Or.inr (List.mem_cons_of_mem _ h)
    · rcases List.mem_cons.1 h with rfl | h
      · exact Or.inr (List.mem_cons_self ..)
      · exact (ih h).imp_right (List.mem_cons_of_mem _)

theorem mem_replaceFirst_self (h : as.find? p = some a) (b : α) : b ∈ replaceFirst p b as := by
  induction as with
  | nil => cases h
  | cons x xs ih =>
    by_cases hx : p x = true
    · simp [replaceFirst, hx]
    · rw [List.find?_cons_of_neg hx] at h
      simp [replaceFirst, hx, ih h]

theorem map_replaceFirst {β : Type} {f : α → β} (h : ∀ x, p x = true → f b = f x) :
    (replaceFirst p b as).map f = as.map f := by
  induction as with
  | nil => rfl
  | cons x xs ih =>
    by_cases hx : p x = true
    · simp [replaceFirst, hx, h x hx]
    · simp [replaceFirst, hx, ih]

theorem getElem?_replaceFirst_of_ne {i : Nat} (h : as.findIdx? p ≠ some i) :
    (replaceFirst p b as)[i]? = as[i]? := by
  induction as generalizing i with
  | nil => rfl
  | cons x xs ih =>
    by_cases hx : p x = true
    · cases i with
      | zero => simp [List.findIdx?_cons, hx] at h
      | succ i => simp [replaceFirst, hx]
    · cases i with
      | zero => simp [replaceFirst, hx]
      | succ i =>
        have hne : xs.findIdx? p ≠ some i := by
          intro he
          simp [List.findIdx?_cons, hx, he] at h
        simp [replaceFirst, hx, ih hne]

end ReplaceFirst

namespace Record

theorem isStep_iff {number : Nat} {r : Record} :
    r.isStep number = true ↔ r.number = number ∧ r.wireType = .lengthDelimited := by
  simp [isStep]

theorem isStep_delimited (number : Nat) (payload : Bytes) :
    (delimited number payload).isStep number = true :=
  isStep_iff.2 ⟨rfl, rfl⟩

@[simp] theorem payload_delimited (number : Nat) (payload : Bytes) :
    (delimited number payload).payload = payload := rfl

theorem bytes_delimited_ne_nil (number : Nat) (payload : Bytes) :
    (delimited number payload).bytes ≠ [] := by
  simp [bytes, delimited, Varint.encode_ne_nil]

/-- A record is a step of one number at most. -/
theorem not_isStep_of_ne {number other : Nat} (h : number ≠ other) (r : Record)
    (hr : r.isStep number = true) : r.isStep other = false := by
  rw [← Bool.not_eq_true, isStep_iff]
  intro ho
  exact h ((isStep_iff.1 hr).1.symm.trans ho.1)

theorem length_payload_le {r : Record} {rs : List Record} (h : r ∈ rs) :
    r.payload.length ≤ (writeAll rs).length := by
  induction rs with
  | nil => cases h
  | cons r' rs ih =>
    rw [writeAll_cons, List.length_append, bytes, List.length_append]
    rcases List.mem_cons.1 h with rfl | h
    · omega
    · have := ih h
      omega

end Record

/-- The payload that a path selects: at each level, that of the first delimited record with the next
number. -/
def select? : (path : List Nat) → Bytes → Option Bytes
  | [], msg => some msg
  | number :: path, msg => do
    let records ← (Record.readAll msg).toOption
    let step ← records.find? (Record.isStep number)
    select? path step.payload

/-- The message with another payload in place of the one that a path selects. -/
def replace? (new : Bytes) : (path : List Nat) → Bytes → Option Bytes
  | [], _ => some new
  | number :: path, msg => do
    let records ← (Record.readAll msg).toOption
    let step ← records.find? (Record.isStep number)
    let inner ← replace? new path step.payload
    return Record.writeAll (replaceFirst (Record.isStep number) (.delimited number inner) records)

section Laws

variable {number other : Nat} {path rest : List Nat} {msg mid left right out old new new' : Bytes}

theorem select?_cons {records : List Record} {step : Record}
    (hall : Record.readAll msg = .ok records)
    (hstep : records.find? (Record.isStep number) = some step) :
    select? (number :: path) msg = select? path step.payload := by
  simp only [select?, hall, hstep, Except.toOption, Option.bind_eq_bind, Option.bind_some]

theorem replace?_cons {records : List Record} {step : Record}
    (hall : Record.readAll msg = .ok records)
    (hstep : records.find? (Record.isStep number) = some step) :
    replace? new (number :: path) msg = (replace? new path step.payload).map fun inner =>
      Record.writeAll (replaceFirst (Record.isStep number) (.delimited number inner) records) := by
  simp only [replace?, hall, hstep, Except.toOption, Option.bind_eq_bind, Option.bind_some]
  rw [Option.map_eq_bind]
  rfl

theorem select?_cons_eq_some_iff :
    select? (number :: path) msg = some old ↔ ∃ records step, Record.readAll msg = .ok records ∧
      records.find? (Record.isStep number) = some step ∧ select? path step.payload = some old := by
  simp only [select?, Option.bind_eq_bind, Option.bind_eq_some_iff, toOption_eq_some_iff,
    exists_and_left]

theorem replace?_cons_eq_some_iff :
    replace? new (number :: path) msg = some out ↔ ∃ records step inner,
      Record.readAll msg = .ok records ∧ records.find? (Record.isStep number) = some step ∧
      replace? new path step.payload = some inner ∧
      Record.writeAll (replaceFirst (Record.isStep number) (.delimited number inner) records) =
        out := by
  simp only [replace?, Option.bind_eq_bind, Option.bind_eq_some_iff, toOption_eq_some_iff,
    Option.pure_def, Option.some.injEq, exists_and_left]

/-- The first level of a write in place of a payload that is known. -/
theorem level_of_replace? (hold : select? (number :: path) msg = some old)
    (h : replace? new (number :: path) msg = some out) : ∃ records step inner,
      Record.readAll msg = .ok records ∧ records.find? (Record.isStep number) = some step ∧
      select? path step.payload = some old ∧ replace? new path step.payload = some inner ∧
      Record.writeAll (replaceFirst (Record.isStep number) (.delimited number inner) records) =
        out := by
  obtain ⟨records, step, hall, hstep, hold⟩ := select?_cons_eq_some_iff.1 hold
  rw [replace?_cons hall hstep] at h
  obtain ⟨inner, hrep, hout⟩ := Option.map_eq_some_iff.1 h
  exact ⟨records, step, inner, hall, hstep, hold, hrep, hout⟩

/-- A payload is replaced wherever one is selected. -/
theorem isSome_replace? (new : Bytes) (path : List Nat) (msg : Bytes) :
    (replace? new path msg).isSome = (select? path msg).isSome := by
  induction path generalizing msg with
  | nil => rfl
  | cons number path ih =>
    cases hall : Record.readAll msg with
    | error e => simp [replace?, select?, hall, Except.toOption]
    | ok records =>
      cases hstep : records.find? (Record.isStep number) with
      | none => simp [replace?, select?, hall, hstep, Except.toOption]
      | some step => simp [replace?, select?, hall, hstep, Except.toOption, Option.isSome_bind, ih]

theorem exists_replace? (h : select? path msg = some old) (new : Bytes) :
    ∃ out, replace? new path msg = some out := by
  rw [← Option.isSome_iff_exists, isSome_replace?, h]
  rfl

/-- An update replaces the selected payload by what the function makes of it. -/
theorem update_eq_ok_some_iff {ε : Type} {leaf : Bytes → Except ε Bytes} :
    update leaf path msg = .ok (some out) ↔
      ∃ old new, select? path msg = some old ∧ leaf old = .ok new ∧
        replace? new path msg = some out := by
  induction path generalizing msg out with
  | nil =>
    simp only [update, bind_eq_ok_iff, mapError_eq_ok_iff, pure_eq_ok_iff, Option.some.injEq,
      select?, replace?]
    constructor
    · rintro ⟨new, hnew, rfl⟩
      exact ⟨msg, new, rfl, hnew, rfl⟩
    · rintro ⟨old, new, rfl, hnew, rfl⟩
      exact ⟨new, hnew, rfl⟩
  | cons number path ih =>
    simp only [update, bind_eq_ok_iff, mapError_eq_ok_iff, select?_cons_eq_some_iff,
      replace?_cons_eq_some_iff]
    constructor
    · rintro ⟨records, hall, h⟩
      split at h
      · cases h
      · next before step after hsplit =>
        obtain ⟨inner?, hinner, h⟩ := bind_eq_ok_iff.1 h
        cases inner? with
        | none => cases h
        | some inner =>
          cases h
          obtain ⟨old, new, hold, hnew, hrep⟩ := ih.1 hinner
          have hstep := find?_of_splitAtFirst hsplit
          refine ⟨old, new, ⟨records, step, hall, hstep, hold⟩, hnew,
            records, step, inner, hall, hstep, hrep, ?_⟩
          rw [replaceFirst_of_splitAtFirst hsplit]
    · rintro ⟨old, new, ⟨records, step, hall, hstep, hold⟩, hnew,
        records', step', inner, hall', hstep', hrep, rfl⟩
      cases hall.symm.trans hall'
      cases hstep.symm.trans hstep'
      refine ⟨records, hall, ?_⟩
      split
      · next hsplit =>
        rw [splitAtFirst_eq_none_iff.1 hsplit] at hstep
        cases hstep
      · next before step' after hsplit =>
        cases hstep.symm.trans (find?_of_splitAtFirst hsplit)
        rw [ih.2 ⟨old, new, hold, hnew, hrep⟩, replaceFirst_of_splitAtFirst hsplit]
        rfl

/-- The records of a message in which the payload of one step was replaced by a short one. -/
theorem readAll_replaceFirst {records : List Record} {step : Record} {inner : Bytes}
    (hall : Record.readAll msg = .ok records)
    (hstep : records.find? (Record.isStep number) = some step) (hlen : inner.length < 2 ^ 64) :
    Record.readAll (Record.writeAll
        (replaceFirst (Record.isStep number) (.delimited number inner) records)) =
      .ok (replaceFirst (Record.isStep number) (.delimited number inner) records) := by
  have hread := Record.readable_of_readAll hall
  have hn : IsFieldNumber number := by
    rw [← (Record.isStep_iff.1 (List.find?_some hstep)).1]
    exact (hread step (List.mem_of_find?_eq_some hstep)).isFieldNumber
  apply Record.readAll_writeAll
  intro r hr
  rcases mem_replaceFirst hr with rfl | hr
  · exact Record.readable_delimited hn hlen
  · exact hread r hr

/-- A payload that is too long for its length to be read makes a message that does not split. -/
theorem length_lt_of_readAll_replaceFirst {records : List Record} {step : Record} {inner : Bytes}
    (hall : Record.readAll msg = .ok records)
    (hstep : records.find? (Record.isStep number) = some step)
    (h : Record.readAll (Record.writeAll
      (replaceFirst (Record.isStep number) (.delimited number inner) records)) ≠
        .error .invalidVarint) :
    inner.length < 2 ^ 64 := by
  apply Nat.lt_of_not_le
  intro hlong
  apply h
  obtain ⟨before, after, hsplit⟩ := exists_splitAtFirst hstep
  obtain ⟨hrecords, hself, -⟩ := eq_of_splitAtFirst hsplit
  have hread := Record.readable_of_readAll hall
  have hn : IsFieldNumber number := by
    rw [← (Record.isStep_iff.1 hself).1]
    exact (hread step (List.mem_of_find?_eq_some hstep)).isFieldNumber
  have hbefore : ∀ r ∈ before, r.Readable := by
    intro r hr
    exact hread r (hrecords ▸ List.mem_append_left _ hr)
  have hfail := Record.read_delimited_of_long hn hlong (Record.writeAll after)
  have hne : (Record.delimited number inner).bytes ++ Record.writeAll after ≠ [] :=
    List.append_ne_nil_of_left_ne_nil (Record.bytes_delimited_ne_nil number inner) _
  rw [replaceFirst_of_splitAtFirst hsplit, Record.writeAll_append, Record.writeAll_cons,
    Record.readAll_writeAll_append hbefore, Record.readAll_of_read_error hne hfail]
  rfl

theorem length_le_of_replaceFirst {records : List Record} {step : Record}
    (hstep : records.find? (Record.isStep number) = some step) (inner : Bytes) :
    inner.length ≤ (Record.writeAll
      (replaceFirst (Record.isStep number) (.delimited number inner) records)).length :=
  Record.length_payload_le (mem_replaceFirst_self hstep (.delimited number inner))

theorem select?_append :
    select? (path ++ rest) msg = (select? path msg).bind (select? rest) := by
  induction path generalizing msg with
  | nil => rfl
  | cons number path ih =>
    simp only [List.cons_append, select?, Option.bind_eq_bind, Option.bind_assoc, ih]

/-- A write at the end of a longer path is a write where the path passes through. -/
theorem replace?_append_eq_some_iff :
    replace? new (path ++ rest) msg = some out ↔ ∃ old inner, select? path msg = some old ∧
      replace? new rest old = some inner ∧ replace? inner path msg = some out := by
  induction path generalizing msg out with
  | nil => simp [select?, replace?]
  | cons number path ih =>
    simp only [List.cons_append, replace?_cons_eq_some_iff, select?_cons_eq_some_iff]
    constructor
    · rintro ⟨records, step, inner, hall, hstep, hrep, rfl⟩
      obtain ⟨old, inner', hold, hnew, hinner⟩ := ih.1 hrep
      exact ⟨old, inner', ⟨records, step, hall, hstep, hold⟩, hnew,
        records, step, inner, hall, hstep, hinner, rfl⟩
    · rintro ⟨old, inner', ⟨records, step, hall, hstep, hold⟩, hnew,
        records', step', inner, hall', hstep', hinner, rfl⟩
      cases hall.symm.trans hall'
      cases hstep.symm.trans hstep'
      exact ⟨records, step, inner, hall, hstep, ih.2 ⟨old, inner', hold, hnew, hinner⟩, rfl⟩

theorem update_cons_eq_ok_some_iff {ε : Type} {leaf : Bytes → Except ε Bytes} :
    update leaf (number :: path) msg = .ok (some out) ↔ ∃ records step inner,
      Record.readAll msg = .ok records ∧ records.find? (Record.isStep number) = some step ∧
      update leaf path step.payload = .ok (some inner) ∧
      Record.writeAll (replaceFirst (Record.isStep number) (.delimited number inner) records) =
        out := by
  simp only [update_eq_ok_some_iff, select?_cons_eq_some_iff, replace?_cons_eq_some_iff]
  constructor
  · rintro ⟨old, new, ⟨records, step, hall, hstep, hold⟩, hnew,
      records', step', inner, hall', hstep', hrep, hout⟩
    cases hall.symm.trans hall'
    cases hstep.symm.trans hstep'
    exact ⟨records, step, inner, hall, hstep, ⟨old, new, hold, hnew, hrep⟩, hout⟩
  · rintro ⟨records, step, inner, hall, hstep, ⟨old, new, hold, hnew, hrep⟩, hout⟩
    exact ⟨old, new, ⟨records, step, hall, hstep, hold⟩, hnew,
      records, step, inner, hall, hstep, hrep, hout⟩

/-- An update at the end of a longer path is one of the payload where the path passes through. -/
theorem exists_update_of_update_append {ε : Type} {leaf : Bytes → Except ε Bytes}
    (h : update leaf (path ++ rest) msg = .ok (some out)) :
    ∃ old inner, select? path msg = some old ∧ update leaf rest old = .ok (some inner) ∧
      replace? inner path msg = some out := by
  obtain ⟨leafOld, new, hsel, hnew, hrep⟩ := update_eq_ok_some_iff.1 h
  obtain ⟨old, inner, hold, hinner, hrep⟩ := replace?_append_eq_some_iff.1 hrep
  rw [select?_append, hold, Option.bind_some] at hsel
  exact ⟨old, inner, hold, update_eq_ok_some_iff.2 ⟨leafOld, new, hsel, hnew, hinner⟩, hrep⟩

/-- What was written is selected. -/
theorem select?_replace? (h : replace? new path msg = some out) (hlen : out.length < 2 ^ 64) :
    select? path out = some new := by
  induction path generalizing msg out with
  | nil => exact h.symm
  | cons number path ih =>
    obtain ⟨records, step, inner, hall, hstep, hrep, rfl⟩ := replace?_cons_eq_some_iff.1 h
    have hle := length_le_of_replaceFirst hstep inner
    have hall' := readAll_replaceFirst hall hstep (show inner.length < 2 ^ 64 by omega)
    have hstep' := find?_replaceFirst_self (Record.isStep_delimited number inner) hstep
    rw [select?_cons hall' hstep', Record.payload_delimited]
    exact ih hrep (by omega)

/-- Of two payloads written in one place the second stays. -/
theorem replace?_replace? (h : replace? new path msg = some mid) (hlen : mid.length < 2 ^ 64) :
    replace? new' path mid = replace? new' path msg := by
  induction path generalizing msg mid with
  | nil => rfl
  | cons number path ih =>
    obtain ⟨records, step, inner, hall, hstep, hrep, rfl⟩ := replace?_cons_eq_some_iff.1 h
    have hle := length_le_of_replaceFirst hstep inner
    have hall' := readAll_replaceFirst hall hstep (show inner.length < 2 ^ 64 by omega)
    have hself := Record.isStep_delimited number inner
    rw [replace?_cons hall' (find?_replaceFirst_self hself hstep), replace?_cons hall hstep,
      Record.payload_delimited, ih hrep (by omega)]
    congr 1
    funext inner'
    rw [replaceFirst_replaceFirst_self hself]

theorem select?_replace?_of_ne (hne : number ≠ other)
    (h : replace? new (number :: path) msg = some out) (hlen : out.length < 2 ^ 64) :
    select? (other :: rest) out = select? (other :: rest) msg := by
  obtain ⟨records, step, inner, hall, hstep, -, rfl⟩ := replace?_cons_eq_some_iff.1 h
  have hle := length_le_of_replaceFirst hstep inner
  have hfind := find?_replaceFirst_of_disjoint (Record.not_isStep_of_ne hne)
    (Record.not_isStep_of_ne hne _ (Record.isStep_delimited number inner)) records
  simp only [select?, hall, readAll_replaceFirst hall hstep (show inner.length < 2 ^ 64 by omega),
    Except.toOption, Option.bind_eq_bind, Option.bind_some, hfind]

/-- Two writes below different fields of a message can both be made, in either order. -/
theorem replace?_diamond_of_ne (hne : number ≠ other)
    (h : replace? new (number :: path) msg = some left) (hlen : left.length < 2 ^ 64)
    (h' : replace? new' (other :: rest) msg = some right) (hlen' : right.length < 2 ^ 64) :
    ∃ out, replace? new' (other :: rest) left = some out ∧
      replace? new (number :: path) right = some out := by
  obtain ⟨records, step, inner, hall, hstep, hrep, rfl⟩ := replace?_cons_eq_some_iff.1 h
  obtain ⟨records', step', inner', hall', hstep', hrep', rfl⟩ := replace?_cons_eq_some_iff.1 h'
  cases hall.symm.trans hall'
  have hle := length_le_of_replaceFirst hstep inner
  have hle' := length_le_of_replaceFirst hstep' inner'
  have hd := Record.not_isStep_of_ne hne
  have hd' := Record.not_isStep_of_ne hne.symm
  have hn := hd _ (Record.isStep_delimited number inner)
  have hn' := hd' _ (Record.isStep_delimited other inner')
  refine ⟨_, replace?_cons_eq_some_iff.2 ⟨_, step', inner',
    readAll_replaceFirst hall hstep (by omega), ?_, hrep', rfl⟩, ?_⟩
  · rw [find?_replaceFirst_of_disjoint hd hn, hstep']
  · refine replace?_cons_eq_some_iff.2 ⟨_, step, inner,
      readAll_replaceFirst hall hstep' (by omega), ?_, hrep, ?_⟩
    · rw [find?_replaceFirst_of_disjoint hd' hn', hstep]
    · rw [replaceFirst_comm hd' hn' hn]

theorem length_le_of_replace? (h : replace? new path msg = some out) :
    new.length ≤ out.length := by
  induction path generalizing msg out with
  | nil =>
    cases h
    exact Nat.le_refl _
  | cons number path ih =>
    obtain ⟨records, step, inner, -, hstep, hrep, rfl⟩ := replace?_cons_eq_some_iff.1 h
    exact Nat.le_trans (ih hrep) (length_le_of_replaceFirst hstep inner)

variable {stem : List Nat}

/-- What is written on one path is not seen on another path that leaves it. -/
theorem select?_replace?_of_diverging (hne : number ≠ other)
    (h : replace? new (stem ++ number :: path) msg = some out) (hlen : out.length < 2 ^ 64) :
    select? (stem ++ other :: rest) out = select? (stem ++ other :: rest) msg := by
  obtain ⟨old, inner, hold, hinner, hrep⟩ := replace?_append_eq_some_iff.1 h
  have hle := length_le_of_replace? hrep
  rw [select?_append, select?_append, select?_replace? hrep hlen, hold]
  exact select?_replace?_of_ne hne hinner (by omega)

/-- Two writes on paths that leave each other can both be made, in either order. -/
theorem replace?_diamond (hne : number ≠ other)
    (h : replace? new (stem ++ number :: path) msg = some left) (hlen : left.length < 2 ^ 64)
    (h' : replace? new' (stem ++ other :: rest) msg = some right)
    (hlen' : right.length < 2 ^ 64) :
    ∃ out, replace? new' (stem ++ other :: rest) left = some out ∧
      replace? new (stem ++ number :: path) right = some out := by
  obtain ⟨m, m₁, hm, hm₁, hleft⟩ := replace?_append_eq_some_iff.1 h
  obtain ⟨m', m₂, hm', hm₂, hright⟩ := replace?_append_eq_some_iff.1 h'
  cases hm.symm.trans hm'
  have hle₁ := length_le_of_replace? hleft
  have hle₂ := length_le_of_replace? hright
  obtain ⟨both, hboth, hboth'⟩ := replace?_diamond_of_ne hne hm₁ (by omega) hm₂ (by omega)
  obtain ⟨out, hout⟩ := exists_replace? hm both
  -- The shared levels are written twice, and the second time takes the place of the first.
  have hagain := (replace?_replace? hleft hlen).trans hout
  have hagain' := (replace?_replace? hright hlen').trans hout
  exact ⟨out,
    replace?_append_eq_some_iff.2 ⟨m₁, both, select?_replace? hleft hlen, hboth, hagain⟩,
    replace?_append_eq_some_iff.2 ⟨m₂, both, select?_replace? hright hlen', hboth', hagain'⟩⟩

/-- Two writes on paths that leave each other can change places. -/
theorem replace?_comm (hne : number ≠ other)
    (h : replace? new (stem ++ number :: path) msg = some mid) (hlen : mid.length < 2 ^ 64)
    (h' : replace? new' (stem ++ other :: rest) mid = some out) :
    ∃ mid', replace? new' (stem ++ other :: rest) msg = some mid' ∧
      (mid'.length < 2 ^ 64 → replace? new (stem ++ number :: path) mid' = some out) := by
  have hsome : (replace? new' (stem ++ other :: rest) msg).isSome := by
    rw [isSome_replace?, ← select?_replace?_of_diverging hne h hlen, ← isSome_replace? new', h']
    rfl
  obtain ⟨mid', hmid'⟩ := Option.isSome_iff_exists.1 hsome
  refine ⟨mid', hmid', ?_⟩
  intro hlen'
  obtain ⟨out', hout, hout'⟩ := replace?_diamond hne h hlen hmid' hlen'
  rwa [h'.symm.trans hout]

/-! ## Sizes -/

theorem Record.length_bytes_delimited_le (hn : IsFieldNumber number) (h : old.length < 2 ^ 64) :
    (Record.delimited number old).bytes.length ≤ 20 + old.length := by
  have hkey : (Key.encode ⟨number, .lengthDelimited⟩).length ≤ _ := Key.length_encode_le hn
  have hlength := Varint.length_encode_le_maxLength h
  unfold Varint.maxLength at hkey hlength
  simp only [Record.bytes, Record.delimited, List.length_append]
  omega

theorem length_replaceFirst_add {records : List Record} {step : Record} {p : Record → Bool}
    (hstep : records.find? p = some step) (r : Record) :
    (Record.writeAll (replaceFirst p r records)).length + step.bytes.length =
      (Record.writeAll records).length + r.bytes.length := by
  induction records with
  | nil => cases hstep
  | cons x xs ih =>
    by_cases hx : p x = true
    · rw [List.find?_cons_of_pos hx] at hstep
      cases hstep
      simp only [replaceFirst, hx, if_true, Record.writeAll_cons, List.length_append]
      omega
    · rw [List.find?_cons_of_neg hx] at hstep
      have := ih hstep
      rw [replaceFirst, if_neg hx]
      simp only [Record.writeAll_cons, List.length_append]
      omega

/-- A write adds at most what the payload gains and, at each level, a key and a length. -/
theorem length_replace?_le {gain : Nat} (hold : select? path msg = some old)
    (hgain : new.length ≤ old.length + gain) (h : replace? new path msg = some out)
    (hlen : msg.length + gain + 20 * path.length < 2 ^ 64) :
    out.length ≤ msg.length + gain + 20 * path.length := by
  induction path generalizing msg out with
  | nil =>
    cases hold
    cases h
    simpa using hgain
  | cons number path ih =>
    obtain ⟨records, step, inner, hall, hstep, hold, hrep, rfl⟩ := level_of_replace? hold h
    have hmem := List.mem_of_find?_eq_some hstep
    have hn : IsFieldNumber number := by
      rw [← (Record.isStep_iff.1 (List.find?_some hstep)).1]
      exact (Record.readable_of_readAll hall step hmem).isFieldNumber
    have hpayload := Record.length_payload_le hmem
    have hadd := length_replaceFirst_add hstep (.delimited number inner)
    rw [Record.writeAll_of_readAll hall] at hpayload hadd
    rw [List.length_cons] at hlen ⊢
    have hinner := ih hold hrep (by omega)
    have hbytes : (Record.delimited number inner).bytes.length ≤ 20 + inner.length :=
      Record.length_bytes_delimited_le hn (by omega)
    have hstepBytes : step.payload.length ≤ step.bytes.length := by
      rw [Record.bytes, List.length_append]
      omega
    omega

end Laws

end QuantClassifier.Wire
