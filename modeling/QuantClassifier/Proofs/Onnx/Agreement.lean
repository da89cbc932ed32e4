import QuantClassifier.Proofs.Onnx.Nested

/-!
# Agreement of messages

Agreement is symmetric and transitive, and a message agrees with itself unless it holds a NaN
(`agrees_self`). Messages that agree have the same numbers in the same order (`Matched`), cannot be
told apart by their bytes or by how many messages a field has, and agree after the same edit
(`Matched.modifyAt`).
-/

namespace QuantClassifier

namespace Binary

variable {fmt : Format} {x y z : Binary fmt}

theorem eqv_comm (x y : Binary fmt) : x.eqv y = y.eqv x := by
  simp only [eqv, Bool.and_comm x.isNaN.not, eq_comm (a := x.orderKey)]

theorem eqv_trans (h : x.eqv y = true) (h' : y.eqv z = true) : x.eqv z = true := by
  simp only [eqv, Bool.and_eq_true, decide_eq_true_eq] at h h' ⊢
  exact ⟨⟨h.1.1, h'.1.2⟩, h.2.trans h'.2⟩

theorem eqv_self (h : x.isNaN = false) : x.eqv x = true := by
  simp [eqv, h]

theorem isNaN_of_eqv_self (h : x.eqv x = true) : x.isNaN = false := by
  simp only [eqv, Bool.and_eq_true, Bool.not_eq_true'] at h
  exact h.1.1

end Binary

namespace Onnx

namespace Value

section AllAgree

variable {α : Type} {p : α → α → Bool}

theorem allAgree_comm (hp : ∀ a b, p a b = p b a) (as bs : List α) :
    allAgree p as bs = allAgree p bs as := by
  induction as generalizing bs with
  | nil => cases bs <;> rfl
  | cons a as ih =>
    cases bs with
    | nil => rfl
    | cons b bs => simp only [allAgree, hp a b, ih bs]

theorem allAgree_trans (hp : ∀ a b c, p a b = true → p b c = true → p a c = true)
    {as bs cs : List α} (h : allAgree p as bs = true) (h' : allAgree p bs cs = true) :
    allAgree p as cs = true := by
  induction as generalizing bs cs with
  | nil =>
    cases bs with
    | nil => exact h'
    | cons b bs => cases h
  | cons a as ih =>
    cases bs with
    | nil => cases h
    | cons b bs =>
      cases cs with
      | nil => cases h'
      | cons c cs =>
        simp only [allAgree, Bool.and_eq_true] at h h' ⊢
        exact ⟨hp a b c h.1 h'.1, ih h.2 h'.2⟩

theorem allAgree_self {as : List α} (h : ∀ a ∈ as, p a a = true) : allAgree p as as = true := by
  induction as with
  | nil => rfl
  | cons a as ih =>
    simp only [allAgree, Bool.and_eq_true]
    refine ⟨h a (List.mem_cons_self ..), ih ?_⟩
    intro b hb
    exact h b (List.mem_cons_of_mem _ hb)

theorem forall_of_allAgree_self {as : List α} (h : allAgree p as as = true) :
    ∀ a ∈ as, p a a = true := by
  induction as with
  | nil =>
    intro a ha
    cases ha
  | cons b as ih =>
    simp only [allAgree, Bool.and_eq_true] at h
    intro a ha
    rcases List.mem_cons.1 ha with rfl | ha
    · exact h.1
    · exact ih h.2 a ha

end AllAgree

mutual

theorem agrees_comm : ∀ v w : Value, v.agrees w = w.agrees v
  | int n, w => by cases w <;> simp [agrees, eq_comm]
  | float x, w => by cases w <;> simp [agrees, Binary.eqv_comm x]
  | double x, w => by cases w <;> simp [agrees, Binary.eqv_comm x]
  | bytes b, w => by cases w <;> simp [agrees, eq_comm]
  | ints ns, w => by cases w <;> simp [agrees, eq_comm]
  | floats xs, w => by cases w <;> simp [agrees, allAgree_comm Binary.eqv_comm xs]
  | doubles xs, w => by cases w <;> simp [agrees, allAgree_comm Binary.eqv_comm xs]
  | message m, w => by cases w <;> simp [agrees, fieldsAgree_comm m]

theorem fieldsAgree_comm : ∀ m m' : List (Nat × Value), fieldsAgree m m' = fieldsAgree m' m
  | [], m' => by cases m' <;> simp [fieldsAgree]
  | (n, v) :: m, [] => by simp [fieldsAgree]
  | (n, v) :: m, (n', v') :: m' => by
    simp only [fieldsAgree, agrees_comm v v', fieldsAgree_comm m m', eq_comm (a := n)]

end

mutual

theorem agrees_trans : ∀ {u v w : Value}, u.agrees v = true → v.agrees w = true → u.agrees w = true
  | int n, v, w, h, h' => by cases v <;> cases w <;> simp_all [agrees]
  | float x, v, w, h, h' => by
    cases v <;> cases w <;> simp only [agrees, Bool.false_eq_true] at h h' ⊢
    exact Binary.eqv_trans h h'
  | double x, v, w, h, h' => by
    cases v <;> cases w <;> simp only [agrees, Bool.false_eq_true] at h h' ⊢
    exact Binary.eqv_trans h h'
  | bytes b, v, w, h, h' => by cases v <;> cases w <;> simp_all [agrees]
  | ints ns, v, w, h, h' => by cases v <;> cases w <;> simp_all [agrees]
  | floats xs, v, w, h, h' => by
    cases v <;> cases w <;> simp only [agrees, Bool.false_eq_true] at h h' ⊢
    exact allAgree_trans (p := Binary.eqv) (fun _ _ _ => Binary.eqv_trans) h h'
  | doubles xs, v, w, h, h' => by
    cases v <;> cases w <;> simp only [agrees, Bool.false_eq_true] at h h' ⊢
    exact allAgree_trans (p := Binary.eqv) (fun _ _ _ => Binary.eqv_trans) h h'
  | message m, v, w, h, h' => by
    cases v <;> cases w <;> simp only [agrees, Bool.false_eq_true] at h h' ⊢
    exact fieldsAgree_trans h h'

theorem fieldsAgree_trans : ∀ {m m' m'' : List (Nat × Value)}, fieldsAgree m m' = true →
    fieldsAgree m' m'' = true → fieldsAgree m m'' = true
  | [], m', m'', h, h' => by cases m' <;> cases m'' <;> simp_all [fieldsAgree]
  | (n, v) :: m, m', m'', h, h' => by
    cases m' <;> cases m'' <;>
      simp only [fieldsAgree, Bool.false_eq_true, Bool.and_eq_true, decide_eq_true_eq] at h h' ⊢
    exact ⟨⟨h.1.1.trans h'.1.1, agrees_trans h.1.2 h'.1.2⟩, fieldsAgree_trans h.2 h'.2⟩

end

mutual

/-- No float of a value is a NaN. -/
def nanFree : Value → Bool
  | float x => !x.isNaN
  | double x => !x.isNaN
  | floats xs => xs.all fun x => !x.isNaN
  | doubles xs => xs.all fun x => !x.isNaN
  | message m => fieldsNanFree m
  | _ => true

/-- No float of some fields is a NaN. -/
def fieldsNanFree : List (Nat × Value) → Bool
  | [] => true
  | (_, v) :: m => nanFree v && fieldsNanFree m

end

mutual

theorem agrees_self : ∀ {v : Value}, v.nanFree = true → v.agrees v = true
  | int n, _ => by simp [agrees]
  | float x, h => Binary.eqv_self (by simpa [nanFree] using h)
  | double x, h => Binary.eqv_self (by simpa [nanFree] using h)
  | bytes b, _ => by simp [agrees]
  | ints ns, _ => by simp [agrees]
  | floats xs, h => by
    simp only [nanFree, List.all_eq_true, Bool.not_eq_true'] at h
    rw [agrees]
    exact allAgree_self fun x hx => Binary.eqv_self (h x hx)
  | doubles xs, h => by
    simp only [nanFree, List.all_eq_true, Bool.not_eq_true'] at h
    rw [agrees]
    exact allAgree_self fun x hx => Binary.eqv_self (h x hx)
  | message m, h => by
    rw [nanFree] at h
    rw [agrees]
    exact fieldsAgree_self h

theorem fieldsAgree_self : ∀ {m : List (Nat × Value)}, fieldsNanFree m = true →
    fieldsAgree m m = true
  | [], _ => rfl
  | (n, v) :: m, h => by
    simp only [fieldsNanFree, Bool.and_eq_true] at h
    simp only [fieldsAgree, Bool.and_eq_true, decide_true, true_and]
    exact ⟨agrees_self h.1, fieldsAgree_self h.2⟩

end

mutual

/-- A NaN is not equal to itself, and nothing that holds one is. -/
theorem nanFree_of_agrees_self : ∀ {v : Value}, v.agrees v = true → v.nanFree = true
  | int n, _ => by simp [nanFree]
  | float x, h => by simpa [nanFree] using Binary.isNaN_of_eqv_self h
  | double x, h => by simpa [nanFree] using Binary.isNaN_of_eqv_self h
  | bytes b, _ => by simp [nanFree]
  | ints ns, _ => by simp [nanFree]
  | floats xs, h => by
    rw [agrees] at h
    simp only [nanFree, List.all_eq_true, Bool.not_eq_true']
    exact fun x hx => Binary.isNaN_of_eqv_self (forall_of_allAgree_self h x hx)
  | doubles xs, h => by
    rw [agrees] at h
    simp only [nanFree, List.all_eq_true, Bool.not_eq_true']
    exact fun x hx => Binary.isNaN_of_eqv_self (forall_of_allAgree_self h x hx)
  | message m, h => by
    rw [agrees] at h
    rw [nanFree]
    exact fieldsNanFree_of_fieldsAgree_self h

theorem fieldsNanFree_of_fieldsAgree_self : ∀ {m : List (Nat × Value)},
    fieldsAgree m m = true → fieldsNanFree m = true
  | [], _ => rfl
  | (n, v) :: m, h => by
    simp only [fieldsAgree, Bool.and_eq_true, decide_true, true_and] at h
    simp only [fieldsNanFree, Bool.and_eq_true]
    exact ⟨nanFree_of_agrees_self h.1, fieldsNanFree_of_fieldsAgree_self h.2⟩

end

end Value

namespace Message

/-- No float of a message is a NaN, at any depth. -/
def nanFree (m : Message) : Bool := Value.fieldsNanFree m

variable {m m' m'' : Message} {f g : Message → Message}

theorem agrees_comm (m m' : Message) : m.agrees m' = m'.agrees m := Value.fieldsAgree_comm m m'

theorem agrees_trans (h : m.agrees m' = true) (h' : m'.agrees m'' = true) :
    m.agrees m'' = true :=
  Value.fieldsAgree_trans h h'

theorem agrees_self (h : m.nanFree = true) : m.agrees m = true := Value.fieldsAgree_self h

theorem agrees_self_iff : m.agrees m = true ↔ m.nanFree = true :=
  ⟨Value.fieldsNanFree_of_fieldsAgree_self, agrees_self⟩

/-- What agrees with one of two messages that agree agrees with the other one. -/
theorem agrees_congr (h : m'.agrees m'' = true) : m.agrees m' = m.agrees m'' := by
  rw [Bool.eq_iff_iff]
  constructor
  · intro hm
    exact agrees_trans hm h
  · intro hm
    exact agrees_trans hm (agrees_comm m'' m' ▸ h)

/-- The same numbers in the same order, with values that agree. -/
inductive Matched : Message → Message → Prop where
  | nil : Matched [] []
  | cons {n : Nat} {v v' : Value} {m m' : Message} : v.agrees v' = true → Matched m m' →
      Matched ((n, v) :: m) ((n, v') :: m')

theorem agrees_iff_matched : m.agrees m' = true ↔ Matched m m' := by
  constructor
  · intro h
    induction m generalizing m' with
    | nil =>
      cases m' with
      | nil => exact .nil
      | cons p' m' => cases h
    | cons p m ih =>
      cases m' with
      | nil => cases h
      | cons p' m' =>
        obtain ⟨n, v⟩ := p
        obtain ⟨n', v'⟩ := p'
        simp only [agrees, Value.fieldsAgree, Bool.and_eq_true, decide_eq_true_eq] at h
        obtain ⟨⟨rfl, hv⟩, hm⟩ := h
        exact .cons hv (ih hm)
  · intro h
    induction h with
    | nil => rfl
    | cons hv hm ih =>
      simp only [agrees, Value.fieldsAgree, Bool.and_eq_true, decide_true, true_and]
      exact ⟨hv, ih⟩

theorem Matched.get? (h : Matched m m') (number : Nat) :
    (m.get? number = none ∧ m'.get? number = none) ∨
      ∃ v v', m.get? number = some v ∧ m'.get? number = some v' ∧ v.agrees v' = true := by
  induction h with
  | nil => exact Or.inl ⟨rfl, rfl⟩
  | @cons n v v' m m' hv hm ih =>
    rw [get?_cons, get?_cons]
    split
    · exact Or.inr ⟨v, v', rfl, rfl, hv⟩
    · exact ih

theorem message?_of_agrees {v v' : Value} (h : v.agrees v' = true) :
    (v.message? = none ∧ v'.message? = none) ∨
      ∃ sub sub', v.message? = some sub ∧ v'.message? = some sub' ∧ Matched sub sub' := by
  cases v <;> cases v' <;> simp only [Value.agrees, Bool.false_eq_true] at h
  case message.message m m' => exact Or.inr ⟨m, m', rfl, rfl, agrees_iff_matched.1 h⟩
  all_goals exact Or.inl ⟨rfl, rfl⟩

theorem Matched.child? (h : Matched m m') (number : Nat) :
    (m.child? number = none ∧ m'.child? number = none) ∨
      ∃ sub sub', m.child? number = some sub ∧ m'.child? number = some sub' ∧
        Matched sub sub' := by
  unfold Message.child?
  rcases h.get? number with ⟨hm, hm'⟩ | ⟨v, v', hm, hm', hv⟩
  · rw [hm, hm']
    exact Or.inl ⟨rfl, rfl⟩
  · rw [hm, hm']
    exact message?_of_agrees hv

/-- Messages that agree have the same bytes in a field. -/
theorem Matched.bytesOf (h : Matched m m') (number : Nat) :
    m.bytesOf number = m'.bytesOf number := by
  unfold Message.bytesOf
  rcases h.get? number with ⟨hm, hm'⟩ | ⟨v, v', hm, hm', hv⟩
  · rw [hm, hm']
  · rw [hm, hm']
    cases v <;> cases v' <;> simp_all [Value.agrees]

theorem Matched.length_children (h : Matched m m') (number : Nat) :
    (m.children number).length = (m'.children number).length := by
  induction h with
  | nil => rfl
  | @cons n v v' m m' hv hm ih =>
    rw [children_cons, children_cons, List.length_append, List.length_append, ih]
    rcases message?_of_agrees hv with ⟨hv, hv'⟩ | ⟨sub, sub', hv, hv', -⟩
    · rw [hv, hv']
    · rw [hv, hv']
      split <;> rfl

theorem Matched.erase (h : Matched m m') (number : Nat) :
    Matched (m.erase number) (m'.erase number) := by
  induction h with
  | nil => exact .nil
  | @cons n v v' m m' hv hm ih =>
    by_cases hn : n = number
    · subst hn
      rwa [erase_cons_self, erase_cons_self]
    · rw [erase_cons_of_ne hn, erase_cons_of_ne hn]
      exact .cons hv ih

theorem Matched.put (h : Matched m m') (number : Nat) {w w' : Value} (hw : w.agrees w' = true) :
    Matched (m.put number w) (m'.put number w') := by
  induction h with
  | nil => exact .cons hw .nil
  | @cons n v v' m m' hv hm ih =>
    rcases Nat.lt_trichotomy n number with hn | rfl | hn
    · rw [put_cons_of_lt hn, put_cons_of_lt hn]
      exact .cons hv ih
    · rw [put_cons_self, put_cons_self]
      exact .cons hw hm
    · rw [put_cons_of_gt hn, put_cons_of_gt hn]
      exact .cons hw (.cons hv hm)

theorem Matched.modifyChild (h : Matched m m')
    (hfg : ∀ sub sub', Matched sub sub' → Matched (f sub) (g sub')) (number : Nat) :
    Matched (m.modifyChild number f) (m'.modifyChild number g) := by
  induction h with
  | nil => exact .nil
  | @cons n v v' m m' hv hm ih =>
    by_cases hn : n = number
    · subst hn
      rcases message?_of_agrees hv with ⟨hnone, hnone'⟩ | ⟨sub, sub', hsub, hsub', hmatch⟩
      · rw [modifyChild_cons_of_message?_eq_none hnone,
          modifyChild_cons_of_message?_eq_none hnone']
        exact .cons hv ih
      · cases v <;> cases hsub
        cases v' <;> cases hsub'
        rw [modifyChild_cons_message, modifyChild_cons_message]
        exact .cons (agrees_iff_matched.2 (hfg _ _ hmatch)) hm
    · rw [modifyChild_cons_of_ne hn, modifyChild_cons_of_ne hn]
      exact .cons hv ih

theorem Matched.modifyAt (h : Matched m m')
    (hfg : ∀ sub sub', Matched sub sub' → Matched (f sub) (g sub')) (path : List Nat) :
    Matched (m.modifyAt path f) (m'.modifyAt path g) := by
  induction path generalizing m m' with
  | nil => exact hfg _ _ h
  | cons number path ih => exact h.modifyChild (fun _ _ hsub => ih hsub) number

end Message

end Onnx

end QuantClassifier
