import QuantClassifier.Proofs.Onnx.Edit

/-!
# Edits below a message

`modifyChild` edits a message one level below, `modifyAt` one at the end of a path of field numbers,
where `childAt?` finds it. Two edits of one child are one (`modifyChild_modifyChild_self`), edits of
children of different fields change places (`modifyChild_comm`), and paths inherit both
(`modifyAt_modifyAt_self`, `modifyAt_comm`).
-/

namespace QuantClassifier.Onnx.Message

/-- The message at the end of a path, at each level the first value of the next field. -/
def childAt? : (path : List Nat) → Message → Option Message
  | [], m => some m
  | number :: path, m => (m.child? number).bind (childAt? path)

/-- Edits the message at the end of a path. -/
def modifyAt (path : List Nat) (f : Message → Message) : Message → Message :=
  match path with
  | [] => f
  | number :: path => modifyChild number (modifyAt path f)

variable {m : Message} {number other : Nat} {v w : Value} {sub : Message} {f g : Message → Message}

theorem get?_modifyChild_of_ne (h : number ≠ other) (m : Message) (f : Message → Message) :
    (m.modifyChild number f).get? other = m.get? other := by
  induction m with
  | nil => rfl
  | cons p m ih =>
    obtain ⟨k, u⟩ := p
    rcases modifyChild_cons_cases number f k u with ⟨sub, rfl, rfl, hmod⟩ | hmod
    · rw [hmod, get?_cons, get?_cons, if_neg h, if_neg h]
    · rw [hmod, get?_cons, get?_cons, ih]

theorem child?_modifyChild_self (m : Message) (number : Nat) (f : Message → Message) :
    (m.modifyChild number f).child? number = (m.child? number).map f := by
  induction m with
  | nil => rfl
  | cons p m ih =>
    obtain ⟨k, u⟩ := p
    by_cases hk : k = number
    · subst hk
      cases u <;> simp [child?, modifyChild, get?_cons, Value.message?]
    · rw [modifyChild_cons_of_ne hk]
      simpa only [child?, get?_cons, if_neg hk] using ih

theorem child?_modifyChild_of_ne (h : number ≠ other) (m : Message) (f : Message → Message) :
    (m.modifyChild number f).child? other = m.child? other := by
  rw [child?, child?, get?_modifyChild_of_ne h]

/-- Only what the edit makes of the child counts. -/
theorem modifyChild_congr (h : m.child? number = some sub) (hfg : f sub = g sub) :
    m.modifyChild number f = m.modifyChild number g := by
  rw [child?_eq_some_iff] at h
  induction m with
  | nil => rfl
  | cons p m ih =>
    obtain ⟨k, u⟩ := p
    rw [get?_cons] at h
    split at h
    · next hk =>
      cases h
      subst hk
      rw [modifyChild_cons_message, modifyChild_cons_message, hfg]
    · next hk =>
      rw [modifyChild_cons_of_ne hk, modifyChild_cons_of_ne hk, ih h]

theorem modifyChild_modifyChild_self (m : Message) (number : Nat) (f g : Message → Message) :
    (m.modifyChild number f).modifyChild number g = m.modifyChild number (g ∘ f) := by
  induction m with
  | nil => rfl
  | cons p m ih =>
    obtain ⟨k, u⟩ := p
    by_cases hk : k = number
    · subst hk
      cases hv : u.message? with
      | none =>
        rw [modifyChild_cons_of_message?_eq_none hv, modifyChild_cons_of_message?_eq_none hv,
          modifyChild_cons_of_message?_eq_none hv, ih]
      | some sub =>
        cases u <;> cases hv
        rw [modifyChild_cons_message, modifyChild_cons_message, modifyChild_cons_message]
        rfl
    · rw [modifyChild_cons_of_ne hk, modifyChild_cons_of_ne hk, modifyChild_cons_of_ne hk, ih]

theorem modifyChild_comm (h : number ≠ other) (m : Message) (f g : Message → Message) :
    (m.modifyChild number f).modifyChild other g =
      (m.modifyChild other g).modifyChild number f := by
  induction m with
  | nil => rfl
  | cons p m ih =>
    obtain ⟨k, u⟩ := p
    by_cases hk : k = number
    · have hko : k ≠ other := hk ▸ h
      rw [modifyChild_cons_of_ne hko]
      rcases modifyChild_cons_cases number f k u with ⟨sub, -, -, hmod⟩ | hmod
      · rw [hmod, hmod, modifyChild_cons_of_ne hko]
      · rw [hmod, hmod, modifyChild_cons_of_ne hko, ih]
    · rw [modifyChild_cons_of_ne hk]
      rcases modifyChild_cons_cases other g k u with ⟨sub, -, -, hmod⟩ | hmod
      · rw [hmod, hmod, modifyChild_cons_of_ne hk]
      · rw [hmod, hmod, modifyChild_cons_of_ne hk, ih]

theorem children_cons (k : Nat) (v : Value) (m : Message) (number : Nat) :
    children ((k, v) :: m) number =
      (if k = number then v.message?.toList else []) ++ children m number := by
  by_cases hk : k = number
  · cases hv : v.message? <;> simp [children, hk, hv]
  · simp [children, hk]

theorem length_children_modifyChild (m : Message) (number : Nat) (f : Message → Message) :
    ((m.modifyChild number f).children number).length = (m.children number).length := by
  induction m with
  | nil => rfl
  | cons p m ih =>
    obtain ⟨k, u⟩ := p
    rcases modifyChild_cons_cases number f k u with ⟨sub, rfl, rfl, hmod⟩ | hmod
    · rw [hmod, children_cons, children_cons, if_pos rfl, if_pos rfl, List.length_append,
        List.length_append]
      rfl
    · rw [hmod, children_cons, children_cons, List.length_append, List.length_append, ih]

/-! ## Paths -/

variable {path rest stem : List Nat}

theorem childAt?_cons (h : m.child? number = some sub) (path : List Nat) :
    m.childAt? (number :: path) = sub.childAt? path := by
  rw [childAt?, h, Option.bind_some]

theorem childAt?_append (m : Message) (path rest : List Nat) :
    m.childAt? (path ++ rest) = (m.childAt? path).bind (childAt? rest) := by
  induction path generalizing m with
  | nil => rfl
  | cons number path ih =>
    simp only [List.cons_append, childAt?]
    cases m.child? number with
    | none => rfl
    | some sub => exact ih sub

theorem modifyAt_congr (h : m.childAt? path = some sub) (hfg : f sub = g sub) :
    m.modifyAt path f = m.modifyAt path g := by
  induction path generalizing m with
  | nil =>
    cases h
    exact hfg
  | cons number path ih =>
    obtain ⟨sub₁, hsub₁, h⟩ := Option.bind_eq_some_iff.1 h
    exact modifyChild_congr hsub₁ (ih h)

theorem modifyAt_modifyAt_self (m : Message) (path : List Nat) (f g : Message → Message) :
    (m.modifyAt path f).modifyAt path g = m.modifyAt path (g ∘ f) := by
  induction path generalizing m with
  | nil => rfl
  | cons number path ih =>
    simp only [modifyAt, modifyChild_modifyChild_self]
    congr 1
    funext sub
    exact ih sub

/-- Edits on paths that leave each other can be made in either order. -/
theorem modifyAt_comm (hne : number ≠ other) (m : Message) (f g : Message → Message) :
    (m.modifyAt (stem ++ number :: path) f).modifyAt (stem ++ other :: rest) g =
      (m.modifyAt (stem ++ other :: rest) g).modifyAt (stem ++ number :: path) f := by
  induction stem generalizing m with
  | nil => exact modifyChild_comm hne ..
  | cons k stem ih =>
    simp only [List.cons_append, modifyAt, modifyChild_modifyChild_self]
    congr 1
    funext sub
    exact ih sub

/-- An edit on a path that leaves another one does not change what the other one leads to. -/
theorem childAt?_modifyAt_of_ne (hne : number ≠ other) (m : Message) (f : Message → Message) :
    (m.modifyAt (stem ++ number :: path) f).childAt? (stem ++ other :: rest) =
      m.childAt? (stem ++ other :: rest) := by
  induction stem generalizing m with
  | nil =>
    simp only [List.nil_append, modifyAt, childAt?, child?_modifyChild_of_ne hne]
  | cons k stem ih =>
    simp only [List.cons_append, modifyAt, childAt?, child?_modifyChild_self]
    cases m.child? k with
    | none => rfl
    | some sub => exact ih sub

end QuantClassifier.Onnx.Message
