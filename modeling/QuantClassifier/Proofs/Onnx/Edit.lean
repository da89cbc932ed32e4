import QuantClassifier.Onnx.Decode

/-!
# Edits of a message

What `put`, `push` and `erase` do to the fields of a message, and which of them can change places
with each other and with `modifyChild`. Edits of different fields never meet, as long as the fields
stand in ascending order.
-/

namespace QuantClassifier.Onnx.Message

/-- The fields stand in ascending order. -/
def Ascending (m : Message) : Prop := m.Pairwise fun a b => a.1 ≤ b.1

/-- How many entries a field has. -/
def countOf (m : Message) (number : Nat) : Nat := m.countP (·.1 = number)

variable {m : Message} {number other : Nat} {v w : Value} {sub : Message} {f g : Message → Message}

theorem get?_cons (k : Nat) (v : Value) (m : Message) (number : Nat) :
    get? ((k, v) :: m) number = if k = number then some v else get? m number := by
  by_cases h : k = number <;> simp [get?, h]

theorem child?_eq_some_iff : m.child? number = some sub ↔ m.get? number = some (.message sub) := by
  unfold child?
  rw [Option.bind_eq_some_iff]
  constructor
  · rintro ⟨v, hv, hm⟩
    cases v <;> cases hm
    exact hv
  · intro h
    exact ⟨_, h, rfl⟩

theorem get?_eq_none_iff : m.get? number = none ↔ ∀ p ∈ m, p.1 ≠ number := by
  simp [get?]

theorem Ascending.le_of_get?_cons {k : Nat} {u : Value} (hm : Ascending ((k, u) :: m))
    (h : get? ((k, u) :: m) number = some w) : k ≤ number := by
  obtain ⟨q, hq, -⟩ := Option.map_eq_some_iff.1 h
  have hnumber : q.1 = number := by simpa using List.find?_some hq
  rcases List.mem_cons.1 (List.mem_of_find?_eq_some hq) with rfl | hmem
  · exact Nat.le_of_eq hnumber
  · exact hnumber ▸ (List.pairwise_cons.1 hm).1 q hmem

/-- A number below the first one is below all. -/
theorem Ascending.lt_of_mem_cons {k : Nat} {u : Value} (hm : Ascending ((k, u) :: m))
    (hk : number < k) : ∀ p ∈ (k, u) :: m, number < p.1 := by
  intro p hp
  rcases List.mem_cons.1 hp with rfl | hp
  · exact hk
  · exact Nat.lt_of_lt_of_le hk ((List.pairwise_cons.1 hm).1 p hp)

theorem put_cons_of_lt {k : Nat} (h : k < number) (u : Value) (m : Message) (v : Value) :
    put number v ((k, u) :: m) = (k, u) :: put number v m := by
  rw [put, if_pos h]

theorem put_cons_self (number : Nat) (u : Value) (m : Message) (v : Value) :
    put number v ((number, u) :: m) = (number, v) :: m := by
  rw [put, if_neg (Nat.lt_irrefl _), if_pos rfl]

theorem put_cons_of_gt {k : Nat} (h : number < k) (u : Value) (m : Message) (v : Value) :
    put number v ((k, u) :: m) = (number, v) :: (k, u) :: m := by
  rw [put, if_neg (Nat.lt_asymm h), if_neg (Nat.ne_of_gt h)]

theorem push_cons_of_le {k : Nat} (h : k ≤ number) (u : Value) (m : Message) (v : Value) :
    push number v ((k, u) :: m) = (k, u) :: push number v m := by
  rw [push, if_pos h]

theorem push_cons_of_gt {k : Nat} (h : number < k) (u : Value) (m : Message) (v : Value) :
    push number v ((k, u) :: m) = (number, v) :: (k, u) :: m := by
  rw [push, if_neg (Nat.not_le_of_gt h)]

theorem modifyChild_cons_of_ne {k : Nat} (h : k ≠ number) (v : Value) (m : Message)
    (f : Message → Message) :
    modifyChild number f ((k, v) :: m) = (k, v) :: modifyChild number f m := by
  cases v <;> simp [modifyChild, h]

theorem modifyChild_cons_message (number : Nat) (sub m : Message) (f : Message → Message) :
    modifyChild number f ((number, .message sub) :: m) = (number, .message (f sub)) :: m := by
  simp [modifyChild]

theorem modifyChild_cons_of_message?_eq_none {k : Nat} (h : v.message? = none) (m : Message)
    (f : Message → Message) :
    modifyChild number f ((k, v) :: m) = (k, v) :: modifyChild number f m := by
  cases v <;> simp [modifyChild, Value.message?] at h ⊢

/-- What `modifyChild` does to an entry is seen from its number and its value. -/
theorem modifyChild_cons_cases (number : Nat) (f : Message → Message) (k : Nat) (v : Value) :
    (∃ sub, k = number ∧ v = .message sub ∧
      ∀ m, modifyChild number f ((k, v) :: m) = (k, .message (f sub)) :: m) ∨
    ∀ m, modifyChild number f ((k, v) :: m) = (k, v) :: modifyChild number f m := by
  by_cases hk : k = number
  · subst hk
    cases hv : v.message? with
    | none => exact Or.inr fun m => modifyChild_cons_of_message?_eq_none hv m f
    | some sub =>
      refine Or.inl ⟨sub, rfl, ?_, ?_⟩
      · cases v <;> cases hv
        rfl
      · intro m
        cases v <;> cases hv
        exact modifyChild_cons_message ..
  · exact Or.inr fun m => modifyChild_cons_of_ne hk v m f

/-! ## Putting a value -/

theorem get?_put_self (m : Message) (number : Nat) (v : Value) :
    (m.put number v).get? number = some v := by
  induction m with
  | nil => rw [put, get?_cons, if_pos rfl]
  | cons p m ih =>
    obtain ⟨k, u⟩ := p
    rcases Nat.lt_trichotomy k number with hk | rfl | hk
    · rw [put_cons_of_lt hk, get?_cons, if_neg (Nat.ne_of_lt hk), ih]
    · rw [put_cons_self, get?_cons, if_pos rfl]
    · rw [put_cons_of_gt hk, get?_cons, if_pos rfl]

theorem get?_put_of_ne (h : number ≠ other) (m : Message) (v : Value) :
    (m.put number v).get? other = m.get? other := by
  induction m with
  | nil => rw [put, get?_cons, if_neg h]
  | cons p m ih =>
    obtain ⟨k, u⟩ := p
    rcases Nat.lt_trichotomy k number with hk | rfl | hk
    · rw [put_cons_of_lt hk, get?_cons, get?_cons, ih]
    · rw [put_cons_self, get?_cons, get?_cons, if_neg h, if_neg h]
    · rw [put_cons_of_gt hk, get?_cons, if_neg h]

theorem put_put_self (m : Message) (number : Nat) (v w : Value) :
    (m.put number v).put number w = m.put number w := by
  induction m with
  | nil => exact put_cons_self ..
  | cons p m ih =>
    obtain ⟨k, u⟩ := p
    rcases Nat.lt_trichotomy k number with hk | rfl | hk
    · rw [put_cons_of_lt hk, put_cons_of_lt hk, put_cons_of_lt hk, ih]
    · rw [put_cons_self, put_cons_self, put_cons_self]
    · rw [put_cons_of_gt hk, put_cons_of_gt hk, put_cons_self]

theorem put_comm_of_lt (h : number < other) (m : Message) (v w : Value) :
    (m.put number v).put other w = (m.put other w).put number v := by
  induction m with
  | nil =>
    change put other w [(number, v)] = put number v [(other, w)]
    rw [put_cons_of_lt h, put_cons_of_gt h]
    rfl
  | cons p m ih =>
    obtain ⟨k, u⟩ := p
    rcases Nat.lt_trichotomy k number with hk | rfl | hk
    · have hk' := Nat.lt_trans hk h
      rw [put_cons_of_lt hk, put_cons_of_lt hk', put_cons_of_lt hk', put_cons_of_lt hk, ih]
    · rw [put_cons_self, put_cons_of_lt h, put_cons_of_lt h, put_cons_self]
    · rw [put_cons_of_gt hk, put_cons_of_lt h]
      rcases Nat.lt_trichotomy k other with hk' | rfl | hk'
      · rw [put_cons_of_lt hk', put_cons_of_gt hk]
      · rw [put_cons_self, put_cons_of_gt h]
      · rw [put_cons_of_gt hk', put_cons_of_gt h]

theorem put_comm (h : number ≠ other) (m : Message) (v w : Value) :
    (m.put number v).put other w = (m.put other w).put number v := by
  rcases Nat.lt_or_gt_of_ne h with hlt | hlt
  · exact put_comm_of_lt hlt m v w
  · exact (put_comm_of_lt hlt m w v).symm

theorem modifyChild_put_of_ne (h : number ≠ other) (m : Message) (v : Value)
    (f : Message → Message) :
    (m.put number v).modifyChild other f = (m.modifyChild other f).put number v := by
  induction m with
  | nil => exact modifyChild_cons_of_ne h v [] f
  | cons p m ih =>
    obtain ⟨k, u⟩ := p
    rcases modifyChild_cons_cases other f k u with ⟨sub, rfl, rfl, hmod⟩ | hmod
    · rw [hmod]
      rcases Nat.lt_or_gt_of_ne h with hk | hk
      · rw [put_cons_of_gt hk, put_cons_of_gt hk, modifyChild_cons_of_ne h, hmod]
      · rw [put_cons_of_lt hk, put_cons_of_lt hk, hmod]
    · rw [hmod]
      rcases Nat.lt_trichotomy k number with hk | rfl | hk
      · rw [put_cons_of_lt hk, put_cons_of_lt hk, hmod, ih]
      · rw [put_cons_self, put_cons_self, modifyChild_cons_of_ne h]
      · rw [put_cons_of_gt hk, put_cons_of_gt hk, modifyChild_cons_of_ne h, hmod]

theorem modifyChild_put_self (h : m.get? number = none) (sub : Message) (f : Message → Message) :
    (m.put number (.message sub)).modifyChild number f = m.put number (.message (f sub)) := by
  induction m with
  | nil => exact modifyChild_cons_message ..
  | cons p m ih =>
    obtain ⟨k, u⟩ := p
    rw [get?_cons] at h
    split at h
    · cases h
    · next hne =>
      rcases Nat.lt_or_gt_of_ne hne with hk | hk
      · rw [put_cons_of_lt hk, put_cons_of_lt hk, modifyChild_cons_of_ne hne, ih h]
      · rw [put_cons_of_gt hk, put_cons_of_gt hk, modifyChild_cons_message]

theorem mem_put {p : Nat × Value} (h : p ∈ m.put number v) : p = (number, v) ∨ p ∈ m := by
  induction m with
  | nil => exact Or.inl (List.mem_singleton.1 h)
  | cons q m ih =>
    obtain ⟨k, u⟩ := q
    rcases Nat.lt_trichotomy k number with hk | rfl | hk
    · rw [put_cons_of_lt hk] at h
      rcases List.mem_cons.1 h with rfl | h
      · exact Or.inr (List.mem_cons_self ..)
      · exact (ih h).imp_right (List.mem_cons_of_mem _)
    · rw [put_cons_self] at h
      exact (List.mem_cons.1 h).imp_right (List.mem_cons_of_mem _)
    · rw [put_cons_of_gt hk] at h
      exact List.mem_cons.1 h

theorem ascending_put (h : m.Ascending) (number : Nat) (v : Value) :
    (m.put number v).Ascending := by
  induction m with
  | nil => exact List.pairwise_singleton ..
  | cons p m ih =>
    obtain ⟨k, u⟩ := p
    obtain ⟨hhead, htail⟩ := List.pairwise_cons.1 h
    rcases Nat.lt_trichotomy k number with hk | rfl | hk
    · rw [put_cons_of_lt hk]
      refine List.pairwise_cons.2 ⟨?_, ih htail⟩
      intro q hq
      rcases mem_put hq with rfl | hq
      · exact Nat.le_of_lt hk
      · exact hhead q hq
    · rw [put_cons_self]
      exact List.pairwise_cons.2 ⟨hhead, htail⟩
    · rw [put_cons_of_gt hk]
      refine List.pairwise_cons.2 ⟨?_, h⟩
      intro q hq
      exact Nat.le_of_lt (h.lt_of_mem_cons hk q hq)

/-! ## Pushing a value -/

theorem get?_push_of_ne (h : number ≠ other) (m : Message) (v : Value) :
    (m.push number v).get? other = m.get? other := by
  induction m with
  | nil => rw [push, get?_cons, if_neg h]
  | cons p m ih =>
    obtain ⟨k, u⟩ := p
    rcases Nat.lt_or_ge number k with hk | hk
    · rw [push_cons_of_gt hk, get?_cons, if_neg h]
    · rw [push_cons_of_le hk, get?_cons, get?_cons, ih]

theorem get?_push_self (h : m.get? number = none) (v : Value) :
    (m.push number v).get? number = some v := by
  induction m with
  | nil => rw [push, get?_cons, if_pos rfl]
  | cons p m ih =>
    obtain ⟨k, u⟩ := p
    rw [get?_cons] at h
    split at h
    · cases h
    · next hne =>
      rcases Nat.lt_or_ge number k with hk | hk
      · rw [push_cons_of_gt hk, get?_cons, if_pos rfl]
      · rw [push_cons_of_le hk, get?_cons, if_neg hne, ih h]

theorem modifyChild_push_of_ne (h : number ≠ other) (m : Message) (v : Value)
    (f : Message → Message) :
    (m.push number v).modifyChild other f = (m.modifyChild other f).push number v := by
  induction m with
  | nil => exact modifyChild_cons_of_ne h v [] f
  | cons p m ih =>
    obtain ⟨k, u⟩ := p
    rcases modifyChild_cons_cases other f k u with ⟨sub, rfl, rfl, hmod⟩ | hmod
    · rw [hmod]
      rcases Nat.lt_or_ge number k with hk | hk
      · rw [push_cons_of_gt hk, push_cons_of_gt hk, modifyChild_cons_of_ne h, hmod]
      · rw [push_cons_of_le hk, push_cons_of_le hk, hmod]
    · rw [hmod]
      rcases Nat.lt_or_ge number k with hk | hk
      · rw [push_cons_of_gt hk, push_cons_of_gt hk, modifyChild_cons_of_ne h, hmod]
      · rw [push_cons_of_le hk, push_cons_of_le hk, hmod, ih]

theorem modifyChild_push_self (h : m.get? number = none) (sub : Message)
    (f : Message → Message) :
    (m.push number (.message sub)).modifyChild number f = m.push number (.message (f sub)) := by
  induction m with
  | nil => exact modifyChild_cons_message ..
  | cons p m ih =>
    obtain ⟨k, u⟩ := p
    rw [get?_cons] at h
    split at h
    · cases h
    · next hne =>
      rcases Nat.lt_or_ge number k with hk | hk
      · rw [push_cons_of_gt hk, push_cons_of_gt hk, modifyChild_cons_message]
      · rw [push_cons_of_le hk, push_cons_of_le hk, modifyChild_cons_of_ne hne, ih h]

/-- In an ascending message that has the field, what is pushed comes after its first value. -/
theorem get?_push_of_some (hm : m.Ascending) (h : m.get? number = some w) (v : Value) :
    (m.push number v).get? number = some w := by
  induction m with
  | nil => cases h
  | cons p m ih =>
    obtain ⟨k, u⟩ := p
    rw [push_cons_of_le (hm.le_of_get?_cons h)]
    rw [get?_cons] at h ⊢
    split
    · next he => rwa [if_pos he] at h
    · next hne =>
      rw [if_neg hne] at h
      exact ih (List.pairwise_cons.1 hm).2 h

theorem modifyChild_push_of_child (hm : m.Ascending) (h : m.child? number = some sub) (v : Value)
    (f : Message → Message) :
    (m.push number v).modifyChild number f = (m.modifyChild number f).push number v := by
  induction m with
  | nil => cases h
  | cons p m ih =>
    obtain ⟨k, u⟩ := p
    rw [child?_eq_some_iff] at h
    have hk := hm.le_of_get?_cons h
    rw [get?_cons] at h
    split at h
    · next he =>
      cases h
      subst he
      rw [push_cons_of_le hk, modifyChild_cons_message, modifyChild_cons_message,
        push_cons_of_le hk]
    · next hne =>
      rw [push_cons_of_le hk, modifyChild_cons_of_ne hne, modifyChild_cons_of_ne hne,
        push_cons_of_le hk, ih (List.pairwise_cons.1 hm).2 (child?_eq_some_iff.2 h)]

theorem mem_push {p : Nat × Value} (h : p ∈ m.push number v) : p = (number, v) ∨ p ∈ m := by
  induction m with
  | nil => exact Or.inl (List.mem_singleton.1 h)
  | cons q m ih =>
    obtain ⟨k, u⟩ := q
    rcases Nat.lt_or_ge number k with hk | hk
    · rw [push_cons_of_gt hk] at h
      exact List.mem_cons.1 h
    · rw [push_cons_of_le hk] at h
      rcases List.mem_cons.1 h with rfl | h
      · exact Or.inr (List.mem_cons_self ..)
      · exact (ih h).imp_right (List.mem_cons_of_mem _)

theorem ascending_push (h : m.Ascending) (number : Nat) (v : Value) :
    (m.push number v).Ascending := by
  induction m with
  | nil => exact List.pairwise_singleton ..
  | cons p m ih =>
    obtain ⟨k, u⟩ := p
    obtain ⟨hhead, htail⟩ := List.pairwise_cons.1 h
    rcases Nat.lt_or_ge number k with hk | hk
    · rw [push_cons_of_gt hk]
      refine List.pairwise_cons.2 ⟨?_, h⟩
      intro q hq
      exact Nat.le_of_lt (h.lt_of_mem_cons hk q hq)
    · rw [push_cons_of_le hk]
      refine List.pairwise_cons.2 ⟨?_, ih htail⟩
      intro q hq
      rcases mem_push hq with rfl | hq
      · exact hk
      · exact hhead q hq

/-- A value goes behind the fields with smaller numbers and those of its own. -/
theorem push_eq_append (h : ∀ p ∈ m, p.1 ≤ number) (v : Value) :
    m.push number v = m ++ [(number, v)] := by
  induction m with
  | nil => rfl
  | cons p m ih =>
    rw [push_cons_of_le (h p (List.mem_cons_self ..)), List.cons_append, ih]
    intro q hq
    exact h q (List.mem_cons_of_mem _ hq)

/-! ## Erasing a field -/

theorem erase_cons_self (number : Nat) (u : Value) (m : Message) :
    erase ((number, u) :: m) number = erase m number := by
  simp [erase]

theorem erase_cons_of_ne {k : Nat} (h : k ≠ number) (u : Value) (m : Message) :
    erase ((k, u) :: m) number = (k, u) :: erase m number := by
  simp [erase, h]

theorem mem_of_mem_erase {p : Nat × Value} (h : p ∈ m.erase number) : p ∈ m :=
  (List.mem_filter.1 h).1

theorem ascending_erase (h : m.Ascending) (number : Nat) : (m.erase number).Ascending :=
  h.filter _

theorem erase_erase_self (m : Message) (number : Nat) :
    (m.erase number).erase number = m.erase number := by
  simp only [erase, List.filter_filter, Bool.and_self]

theorem erase_comm (m : Message) (number other : Nat) :
    (m.erase number).erase other = (m.erase other).erase number := by
  simp only [erase, List.filter_filter, Bool.and_comm]

theorem erase_eq_self (h : ∀ p ∈ m, p.1 ≠ number) : m.erase number = m :=
  List.filter_eq_self.2 fun p hp => decide_eq_true (h p hp)

theorem get?_erase_of_ne (h : number ≠ other) (m : Message) :
    (m.erase number).get? other = m.get? other := by
  induction m with
  | nil => rfl
  | cons p m ih =>
    obtain ⟨k, u⟩ := p
    by_cases hk : k = number
    · subst hk
      rw [erase_cons_self, get?_cons, if_neg h, ih]
    · rw [erase_cons_of_ne hk, get?_cons, get?_cons, ih]

theorem modifyChild_erase_of_ne (h : number ≠ other) (m : Message) (f : Message → Message) :
    (m.erase number).modifyChild other f = (m.modifyChild other f).erase number := by
  induction m with
  | nil => rfl
  | cons p m ih =>
    obtain ⟨k, u⟩ := p
    by_cases hk : k = number
    · subst hk
      rw [modifyChild_cons_of_ne h, erase_cons_self, erase_cons_self, ih]
    · rw [erase_cons_of_ne hk]
      rcases modifyChild_cons_cases other f k u with ⟨sub, rfl, rfl, hmod⟩ | hmod
      · rw [hmod, hmod, erase_cons_of_ne hk]
      · rw [hmod, hmod, erase_cons_of_ne hk, ih]

theorem erase_put_self (m : Message) (number : Nat) (v : Value) :
    (m.put number v).erase number = m.erase number := by
  induction m with
  | nil => exact erase_cons_self ..
  | cons p m ih =>
    obtain ⟨k, u⟩ := p
    rcases Nat.lt_trichotomy k number with hk | rfl | hk
    · have hne := Nat.ne_of_lt hk
      rw [put_cons_of_lt hk, erase_cons_of_ne hne, erase_cons_of_ne hne, ih]
    · rw [put_cons_self, erase_cons_self, erase_cons_self]
    · rw [put_cons_of_gt hk, erase_cons_self]

/-- A value goes to the front of the fields with greater numbers. -/
theorem put_eq_cons (h : ∀ p ∈ m, number < p.1) (v : Value) :
    m.put number v = (number, v) :: m := by
  cases m with
  | nil => rfl
  | cons p m => exact put_cons_of_gt (h p (List.mem_cons_self ..)) p.2 m v

/-- A value goes behind the fields with smaller numbers. -/
theorem put_eq_append (h : ∀ p ∈ m, p.1 < number) (v : Value) :
    m.put number v = m ++ [(number, v)] := by
  induction m with
  | nil => rfl
  | cons p m ih =>
    rw [put_cons_of_lt (h p (List.mem_cons_self ..)), List.cons_append, ih]
    intro q hq
    exact h q (List.mem_cons_of_mem _ hq)

theorem erase_put_of_ne (hm : m.Ascending) (h : number ≠ other) (v : Value) :
    (m.put number v).erase other = (m.erase other).put number v := by
  induction m with
  | nil => exact erase_cons_of_ne h v []
  | cons p m ih =>
    obtain ⟨k, u⟩ := p
    have ih := ih (List.pairwise_cons.1 hm).2
    rcases Nat.lt_trichotomy k number with hk | rfl | hk
    · rw [put_cons_of_lt hk]
      by_cases hko : k = other
      · subst hko
        rw [erase_cons_self, erase_cons_self, ih]
      · rw [erase_cons_of_ne hko, erase_cons_of_ne hko, put_cons_of_lt hk, ih]
    · rw [put_cons_self, erase_cons_of_ne h, erase_cons_of_ne h, put_cons_self]
    · rw [put_cons_of_gt hk, erase_cons_of_ne h, put_eq_cons]
      intro q hq
      exact hm.lt_of_mem_cons hk q (mem_of_mem_erase hq)

/-! ## The entries of a field -/

theorem countOf_cons (k : Nat) (u : Value) (m : Message) (number : Nat) :
    countOf ((k, u) :: m) number = countOf m number + if k = number then 1 else 0 := by
  by_cases h : k = number <;> simp [countOf, h]

theorem countOf_eq_zero_iff : m.countOf number = 0 ↔ ∀ p ∈ m, p.1 ≠ number := by
  simp [countOf]

theorem countOf_put_of_ne (h : number ≠ other) (m : Message) (v : Value) :
    (m.put number v).countOf other = m.countOf other := by
  induction m with
  | nil => rw [put, countOf_cons, if_neg h, Nat.add_zero]
  | cons p m ih =>
    obtain ⟨k, u⟩ := p
    rcases Nat.lt_trichotomy k number with hk | rfl | hk
    · rw [put_cons_of_lt hk, countOf_cons, countOf_cons, ih]
    · rw [put_cons_self, countOf_cons, countOf_cons]
    · rw [put_cons_of_gt hk, countOf_cons, if_neg h, Nat.add_zero]

theorem countOf_push_of_ne (h : number ≠ other) (m : Message) (v : Value) :
    (m.push number v).countOf other = m.countOf other := by
  induction m with
  | nil => rw [push, countOf_cons, if_neg h, Nat.add_zero]
  | cons p m ih =>
    obtain ⟨k, u⟩ := p
    rcases Nat.lt_or_ge number k with hk | hk
    · rw [push_cons_of_gt hk, countOf_cons, if_neg h, Nat.add_zero]
    · rw [push_cons_of_le hk, countOf_cons, countOf_cons, ih]

theorem countOf_erase_le (m : Message) (number other : Nat) :
    (m.erase number).countOf other ≤ m.countOf other :=
  List.Sublist.countP_le List.filter_sublist

/-- In an ascending message a field that is put keeps a single entry. -/
theorem countOf_put_self_le (hm : m.Ascending) (h : m.countOf number ≤ 1) (v : Value) :
    (m.put number v).countOf number ≤ 1 := by
  induction m with
  | nil => simp [put, countOf]
  | cons p m ih =>
    obtain ⟨k, u⟩ := p
    rcases Nat.lt_trichotomy k number with hk | rfl | hk
    · have hne := Nat.ne_of_lt hk
      rw [countOf_cons, if_neg hne] at h
      rw [put_cons_of_lt hk, countOf_cons, if_neg hne]
      exact ih (List.pairwise_cons.1 hm).2 h
    · rwa [put_cons_self, countOf_cons, ← countOf_cons k u]
    · have hzero : countOf ((k, u) :: m) number = 0 := by
        rw [countOf_eq_zero_iff]
        intro q hq
        exact Nat.ne_of_gt (hm.lt_of_mem_cons hk q hq)
      rw [put_cons_of_gt hk, countOf_cons, if_pos rfl]
      omega

/-- Where there is a single entry of a field, erasing it first makes no difference to putting it. -/
theorem put_erase_self (hm : m.Ascending) (h : m.countOf number ≤ 1) (v : Value) :
    (m.erase number).put number v = m.put number v := by
  induction m with
  | nil => rfl
  | cons p m ih =>
    obtain ⟨k, u⟩ := p
    obtain ⟨hhead, htail⟩ := List.pairwise_cons.1 hm
    rcases Nat.lt_trichotomy k number with hk | rfl | hk
    · have hne := Nat.ne_of_lt hk
      rw [countOf_cons, if_neg hne] at h
      rw [erase_cons_of_ne hne, put_cons_of_lt hk, put_cons_of_lt hk, ih htail h]
    · rw [countOf_cons, if_pos rfl] at h
      have hne : ∀ q ∈ m, q.1 ≠ k := countOf_eq_zero_iff.1 (by omega)
      rw [erase_cons_self, put_cons_self, erase_eq_self hne, put_eq_cons]
      intro q hq
      exact Nat.lt_of_le_of_ne (hhead q hq) (hne q hq).symm
    · rw [erase_eq_self]
      intro q hq
      exact Nat.ne_of_gt (hm.lt_of_mem_cons hk q hq)

end QuantClassifier.Onnx.Message
