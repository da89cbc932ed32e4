import QuantClassifier.Proofs.Onnx.Decoding

/-!
# What absorbing a record changes

A record changes its own field, and the ones that the field chooses against (`Touches`). It keeps
the fields of a message ascending and a single field single, and it does not notice what a message
in another field holds (`absorb_modifyChild`), nor what the first message of its own repeated field
holds.
-/

namespace QuantClassifier.Onnx

open Wire Message

/-- The fields that are unset when a field with the label is set. -/
def Label.others : Label → List Nat
  | choice others => others
  | _ => []

namespace MessageType

/-- The type of the messages in a field. -/
def childType? (t : MessageType) (number : Nat) : Option MessageType :=
  match t.field? number with
  | some ⟨_, .message child, _⟩ => some child
  | _ => none

/-- The field may hold several values. -/
def isRepeated (t : MessageType) (number : Nat) : Bool :=
  (t.field? number).any fun f => f.label = .repeated

theorem childType?_eq_some_iff {t child : MessageType} {number : Nat} :
    t.childType? number = some child ↔
      ∃ f, t.field? number = some f ∧ f.type = .message child := by
  unfold childType?
  split
  · next n child' l hf =>
    rw [hf]
    simp
  · next hf =>
    simp only [reduceCtorEq, false_iff, not_exists, not_and]
    rintro ⟨n, type, l⟩ hfield rfl
    exact hf n child l hfield

theorem number_of_field? {t : MessageType} {number : Nat} {f : Field}
    (h : t.field? number = some f) : f.number = number := by
  simpa using List.find?_some h

theorem isRepeated_iff {t : MessageType} {number : Nat} {f : Field}
    (h : t.field? number = some f) : t.isRepeated number = true ↔ f.label = .repeated := by
  simp [isRepeated, h]

/-- Fields are chosen against scalars only. -/
theorem childType?_others (t : MessageType) :
    ∀ f ∈ t.fields, ∀ other ∈ f.label.others, t.childType? other = none := by
  cases t <;> decide

end MessageType

namespace Message

variable {m m' : Message} {number other : Nat} {v : Value} {others : List Nat} {label : Label}
  {g : Message → Message}

theorem ascending_foldl_erase (h : m.Ascending) (others : List Nat) :
    (others.foldl erase m).Ascending := by
  induction others generalizing m with
  | nil => exact h
  | cons other others ih => exact ih (ascending_erase h other)

theorem countOf_foldl_erase_le (m : Message) (others : List Nat) (number : Nat) :
    (others.foldl erase m).countOf number ≤ m.countOf number := by
  induction others generalizing m with
  | nil => exact Nat.le_refl _
  | cons other others ih => exact Nat.le_trans (ih _) (countOf_erase_le ..)

theorem get?_foldl_erase (h : number ∉ others) (m : Message) :
    (others.foldl erase m).get? number = m.get? number := by
  induction others generalizing m with
  | nil => rfl
  | cons other others ih =>
    simp only [List.mem_cons, not_or] at h
    rw [List.foldl_cons, ih h.2, get?_erase_of_ne (Ne.symm h.1)]

theorem modifyChild_foldl_erase (h : number ∉ others) (m : Message) (g : Message → Message) :
    (others.foldl erase m).modifyChild number g = others.foldl erase (m.modifyChild number g) := by
  induction others generalizing m with
  | nil => rfl
  | cons other others ih =>
    simp only [List.mem_cons, not_or] at h
    rw [List.foldl_cons, List.foldl_cons, ih h.2, modifyChild_erase_of_ne (Ne.symm h.1)]

theorem modifyChild_extend (h : number ≠ other) (m : Message) (v : Value)
    (g : Message → Message) :
    (m.extend number v).modifyChild other g = (m.modifyChild other g).extend number v := by
  unfold extend
  split
  · rfl
  · rw [get?_modifyChild_of_ne h.symm]
    split <;> exact modifyChild_put_of_ne h ..

theorem modifyChild_set (h : number ≠ other) (hothers : other ∉ label.others) (m : Message)
    (v : Value) (g : Message → Message) :
    (m.set number label v).modifyChild other g = (m.modifyChild other g).set number label v := by
  unfold set
  split
  · next others =>
    have hothers : other ∉ others := hothers
    rw [modifyChild_put_of_ne h, modifyChild_foldl_erase hothers]
  · split
    · exact modifyChild_erase_of_ne h ..
    · exact modifyChild_put_of_ne h ..
  · exact modifyChild_put_of_ne h ..

end Message

/-- The ways in which a record changes the message that absorbs it. -/
inductive Touches (f : Field) (m : Message) : Message → Prop where
  | keep : Touches f m m
  | put (v : Value) : Touches f m (m.put f.number v)
  | push (v : Value) : f.label = .repeated → Touches f m (m.push f.number v)
  | erase : Touches f m (m.erase f.number)
  | choose (v : Value) : Touches f m ((f.label.others.foldl Message.erase m).put f.number v)

section Touches

variable {f : Field} {m m' : Message} {number : Nat}

theorem touches_extend (f : Field) (m : Message) (v : Value) :
    Touches f m (m.extend f.number v) := by
  unfold Message.extend
  split
  · exact .keep
  · split <;> exact .put _

theorem touches_set (f : Field) (m : Message) (v : Value) :
    Touches f m (m.set f.number f.label v) := by
  unfold Message.set
  split
  · next others hl =>
    have := Touches.choose (f := f) (m := m) v
    rwa [hl] at this
  · split
    · exact .erase
    · exact .put v
  · exact .put v

theorem touches_of_decode {enter : MessageType → Message → Bytes → Option Message}
    {wireType : WireType} {payload : Bytes} (h : f.decode enter wireType payload m = some m') :
    Touches f m m' := by
  unfold Field.decode at h
  split at h
  · split at h
    · split at h
      · next hl =>
        obtain ⟨sub, -, rfl⟩ := Option.map_eq_some_iff.1 h
        exact .push _ hl
      · obtain ⟨sub, -, rfl⟩ := Option.map_eq_some_iff.1 h
        exact .put _
    · cases h
  · split at h
    · next hl =>
      split at h
      · split at h
        · obtain ⟨v, -, rfl⟩ := Option.map_eq_some_iff.1 h
          exact .push _ hl
        · cases h
      · split at h
        · obtain ⟨v, -, rfl⟩ := Option.map_eq_some_iff.1 h
          exact touches_extend f m v
        · split at h
          · obtain ⟨v, -, rfl⟩ := Option.map_eq_some_iff.1 h
            exact touches_extend f m v
          · cases h
    · split at h
      · obtain ⟨v, -, rfl⟩ := Option.map_eq_some_iff.1 h
        exact touches_set f m v
      · cases h

theorem Touches.ascending (h : Touches f m m') (hm : m.Ascending) : m'.Ascending := by
  cases h with
  | keep => exact hm
  | put v => exact ascending_put hm ..
  | push v => exact ascending_push hm ..
  | erase => exact ascending_erase hm _
  | choose v => exact ascending_put (ascending_foldl_erase hm _) ..

theorem Touches.get?_eq (h : Touches f m m') (hne : f.number ≠ number)
    (hothers : number ∉ f.label.others) : m'.get? number = m.get? number := by
  cases h with
  | keep => rfl
  | put v => exact get?_put_of_ne hne ..
  | push v => exact get?_push_of_ne hne ..
  | erase => exact get?_erase_of_ne hne _
  | choose v => rw [get?_put_of_ne hne, get?_foldl_erase hothers]

/-- A field that is not repeated stays single. -/
theorem Touches.countOf_le (h : Touches f m m') (hm : m.Ascending)
    (hnumber : f.number = number → f.label ≠ .repeated) (hone : m.countOf number ≤ 1) :
    m'.countOf number ≤ 1 := by
  by_cases hne : f.number = number
  · subst hne
    cases h with
    | keep => exact hone
    | put v => exact countOf_put_self_le hm hone v
    | push v hl => exact absurd hl (hnumber rfl)
    | erase => exact Nat.le_trans (countOf_erase_le ..) hone
    | choose v =>
      apply countOf_put_self_le (ascending_foldl_erase hm _)
      exact Nat.le_trans (countOf_foldl_erase_le ..) hone
  · cases h with
    | keep => exact hone
    | put v => rwa [countOf_put_of_ne hne]
    | push v => rwa [countOf_push_of_ne hne]
    | erase => exact Nat.le_trans (countOf_erase_le ..) hone
    | choose v =>
      rw [countOf_put_of_ne hne]
      exact Nat.le_trans (countOf_foldl_erase_le ..) hone

end Touches

/-- A field is decoded alike whatever a message in another field holds. -/
theorem Field.decode_modifyChild {enter : MessageType → Message → Bytes → Option Message}
    {f : Field} {number : Nat} (hne : f.number ≠ number) (hothers : number ∉ f.label.others)
    (wireType : WireType) (payload : Bytes) (m : Message) (g : Message → Message) :
    f.decode enter wireType payload (m.modifyChild number g) =
      (f.decode enter wireType payload m).map (·.modifyChild number g) := by
  unfold Field.decode
  rw [child?_modifyChild_of_ne hne.symm]
  split
  · split
    · split
      · simp only [Option.map_map, Function.comp_def, modifyChild_push_of_ne hne]
      · simp only [Option.map_map, Function.comp_def, modifyChild_put_of_ne hne]
    · rfl
  · split
    · split
      · split
        · simp only [Option.map_map, Function.comp_def, modifyChild_push_of_ne hne]
        · rfl
      · split
        · simp only [Option.map_map, Function.comp_def, modifyChild_extend hne]
        · split
          · simp only [Option.map_map, Function.comp_def, modifyChild_extend hne]
          · rfl
    · split
      · simp only [Option.map_map, Function.comp_def, modifyChild_set hne hothers]
      · rfl

section Absorb

variable {enter : MessageType → Message → Bytes → Option Message} {budget number : Nat}
  {t child : MessageType} {m m' sub : Message} {r : Record} {records : List Record}

/-- A record that is absorbed belongs to an unknown field or touches its own. -/
theorem touches_of_absorb (h : absorb enter budget t m r = some m') :
    m' = m ∨ ∃ f, t.field? r.number = some f ∧ Touches f m m' := by
  unfold absorb at h
  split at h
  · next f hf => exact Or.inr ⟨f, hf, touches_of_decode h⟩
  · split at h
    · cases h
    · exact Or.inl (Option.some.inj h).symm

/-- A field of messages is never chosen against. -/
theorem MessageType.not_mem_others {f : Field} {k : Nat} (hf : t.field? k = some f)
    (hchild : t.childType? number = some child) : number ∉ f.label.others := by
  intro hmem
  have := t.childType?_others f (List.mem_of_find?_eq_some hf) number hmem
  rw [hchild] at this
  cases this

theorem ascending_absorb (hm : m.Ascending) (h : absorb enter budget t m r = some m') :
    m'.Ascending := by
  rcases touches_of_absorb h with rfl | ⟨f, -, ht⟩
  · exact hm
  · exact ht.ascending hm

theorem get?_absorb_of_ne (hchild : t.childType? number = some child) (hne : r.number ≠ number)
    (h : absorb enter budget t m r = some m') : m'.get? number = m.get? number := by
  rcases touches_of_absorb h with rfl | ⟨f, hf, ht⟩
  · rfl
  · rw [← MessageType.number_of_field? hf] at hne
    exact ht.get?_eq hne (MessageType.not_mem_others hf hchild)

theorem countOf_absorb_le (hsingle : t.isRepeated number = false) (hm : m.Ascending)
    (hone : m.countOf number ≤ 1) (h : absorb enter budget t m r = some m') :
    m'.countOf number ≤ 1 := by
  rcases touches_of_absorb h with rfl | ⟨f, hf, ht⟩
  · exact hone
  · apply ht.countOf_le hm ?_ hone
    intro hn hl
    rw [← hn, MessageType.number_of_field? hf, ← Bool.not_eq_true,
      MessageType.isRepeated_iff hf] at hsingle
    exact hsingle hl

/-- What absorbing a record of messages of a repeated field does. -/
theorem absorb_repeated (hchild : t.childType? number = some child)
    (hrep : t.isRepeated number = true) (hr : r.number = number) (m : Message) :
    absorb enter budget t m r =
      if r.wireType = .lengthDelimited then
        (enter child [] r.payload).map fun sub => m.push number (.message sub)
      else none := by
  obtain ⟨f, hf, htype⟩ := MessageType.childType?_eq_some_iff.1 hchild
  have hlabel := (MessageType.isRepeated_iff hf).1 hrep
  have hn := MessageType.number_of_field? hf
  simp only [absorb, hr, hf, Field.decode, htype, hlabel, hn]

/-- A record is absorbed alike whatever the first message of a field of messages holds, unless it
is merged into that message. -/
theorem absorb_modifyChild (hchild : t.childType? number = some child)
    (hor : r.number ≠ number ∨ t.isRepeated number = true) (hm : m.Ascending)
    (hsub : m.child? number = some sub) (g : Message → Message) :
    absorb enter budget t (m.modifyChild number g) r =
      (absorb enter budget t m r).map (·.modifyChild number g) := by
  by_cases hr : r.number = number
  · have hrep := hor.resolve_left (not_not_intro hr)
    rw [absorb_repeated hchild hrep hr, absorb_repeated hchild hrep hr]
    split
    · rw [Option.map_map]
      congr 1
      funext sub'
      exact (modifyChild_push_of_child hm hsub _ g).symm
    · rfl
  · unfold absorb
    split
    · next f hf =>
      have hne : f.number ≠ number := by rwa [MessageType.number_of_field? hf]
      exact Field.decode_modifyChild hne (MessageType.not_mem_others hf hchild) ..
    · split <;> rfl

theorem child?_absorb (hchild : t.childType? number = some child)
    (hor : r.number ≠ number ∨ t.isRepeated number = true) (hm : m.Ascending)
    (hsub : m.child? number = some sub) (h : absorb enter budget t m r = some m') :
    m'.child? number = some sub := by
  rw [child?_eq_some_iff] at hsub ⊢
  by_cases hr : r.number = number
  · have hrep := hor.resolve_left (not_not_intro hr)
    rw [absorb_repeated hchild hrep hr] at h
    split at h
    · obtain ⟨sub', -, rfl⟩ := Option.map_eq_some_iff.1 h
      exact get?_push_of_some hm hsub _
    · cases h
  · rw [get?_absorb_of_ne hchild hr h, hsub]

/-! ## Many records -/

/-- What every record of a list keeps, the list keeps. -/
theorem foldlM_invariant {α β : Type} {f : β → α → Option β} {P : β → Prop} {as : List α}
    {b b' : β} (hstep : ∀ a ∈ as, ∀ b b', P b → f b a = some b' → P b') (hb : P b)
    (h : as.foldlM f b = some b') : P b' := by
  induction as generalizing b with
  | nil =>
    cases h
    exact hb
  | cons a as ih =>
    rw [List.foldlM_cons] at h
    obtain ⟨b₁, hb₁, h⟩ := Option.bind_eq_some_iff.1 h
    apply ih (fun x hx => hstep x (List.mem_cons_of_mem _ hx)) ?_ h
    exact hstep a (List.mem_cons_self ..) b b₁ hb hb₁

theorem ascending_foldlM_absorb (hm : m.Ascending)
    (h : records.foldlM (absorb enter budget t) m = some m') : m'.Ascending :=
  foldlM_invariant (fun _ _ _ _ hm h => ascending_absorb hm h) hm h

theorem get?_foldlM_absorb_of_ne (hchild : t.childType? number = some child)
    (hne : ∀ r ∈ records, r.number ≠ number)
    (h : records.foldlM (absorb enter budget t) m = some m') :
    m'.get? number = m.get? number := by
  refine foldlM_invariant (P := fun b => b.get? number = m.get? number) ?_ rfl h
  intro r hr b b' hb hstep
  rw [get?_absorb_of_ne hchild (hne r hr) hstep, hb]

theorem countOf_foldlM_absorb_le (hsingle : t.isRepeated number = false) (hm : m.Ascending)
    (hone : m.countOf number ≤ 1) (h : records.foldlM (absorb enter budget t) m = some m') :
    m'.countOf number ≤ 1 := by
  refine (foldlM_invariant (P := fun b => b.Ascending ∧ b.countOf number ≤ 1) ?_ ⟨hm, hone⟩ h).2
  rintro r - b b' ⟨hb, hone⟩ hstep
  exact ⟨ascending_absorb hb hstep, countOf_absorb_le hsingle hb hone hstep⟩

/-- Records that are not merged into the first message of a field are absorbed alike whatever it
holds, and leave it there. -/
theorem foldlM_absorb_modifyChild (hchild : t.childType? number = some child)
    (hor : ∀ r ∈ records, r.number ≠ number ∨ t.isRepeated number = true) (hm : m.Ascending)
    (hsub : m.child? number = some sub)
    (h : records.foldlM (absorb enter budget t) m = some m') :
    m'.child? number = some sub ∧ ∀ g, records.foldlM (absorb enter budget t)
      (m.modifyChild number g) = some (m'.modifyChild number g) := by
  induction records generalizing m with
  | nil =>
    cases h
    refine ⟨hsub, ?_⟩
    intro g
    rfl
  | cons r records ih =>
    rw [List.foldlM_cons] at h
    obtain ⟨m₁, hm₁, h⟩ := Option.bind_eq_some_iff.1 h
    have hr := hor r (List.mem_cons_self ..)
    have hrest : ∀ r' ∈ records, r'.number ≠ number ∨ t.isRepeated number = true := by
      intro r' hr'
      exact hor r' (List.mem_cons_of_mem _ hr')
    have hasc := ascending_absorb hm hm₁
    have hsub₁ := child?_absorb hchild hr hm hsub hm₁
    obtain ⟨hchild', hmod⟩ := ih hrest hasc hsub₁ h
    refine ⟨hchild', ?_⟩
    intro g
    rw [List.foldlM_cons, absorb_modifyChild hchild hr hm hsub, hm₁]
    exact hmod g

end Absorb

end QuantClassifier.Onnx
