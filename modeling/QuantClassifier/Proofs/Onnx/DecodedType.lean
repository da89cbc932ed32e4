import QuantClassifier.Proofs.Onnx.RoundTrip

/-!
# What is decoded is of the type

Every record that is absorbed keeps a message one of its type (`isOf_decode`), so whatever bytes
decode give a message of the type (`Message.isOf_of_decode?`). Together with the round trip this
makes the messages of a type the ones that an encoding decodes to (`decode?_encode_eq_some_iff`).
-/

namespace QuantClassifier.Onnx

open Wire

section Edits

variable {t child : MessageType} {f : Field} {m m' sub : Message} {number : Nat} {v : Value}

namespace MessageType

/-- Two fields are chosen against each other or not at all. -/
theorem others_symm (t : MessageType) : ∀ f ∈ t.fields, ∀ g ∈ t.fields,
    f.number ∈ g.label.others → g.number ∈ f.label.others := by
  cases t <;> decide

/-- Only numbers and texts are chosen against each other. -/
theorem others_eq_nil_or (t : MessageType) : ∀ f ∈ t.fields, f.label.others = [] ∨
    f.type = .scalar .int64 ∨ f.type = .scalar .string := by
  cases t <;> decide

theorem others_of_message (hf : t.field? number = some f) (htype : f.type = .message child) :
    f.label.others = [] := by
  rcases t.others_eq_nil_or f (List.mem_of_find?_eq_some hf) with h | h | h
  · exact h
  · rw [htype] at h
    cases h
  · rw [htype] at h
    cases h

end MessageType

/-- A field that may hold several values is not chosen. -/
theorem Field.others_of_repeated (h : f.label = .repeated) : f.label.others = [] := by
  rw [h]
  rfl

theorem Field.label_of_isListed (h : f.isListed = true) : f.label = .repeated := by
  simp only [isListed, Bool.and_eq_true, decide_eq_true_eq] at h
  exact h.1

namespace Message

theorem isOf_nil : isOf [] t = true := isOf_iff.2 ⟨nofun, .nil⟩

theorem isOf_filter (h : m.isOf t = true) (p : Nat × Value → Bool) :
    Message.isOf (m.filter p) t = true := by
  obtain ⟨hentries, hpairs⟩ := isOf_iff.1 h
  exact isOf_iff.2 ⟨fun q hq => hentries q (List.mem_filter.1 hq).1, hpairs.filter p⟩

theorem isOf_foldl_erase (h : m.isOf t = true) (others : List Nat) :
    Message.isOf (others.foldl erase m) t = true := by
  induction others generalizing m with
  | nil => exact h
  | cons other others ih => exact ih (isOf_filter h _)

theorem mem_foldl_erase {others : List Nat} {p : Nat × Value} (h : p ∈ others.foldl erase m) :
    p ∈ m ∧ p.1 ∉ others := by
  induction others generalizing m with
  | nil => exact ⟨h, List.not_mem_nil⟩
  | cons other others ih =>
    obtain ⟨hmem, hnot⟩ := ih h
    obtain ⟨hmem, hne⟩ := List.mem_filter.1 hmem
    refine ⟨hmem, ?_⟩
    rw [List.mem_cons, not_or]
    exact ⟨of_decide_eq_true hne, hnot⟩

theorem Follows.le {p q : Nat × Value} (h : Follows t p q) : p.1 ≤ q.1 := by
  obtain ⟨f, hf, hmay⟩ := h
  have hnumber := MessageType.number_of_field? hf
  rcases (Field.mayFollow_iff.1 hmay).2 with hlt | ⟨he, -⟩ <;> omega

/-- A value may follow the fields with smaller numbers that its field is not chosen against. -/
theorem follows_of_lt {p : Nat × Value} (hf : t.field? number = some f) (hlt : p.1 < number)
    (hothers : p.1 ∉ f.label.others) : Follows t p (number, v) := by
  refine ⟨f, hf, Field.mayFollow_iff.2 ⟨hothers, Or.inl ?_⟩⟩
  rwa [MessageType.number_of_field? hf]

/-- It may stand in front of the fields with greater numbers that its field is not chosen against,
since these are not chosen against it either. -/
theorem follows_of_gt {q : Nat × Value} {g : Field} (hf : t.field? number = some f)
    (hg : t.field? q.1 = some g) (hlt : number < q.1) (hothers : q.1 ∉ f.label.others) :
    Follows t (number, v) q := by
  refine follows_of_lt hg hlt ?_
  intro hmem
  have hsymm := t.others_symm f (List.mem_of_find?_eq_some hf) g (List.mem_of_find?_eq_some hg)
  rw [MessageType.number_of_field? hf, MessageType.number_of_field? hg] at hsymm
  exact hothers (hsymm hmem)

/-- A value that fits its field is put where nothing is that it is chosen against. -/
theorem isOf_put (h : m.isOf t = true) (hf : t.field? number = some f) (hv : v.fits f = true)
    (hothers : ∀ p ∈ m, p.1 ∉ f.label.others) : (m.put number v).isOf t = true := by
  obtain ⟨hentries, hpairs⟩ := isOf_iff.1 h
  refine isOf_iff.2 ⟨?_, ?_⟩
  · intro p hp
    rcases mem_put hp with rfl | hp
    · exact ⟨f, hf, hv⟩
    · exact hentries p hp
  · clear h
    induction m with
    | nil => exact List.pairwise_singleton ..
    | cons p m ih =>
      obtain ⟨k, u⟩ := p
      obtain ⟨hhead, htail⟩ := List.pairwise_cons.1 hpairs
      have hasc : Ascending ((k, u) :: m) := hpairs.imp Follows.le
      obtain ⟨hothersHead, hothersTail⟩ := List.forall_mem_cons.1 hothers
      rcases Nat.lt_trichotomy k number with hk | rfl | hk
      · rw [put_cons_of_lt hk]
        refine List.pairwise_cons.2 ⟨?_, ih hothersTail (List.forall_mem_cons.1 hentries).2 htail⟩
        intro q hq
        rcases mem_put hq with rfl | hq
        · exact follows_of_lt hf hk hothersHead
        · exact hhead q hq
      · rw [put_cons_self]
        exact List.pairwise_cons.2 ⟨hhead, htail⟩
      · rw [put_cons_of_gt hk]
        refine List.pairwise_cons.2 ⟨?_, hpairs⟩
        intro q hq
        obtain ⟨g, hg, -⟩ := hentries q hq
        exact follows_of_gt hf hg (hasc.lt_of_mem_cons hk q hq) (hothers q hq)

/-- A value is pushed behind those of its own field, if they stand one by one. -/
theorem isOf_push (h : m.isOf t = true) (hf : t.field? number = some f) (hv : v.fits f = true)
    (hlisted : f.isListed = true) : (m.push number v).isOf t = true := by
  have hnumber := MessageType.number_of_field? hf
  have hothers := Field.others_of_repeated (Field.label_of_isListed hlisted)
  obtain ⟨hentries, hpairs⟩ := isOf_iff.1 h
  refine isOf_iff.2 ⟨?_, ?_⟩
  · intro p hp
    rcases mem_push hp with rfl | hp
    · exact ⟨f, hf, hv⟩
    · exact hentries p hp
  · clear h
    induction m with
    | nil => exact List.pairwise_singleton ..
    | cons p m ih =>
      obtain ⟨k, u⟩ := p
      obtain ⟨hhead, htail⟩ := List.pairwise_cons.1 hpairs
      have hasc : Ascending ((k, u) :: m) := hpairs.imp Follows.le
      rcases Nat.lt_or_ge number k with hk | hk
      · rw [push_cons_of_gt hk]
        refine List.pairwise_cons.2 ⟨?_, hpairs⟩
        intro q hq
        obtain ⟨g, hg, -⟩ := hentries q hq
        exact follows_of_gt hf hg (hasc.lt_of_mem_cons hk q hq) (hothers ▸ List.not_mem_nil)
      · rw [push_cons_of_le hk]
        refine List.pairwise_cons.2 ⟨?_, ih (List.forall_mem_cons.1 hentries).2 htail⟩
        intro q hq
        rcases mem_push hq with rfl | hq
        · refine ⟨f, hf, Field.mayFollow_iff.2 ⟨hothers ▸ List.not_mem_nil, ?_⟩⟩
          rw [hnumber, hlisted]
          exact (Nat.lt_or_eq_of_le hk).imp_right fun he => ⟨he, rfl⟩
        · exact hhead q hq

/-- A single value that is set unsets what it is chosen against, or is left out. -/
theorem isOf_set {s : Scalar} (h : m.isOf t = true) (hf : t.field? number = some f)
    (htype : f.type = .scalar s) (hl : f.label ≠ .repeated) (hv : s.isOne v = true) :
    (m.set number f.label v).isOf t = true := by
  have hfits : (f.label = .singular → v.isDefault = false) → v.fits f = true :=
    fun hdefault => (Value.fits_scalar htype).2 (Or.inr ⟨hl, hv, hdefault⟩)
  cases hlabel : f.label with
  | singular =>
    have hothers : ∀ p ∈ m, p.1 ∉ f.label.others := by simp [hlabel, Label.others]
    rw [set]
    split
    · exact isOf_filter h _
    · next hdefault => exact isOf_put h hf (hfits fun _ => Bool.not_eq_true _ ▸ hdefault) hothers
  | optional =>
    have hothers : ∀ p ∈ m, p.1 ∉ f.label.others := by simp [hlabel, Label.others]
    exact isOf_put h hf (hfits (by simp [hlabel])) hothers
  | choice others =>
    have hothers : ∀ p ∈ others.foldl erase m, p.1 ∉ f.label.others := by
      intro p hp
      rw [hlabel]
      exact (mem_foldl_erase hp).2
    exact isOf_put (isOf_foldl_erase h others) hf (hfits (by simp [hlabel])) hothers
  | «repeated» => exact absurd hlabel hl

/-- Numbers are added to those that their field has. -/
theorem isOf_extend {s : Scalar} (h : m.isOf t = true) (hf : t.field? number = some f)
    (htype : f.type = .scalar s) (hl : f.label = .repeated)
    (hv : v.isDefault = false → s.isEntry v = true) : (m.extend number v).isOf t = true := by
  have hothers : ∀ p ∈ m, p.1 ∉ f.label.others := by simp [Field.others_of_repeated hl]
  unfold extend
  split
  · exact h
  · next hdefault =>
    have hentry := hv (Bool.not_eq_true _ ▸ hdefault)
    split
    · exact isOf_put h hf ((Value.fits_scalar htype).2 (Or.inl ⟨hl, hentry⟩)) hothers
    · next w hw =>
      obtain ⟨g, hg, hfits⟩ := field?_of_isOf h _ (mem_of_get? hw)
      cases hf.symm.trans hg
      have happend : s.isEntry (w.append v) = true := by
        rcases (Value.fits_scalar htype).1 hfits with ⟨-, hw⟩ | ⟨hnot, -⟩
        · exact Scalar.isEntry_append hentry hw
        · exact absurd hl hnot
      exact isOf_put h hf ((Value.fits_scalar htype).2 (Or.inl ⟨hl, happend⟩)) hothers

end Message

end Edits

/-! ## Decoding -/

section Decoding

variable {enter : MessageType → Message → Bytes → Option Message} {budget number : Nat}
  {t : MessageType} {f : Field} {m m' : Message} {wireType : WireType} {payload input : Bytes}

/-- What a message is merged into is of its type. -/
theorem isOf_getD_child? {child : MessageType} (hm : m.isOf t = true)
    (hf : t.field? number = some f) (htype : f.type = .message child) :
    ((m.child? number).getD []).isOf child = true := by
  cases hsub : m.child? number with
  | none => exact Message.isOf_nil
  | some sub =>
    exact Message.isOf_child? hm (MessageType.childType?_eq_some_iff.2 ⟨f, hf, htype⟩) hsub

/-- One record keeps a message one of its type, if the messages below it are. -/
theorem isOf_decode
    (henter : ∀ child sub payload sub', Message.isOf sub child = true →
      enter child sub payload = some sub' → Message.isOf sub' child = true)
    (hf : t.field? number = some f) (hm : m.isOf t = true)
    (h : f.decode enter wireType payload m = some m') : m'.isOf t = true := by
  have hnumber := MessageType.number_of_field? hf
  subst hnumber
  unfold Field.decode at h
  split at h
  · next child htype =>
    split at h
    · split at h
      · next hl =>
        obtain ⟨sub, hsub, rfl⟩ := Option.map_eq_some_iff.1 h
        have hsubOf := henter child [] payload sub Message.isOf_nil hsub
        exact Message.isOf_push hm hf (Value.fits_message.2 ⟨child, htype, hsubOf⟩)
          (by simp [Field.isListed, hl, htype])
      · obtain ⟨sub, hsub, rfl⟩ := Option.map_eq_some_iff.1 h
        have hsubOf := henter child _ payload sub (isOf_getD_child? hm hf htype) hsub
        exact Message.isOf_put hm hf (Value.fits_message.2 ⟨child, htype, hsubOf⟩)
          (by simp [MessageType.others_of_message hf htype])
    · cases h
  · next s htype =>
    split at h
    · next hl =>
      split at h
      · next hs =>
        split at h
        · obtain ⟨v, hv, rfl⟩ := Option.map_eq_some_iff.1 h
          have hentry := (Scalar.isEntry_iff_isOne hs).2 (Scalar.isOne_of_read? hv)
          exact Message.isOf_push hm hf ((Value.fits_scalar htype).2 (Or.inl ⟨hl, hentry⟩))
            (by simp [Field.isListed, hl, htype, hs])
        · cases h
      · split at h
        · obtain ⟨v, hv, rfl⟩ := Option.map_eq_some_iff.1 h
          exact Message.isOf_extend hm hf htype hl fun _ => Scalar.isEntry_of_readElement? hv
        · split at h
          · obtain ⟨v, hv, rfl⟩ := Option.map_eq_some_iff.1 h
            exact Message.isOf_extend hm hf htype hl (Scalar.isEntry_of_readPacked? hv)
          · cases h
    · next hl =>
      split at h
      · obtain ⟨v, hv, rfl⟩ := Option.map_eq_some_iff.1 h
        exact Message.isOf_set hm hf htype hl (Scalar.isOne_of_read? hv)
      · cases h

/-- What each known field keeps, decoding keeps. -/
theorem decodeRecords_invariant {P : Message → Prop}
    (hstep : ∀ k f wireType payload m m', t.field? k = some f → P m →
      f.decode enter wireType payload m = some m' → P m')
    (hm : P m) (h : decodeRecords enter budget t m input = some m') : P m' := by
  -- A known field is decoded in the fifth case; in the other two that go on, the message stays.
  fun_induction decodeRecords enter budget t m input with
  | case1 =>
    cases h
    exact hm
  | case5 m input hne key hk hlt f hf length payload rest hp hr m₁ hdecode ih =>
    exact ih (hstep _ f _ payload m m₁ hf hm hdecode) h
  | case8 m input hne key hk hlt hf hbudget hgroup rest hr hskip ih => exact ih hm h
  | case10 m input hne key hk hlt hf hbudget hgroup length payload rest hp hr ih => exact ih hm h
  | _ => cases h

/-- Decoding keeps a message one of its type, on every level of nesting. -/
theorem isOf_decodeInto (hm : m.isOf t = true) (h : decodeInto budget t m input = some m') :
    m'.isOf t = true := by
  induction budget generalizing t m m' input with
  | zero =>
    refine decodeRecords_invariant (P := fun m => m.isOf t = true) ?_ hm h
    intro k f wireType payload m m' hf hm hdecode
    exact isOf_decode (fun _ _ _ _ _ henter => by cases henter) hf hm hdecode
  | succ budget ih =>
    refine decodeRecords_invariant (P := fun m => m.isOf t = true) ?_ hm h
    intro k f wireType payload m m' hf hm hdecode
    exact isOf_decode (fun _ _ _ _ hsub henter => ih hsub henter) hf hm hdecode

/-- Whatever decodes gives a message of the type. -/
theorem Message.isOf_of_decode? (h : decode? t input = some m) : m.isOf t = true :=
  isOf_decodeInto isOf_nil h

/-- The messages that their encodings decode to are those of the type whose encodings decode. -/
theorem decode?_encode_eq_some_iff (hlen : (encode m).length < 2 ^ 64) :
    decode? t (encode m) = some m ↔
      m.isOf t = true ∧ (decode? t (encode m)).isSome = true := by
  constructor
  · intro h
    exact ⟨Message.isOf_of_decode? h, by rw [h]; rfl⟩
  · rintro ⟨hm, hdec⟩
    exact Message.decode?_encode hm hlen hdec

end Decoding

end QuantClassifier.Onnx
