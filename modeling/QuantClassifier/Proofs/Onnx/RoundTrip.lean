import QuantClassifier.Proofs.Onnx.Encoding
import QuantClassifier.Proofs.Onnx.Typed

/-!
# Encodings decode to nothing else

The encoding of a message of a type decodes to the message or not at all, the latter only where it
is nested too deep (`Message.eq_of_decodeInto_encode`). Each record holds the whole value of a field
and is absorbed behind the fields before it (`absorb_record`).
-/

namespace QuantClassifier.Onnx

open Wire

section Fields

variable {enter : MessageType → Message → Bytes → Option Message} {budget number : Nat}
  {t : MessageType} {f : Field} {front back m m' : Message} {v : Value}

theorem encode_cons (number : Nat) (v : Value) (m : Message) :
    encode ((number, v) :: m) = (v.record number).bytes ++ encode m := by
  rw [encode, fieldRecords_cons, Record.writeAll_cons, encode]

theorem Field.mayFollow_iff : f.mayFollow number = true ↔
    number ∉ f.label.others ∧ (number < f.number ∨ number = f.number ∧ f.isListed = true) := by
  simp [mayFollow]

theorem Message.foldl_erase_eq_self {others : List Nat} (h : ∀ p ∈ m, p.1 ∉ others) :
    others.foldl erase m = m := by
  induction others with
  | nil => rfl
  | cons other others ih =>
    have herase : m.erase other = m :=
      erase_eq_self fun p hp he => h p hp (he ▸ List.mem_cons_self ..)
    rw [List.foldl_cons, herase, ih]
    intro p hp hmem
    exact h p hp (List.mem_cons_of_mem _ hmem)

theorem Field.isListed_of_ne (h : f.label ≠ .repeated) : f.isListed = false := by
  simp [isListed, h]

theorem Field.le_of_mayFollow (h : ∀ p ∈ front, f.mayFollow p.1 = true) :
    ∀ p ∈ front, p.1 ≤ f.number := by
  intro p hp
  rcases (mayFollow_iff.1 (h p hp)).2 with hlt | ⟨he, -⟩
  · exact Nat.le_of_lt hlt
  · exact Nat.le_of_eq he

theorem Field.lt_of_mayFollow (h : ∀ p ∈ front, f.mayFollow p.1 = true)
    (hlisted : f.isListed = false) : ∀ p ∈ front, p.1 < f.number := by
  intro p hp
  rcases (mayFollow_iff.1 (h p hp)).2 with hlt | ⟨-, hl⟩
  · exact hlt
  · rw [hlisted] at hl
    cases hl

/-- A field whose values do not stand one by one is not there yet when its value is absorbed. -/
theorem Field.get?_of_mayFollow (h : ∀ p ∈ front, f.mayFollow p.1 = true)
    (hlisted : f.isListed = false) : front.get? f.number = none := by
  rw [Message.get?_eq_none_iff]
  intro p hp
  exact Nat.ne_of_lt (lt_of_mayFollow h hlisted p hp)

/-- A message is not merged into one before it. -/
theorem Field.decode_message {child : MessageType} {sub : Message} (hf : f.type = .message child)
    (hfront : ∀ p ∈ front, f.mayFollow p.1 = true)
    (henter : ∀ sub', enter child [] (encode sub) = some sub' → sub' = sub)
    (h : f.decode enter .lengthDelimited (encode sub) front = some m') :
    m' = front ++ [(f.number, .message sub)] := by
  simp only [decode, hf, if_true] at h
  split at h
  · obtain ⟨sub', hsub', rfl⟩ := Option.map_eq_some_iff.1 h
    rw [henter sub' hsub', Message.push_eq_append (le_of_mayFollow hfront)]
  · next hl =>
    have hlisted := isListed_of_ne hl
    obtain ⟨sub', hsub', rfl⟩ := Option.map_eq_some_iff.1 h
    rw [Message.child?, get?_of_mayFollow hfront hlisted] at hsub'
    rw [henter sub' hsub', Message.put_eq_append (lt_of_mayFollow hfront hlisted)]

/-- All numbers of a field are there at once, and its texts one by one. -/
theorem Field.decode_entry {s : Scalar} (hf : f.type = .scalar s) (hl : f.label = .repeated)
    (hv : s.isEntry v = true) (hfront : ∀ p ∈ front, f.mayFollow p.1 = true) :
    f.decode enter (v.record f.number).wireType (v.record f.number).payload front =
      some (front ++ [(f.number, v)]) := by
  simp only [decode, hf, hl]
  cases hs : s.isDelimited with
  | true =>
    obtain ⟨hwire, hread⟩ :=
      Scalar.read?_record ((Scalar.isEntry_iff_isOne hs).1 hv) f.number
    rw [of_decide_eq_true hs] at hwire
    rw [if_pos rfl, if_pos hwire, hread, Option.map_some,
      Message.push_eq_append (le_of_mayFollow hfront)]
  | false =>
    obtain ⟨hwire, hread, hdefault⟩ := Scalar.readPacked?_record hv hs f.number
    have hother : ¬ (v.record f.number).wireType = s.wireType := by
      rw [hwire]
      exact fun he => of_decide_eq_false hs he.symm
    have hlisted : f.isListed = false := by simp [isListed, hf, hs]
    rw [if_neg Bool.false_ne_true, if_neg hother, if_pos hwire, hread, Option.map_some,
      Message.extend, hdefault, get?_of_mayFollow hfront hlisted]
    exact congrArg some (Message.put_eq_append (lt_of_mayFollow hfront hlisted) v)

/-- A single value is set, and nothing is there that it is chosen against. -/
theorem Field.decode_one {s : Scalar} (hf : f.type = .scalar s) (hl : f.label ≠ .repeated)
    (hv : s.isOne v = true) (hdefault : f.label = .singular → v.isDefault = false)
    (hfront : ∀ p ∈ front, f.mayFollow p.1 = true) :
    f.decode enter (v.record f.number).wireType (v.record f.number).payload front =
      some (front ++ [(f.number, v)]) := by
  obtain ⟨hwire, hread⟩ := Scalar.read?_record hv f.number
  have hput := Message.put_eq_append (lt_of_mayFollow hfront (isListed_of_ne hl)) v
  have hset : front.set f.number f.label v = front ++ [(f.number, v)] := by
    cases hlabel : f.label with
    | singular =>
      rw [Message.set, hdefault hlabel]
      exact hput
    | optional => exact hput
    | choice others =>
      have hothers : ∀ p ∈ front, p.1 ∉ others := by
        intro p hp
        have hmem := (mayFollow_iff.1 (hfront p hp)).1
        rwa [hlabel] at hmem
      rw [Message.set, Message.foldl_erase_eq_self hothers]
      exact hput
    | «repeated» => exact absurd hlabel hl
  simp only [decode, hf, hwire, hread, if_true, Option.map_some, hset]

/-- The record of a value that fits behind some fields is absorbed as the value behind them. -/
theorem absorb_record (hf : t.field? number = some f) (hv : v.fits f = true)
    (hfront : ∀ p ∈ front, f.mayFollow p.1 = true)
    (henter : ∀ child sub sub', v = .message sub → Message.isOf sub child = true →
      enter child [] (encode sub) = some sub' → sub' = sub)
    (h : absorb enter budget t front (v.record number) = some m') :
    m' = front ++ [(number, v)] := by
  have hnumber := MessageType.number_of_field? hf
  subst hnumber
  simp only [absorb, Value.number_record, hf] at h
  rcases Value.cases_of_fits hv with ⟨child, sub, htype, rfl, hsub⟩ |
    ⟨s, htype, ⟨hl, hentry⟩ | ⟨hl, hone, hdefault⟩⟩
  · rw [Value.record_message] at h
    exact Field.decode_message htype hfront (fun sub' => henter child sub sub' rfl hsub) h
  · rw [Field.decode_entry htype hl hentry hfront] at h
    exact (Option.some.inj h).symm
  · rw [Field.decode_one htype hl hone hdefault hfront] at h
    exact (Option.some.inj h).symm

/-- The records of some fields that may stand behind others are absorbed as the fields behind
them. -/
theorem foldlM_fieldRecords_eq
    (henter : ∀ child sub sub', Message.isOf sub child = true →
      (encode sub).length ≤ (encode back).length →
      enter child [] (encode sub) = some sub' → sub' = sub)
    (hback : back.isOf t = true)
    (hfront : ∀ p ∈ back, ∃ f, t.field? p.1 = some f ∧ ∀ q ∈ front, f.mayFollow q.1 = true)
    (h : (fieldRecords back).foldlM (absorb enter budget t) front = some m') :
    m' = front ++ back := by
  -- Each step moves one field over to the front, behind which the next ones still may stand.
  induction back generalizing front with
  | nil =>
    cases h
    exact (List.append_nil _).symm
  | cons p back ih =>
    obtain ⟨k, v⟩ := p
    obtain ⟨⟨f, hf, hv⟩, hmay, hback⟩ := Message.isOf_cons.1 hback
    rw [fieldRecords_cons, List.foldlM_cons] at h
    obtain ⟨m₁, hm₁, h⟩ := Option.bind_eq_some_iff.1 h
    obtain ⟨f', hf', hbefore⟩ := hfront (k, v) (List.mem_cons_self ..)
    cases hf.symm.trans hf'
    have hhead : m₁ = front ++ [(k, v)] := by
      refine absorb_record hf hv hbefore ?_ hm₁
      rintro child sub sub' rfl hsub
      apply henter child sub sub' hsub
      rw [encode_cons, List.length_append, Value.record_message, Record.bytes, List.length_append]
      change (encode sub).length ≤ _ + (encode sub).length + _
      omega
    subst hhead
    rw [ih ?_ hback ?_ h, List.append_assoc, List.singleton_append]
    · intro child sub sub' hsub hlen
      apply henter child sub sub' hsub
      rw [encode_cons, List.length_append]
      exact Nat.le_trans hlen (Nat.le_add_left ..)
    · intro p hp
      obtain ⟨f, hf, hafter⟩ := hfront p (List.mem_cons_of_mem _ hp)
      obtain ⟨f', hf', hlast⟩ := hmay p hp
      cases hf.symm.trans hf'
      refine ⟨f, hf, ?_⟩
      intro q hq
      rcases List.mem_append.1 hq with hq | hq
      · exact hafter q hq
      · rwa [List.mem_singleton.1 hq]

/-- If the messages within are the only ones that their encodings decode to, so is the message. -/
theorem Message.eq_of_enterBelow (hm : m.isOf t = true) (hlen : (encode m).length < 2 ^ 64)
    (henter : ∀ child sub sub', Message.isOf sub child = true →
      (encode sub).length ≤ (encode m).length →
      enterBelow budget child [] (encode sub) = some sub' → sub' = sub)
    (h : decodeInto budget t [] (encode m) = some m') : m' = m := by
  rw [decodeInto_eq] at h
  have hall : Record.readAll (encode m) = .ok (fieldRecords m) :=
    Record.readAll_writeAll (readable_of_decodeRecords h hlen)
  rw [decodeRecords_of_readAll hall] at h
  refine foldlM_fieldRecords_eq henter hm ?_ h
  intro p hp
  obtain ⟨f, hf, -⟩ := field?_of_isOf hm p hp
  exact ⟨f, hf, fun q hq => absurd hq List.not_mem_nil⟩

end Fields

/-- What the encoding of a message of a type decodes to is the message. -/
theorem Message.eq_of_decodeInto_encode {budget : Nat} {t : MessageType} {m m' : Message}
    (hm : m.isOf t = true) (hlen : (encode m).length < 2 ^ 64)
    (h : decodeInto budget t [] (encode m) = some m') : m' = m := by
  induction budget generalizing t m m' with
  | zero => exact eq_of_enterBelow hm hlen (fun _ _ _ _ _ henter => by cases henter) h
  | succ budget ih =>
    refine eq_of_enterBelow hm hlen ?_ h
    intro child sub sub' hsub hle henter
    exact ih hsub (Nat.lt_of_le_of_lt hle hlen) henter

theorem Message.decode?_encode {t : MessageType} {m : Message} (hm : m.isOf t = true)
    (hlen : (encode m).length < 2 ^ 64) (h : (decode? t (encode m)).isSome = true) :
    decode? t (encode m) = some m := by
  obtain ⟨m', hm'⟩ := Option.isSome_iff_exists.1 h
  rw [hm', eq_of_decodeInto_encode hm hlen hm']

end QuantClassifier.Onnx
