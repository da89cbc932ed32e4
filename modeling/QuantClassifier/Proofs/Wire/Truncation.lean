import QuantClassifier.Proofs.Wire.Grammar

/-!
# Messages that are cut off or continued

A record tells from its own bytes where it ends, so what is read at the front of a message depends
on nothing behind it. If a message is cut, the records of what is left are the first records of the
message, and the cut is behind the last of them (`readAll_take_iff`): a cut in a key, in a length or
in a payload is always an error. What is written behind a message is read as if it stood alone, only
further on (`readPlaced_cut`).
-/

namespace QuantClassifier.Wire.Record

/-- A span that lies further on in a message. -/
def Span.shift (distance : Nat) (s : Span) : Span :=
  ⟨distance + s.start, distance + s.payload, distance + s.stop⟩

/-- Records that follow each other from an offset, each with the place where it lies. -/
def placed (offset : Nat) (rs : List Record) : List (Record × Span) := rs.zip (spans offset rs)

/-- The records of a message, each with the place where it lies. -/
def readPlaced (msg : Bytes) : Except Error (List (Record × Span)) := (readAll msg).map (placed 0)

section Placed

variable {rs front back : List Record} {msg : Bytes} {fs : List (Record × Span)} {f : Record × Span}
  {offset n : Nat}

theorem readPlaced_eq_ok_iff :
    readPlaced msg = .ok fs ↔ ∃ rs, readAll msg = .ok rs ∧ placed 0 rs = fs := by
  unfold readPlaced
  cases readAll msg <;> simp [Except.map]

theorem placed_cons (offset : Nat) (r : Record) (rs : List Record) :
    placed offset (r :: rs) = (r, ⟨offset, offset + r.head.length, offset + r.bytes.length⟩) ::
      placed (offset + r.bytes.length) rs := by
  simp only [placed, spans, List.zip_cons_cons, bytes, List.length_append, Nat.add_assoc]

/-- Further records lie behind the bytes of those before them. -/
theorem placed_append (offset : Nat) (front back : List Record) :
    placed offset (front ++ back) =
      placed offset front ++ placed (offset + (writeAll front).length) back := by
  induction front generalizing offset with
  | nil => rfl
  | cons r front ih =>
    rw [List.cons_append, placed_cons, placed_cons, ih, List.cons_append, writeAll_cons,
      List.length_append, Nat.add_assoc]

theorem placed_add (distance offset : Nat) (rs : List Record) :
    placed (distance + offset) rs =
      (placed offset rs).map fun f => (f.1, f.2.shift distance) := by
  induction rs generalizing offset with
  | nil => rfl
  | cons r rs ih =>
    rw [placed_cons, placed_cons, List.map_cons, Nat.add_assoc distance offset r.bytes.length, ih]
    simp only [Span.shift, Nat.add_assoc]

/-- A place ends where the bytes of the records up to its own do. -/
theorem exists_stop_of_mem_placed (h : f ∈ placed offset rs) :
    ∃ before after, rs = before ++ f.1 :: after ∧
      f.2.stop = offset + (writeAll before).length + f.1.bytes.length := by
  induction rs generalizing offset with
  | nil => cases h
  | cons r rs ih =>
    rw [placed_cons] at h
    rcases List.mem_cons.1 h with rfl | hmem
    · exact ⟨[], rs, rfl, rfl⟩
    · obtain ⟨before, after, rfl, hstop⟩ := ih hmem
      refine ⟨r :: before, after, rfl, ?_⟩
      rw [hstop, writeAll_cons, List.length_append]
      omega

theorem stop_le_of_mem_placed (h : f ∈ placed offset rs) :
    f.2.stop ≤ offset + (writeAll rs).length := by
  obtain ⟨before, after, rfl, hstop⟩ := exists_stop_of_mem_placed h
  rw [hstop, writeAll_append, writeAll_cons, List.length_append, List.length_append]
  omega

theorem Readable.length_bytes_pos {r : Record} (h : r.Readable) : 0 < r.bytes.length := by
  have hpos := (isRecord_iff_readable.2 h).head_pos
  rw [bytes, List.length_append]
  omega

/-- No place ends where the first one begins. -/
theorem lt_stop_of_mem_placed (hrs : ∀ r ∈ rs, r.Readable) (h : f ∈ placed offset rs) :
    offset < f.2.stop := by
  obtain ⟨before, after, rfl, hstop⟩ := exists_stop_of_mem_placed h
  have hpos := (hrs f.1 (List.mem_append_right _ (List.mem_cons_self ..))).length_bytes_pos
  omega

/-! ## Cutting -/

/-- The beginnings of a message that are messages are those that end behind a record, and they have
the records up to there. -/
theorem readAll_take_iff (h : readAll msg = .ok rs) (hn : n ≤ msg.length) :
    readAll (msg.take n) = .ok front ↔
      ∃ back, rs = front ++ back ∧ (writeAll front).length = n := by
  constructor
  · intro hfront
    obtain ⟨hbytes, hreadable⟩ := readAll_eq_ok_iff.1 hfront
    -- The records of the beginning are read first in the whole message as well.
    have hsplit := readAll_writeAll_append hreadable (msg.drop n)
    rw [hbytes, List.take_append_drop, h] at hsplit
    cases hback : readAll (msg.drop n) with
    | error e =>
      rw [hback] at hsplit
      cases hsplit
    | ok back =>
      rw [hback] at hsplit
      exact ⟨back, Except.ok.inj hsplit, by rw [hbytes, List.length_take_of_le hn]⟩
  · rintro ⟨back, rfl, rfl⟩
    obtain ⟨hbytes, hreadable⟩ := readAll_eq_ok_iff.1 h
    rw [← hbytes, writeAll_append, List.take_left]
    exact readAll_writeAll fun r hr => hreadable r (List.mem_append_left _ hr)

/-- The places that end in front of the end of some first records are the places of these. -/
theorem filter_placed (hreadable : ∀ r ∈ back, r.Readable) :
    ((placed 0 (front ++ back)).filter fun f => f.2.stop ≤ (writeAll front).length) =
      placed 0 front := by
  rw [placed_append, Nat.zero_add, List.filter_append, List.filter_eq_self.2,
    List.filter_eq_nil_iff.2, List.append_nil]
  · intro f hf
    have hlt := lt_stop_of_mem_placed hreadable hf
    simp only [decide_eq_true_eq]
    omega
  · intro f hf
    have hle := stop_le_of_mem_placed hf
    simp only [decide_eq_true_eq]
    omega

/-- Some records end where the message begins or at the end of a place. -/
theorem length_writeAll_eq_iff :
    (∃ front back, rs = front ++ back ∧ (writeAll front).length = n) ↔
      n = 0 ∨ ∃ f ∈ placed 0 rs, f.2.stop = n := by
  constructor
  · rintro ⟨front, back, rfl, rfl⟩
    rcases List.eq_nil_or_concat front with rfl | ⟨before, r, rfl⟩
    · exact Or.inl rfl
    · right
      rw [List.concat_eq_append, List.append_assoc, List.singleton_append, placed_append,
        placed_cons]
      refine ⟨_, List.mem_append_right _ (List.mem_cons_self ..), ?_⟩
      simp
  · rintro (rfl | ⟨f, hf, rfl⟩)
    · exact ⟨[], rs, rfl, rfl⟩
    · obtain ⟨before, after, rfl, hstop⟩ := exists_stop_of_mem_placed hf
      refine ⟨before ++ [f.1], after, by simp, ?_⟩
      rw [hstop]
      simp

end Placed

/-- A message that is cut is a message only if the cut is at its beginning or at the end of one of
its records, and then it has the records that end in front of the cut, at their old places. Behind a
message everything is read as it is read alone, errors included, with places that lie behind those
of the message. -/
theorem readPlaced_cut {msg : Bytes} {fs : List (Record × Span)} (h : readPlaced msg = .ok fs) :
    (∀ n ≤ msg.length,
      ((∃ gs, readPlaced (msg.take n) = .ok gs) ↔ n = 0 ∨ ∃ f ∈ fs, f.2.stop = n) ∧
      ∀ gs, readPlaced (msg.take n) = .ok gs → gs = fs.filter fun f => f.2.stop ≤ n) ∧
    ∀ rest, readPlaced (msg ++ rest) =
      (readPlaced rest).map fun gs => fs ++ gs.map fun f => (f.1, f.2.shift msg.length) := by
  obtain ⟨rs, hrs, rfl⟩ := readPlaced_eq_ok_iff.1 h
  obtain ⟨hbytes, hreadable⟩ := readAll_eq_ok_iff.1 hrs
  constructor
  · intro n hn
    constructor
    · rw [← length_writeAll_eq_iff]
      constructor
      · rintro ⟨gs, hgs⟩
        obtain ⟨front, hfront, -⟩ := readPlaced_eq_ok_iff.1 hgs
        exact ⟨front, (readAll_take_iff hrs hn).1 hfront⟩
      · rintro ⟨front, hsplit⟩
        exact ⟨_, readPlaced_eq_ok_iff.2 ⟨front, (readAll_take_iff hrs hn).2 hsplit, rfl⟩⟩
    · intro gs hgs
      obtain ⟨front, hfront, rfl⟩ := readPlaced_eq_ok_iff.1 hgs
      obtain ⟨back, rfl, rfl⟩ := (readAll_take_iff hrs hn).1 hfront
      exact (filter_placed fun r hr => hreadable r (List.mem_append_right _ hr)).symm
  · intro rest
    subst hbytes
    unfold readPlaced
    rw [readAll_writeAll_append hreadable]
    cases readAll rest with
    | error e => rfl
    | ok more =>
      have hshift := placed_add (writeAll rs).length 0 more
      rw [Nat.add_zero] at hshift
      simp only [Except.map, placed_append, Nat.zero_add, hshift]

/-- A number and a text of one letter, whose length is padded. -/
def shortMessage : Bytes := [0x08, 0x01, 0x12, 0x81, 0x00, 0x61]

/-- The number of the short message. -/
def firstPlaced : Record × Span := (⟨1, .varint, [0x08], [0x01]⟩, ⟨0, 1, 2⟩)

/-- The text of the short message. -/
def secondPlaced : Record × Span := (⟨2, .lengthDelimited, [0x12, 0x81, 0x00], [0x61]⟩, ⟨2, 5, 6⟩)

/-- The short message cut behind the number, in the key, the length and the payload of the text, and
with itself behind it. -/
theorem readPlaced_cut_shortMessage :
    readPlaced shortMessage = .ok [firstPlaced, secondPlaced] ∧
    readPlaced (shortMessage.take 2) = .ok [firstPlaced] ∧
    (∀ n ∈ [1, 3, 4, 5], ¬ ∃ gs, readPlaced (shortMessage.take n) = .ok gs) ∧
    readPlaced (shortMessage ++ shortMessage) = .ok [firstPlaced, secondPlaced,
      (firstPlaced.1, ⟨6, 7, 8⟩), (secondPlaced.1, ⟨8, 11, 12⟩)] := by
  have hread : (readPlaced shortMessage).toOption = some [firstPlaced, secondPlaced] := by
    decide +kernel
  have hok := toOption_eq_some_iff.1 hread
  obtain ⟨hcut, hbehind⟩ := readPlaced_cut hok
  refine ⟨hok, ?_, ?_, ?_⟩
  · obtain ⟨hiff, hfields⟩ := hcut 2 (by decide)
    obtain ⟨gs, hgs⟩ := hiff.2 (Or.inr ⟨firstPlaced, List.mem_cons_self .., rfl⟩)
    rw [hgs, hfields gs hgs]
    rfl
  · intro n hn
    have hle : ∀ m ∈ [1, 3, 4, 5], m ≤ shortMessage.length := by decide
    have hno : ∀ m ∈ [1, 3, 4, 5],
        ¬ (m = 0 ∨ ∃ f ∈ [firstPlaced, secondPlaced], f.2.stop = m) := by decide
    rw [(hcut n (hle n hn)).1]
    exact hno n hn
  · rw [hbehind, hok]
    rfl

end QuantClassifier.Wire.Record
