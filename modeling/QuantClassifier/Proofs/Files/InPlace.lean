import QuantClassifier.Files.Store
import QuantClassifier.Outcome

/-!
# Writing a file that exists

A path that leads to a file can be written, and the file is then written at the place that it is
read from (`target_of_locate`). Afterwards all paths lead where they led, the file holds what was
written, and every other place is as it was (`Rewritten.write`).
-/

namespace QuantClassifier.Store

/-- The place that a path leads to. -/
def locate (s : Store) (path : String) : Except PathError Location := names path >>= s.walk []

section Walk

variable {s s' : Store} {l l' place : Location} {name : List Char} {rest : List (List Char)}
  {path : String} {bytes content : List UInt8}

theorem file?_eq_some_iff : s.file? path = some content ↔
    ∃ place, s.locate path = .ok place ∧ s.node? place = some (.file content) := by
  unfold file? locate
  cases names path >>= s.walk [] with
  | error e => simp
  | ok place =>
    simp only [Except.ok.injEq, exists_eq_left']
    cases s.node? place with
    | none => simp
    | some node => cases node <;> simp

theorem requireDirectory_eq_ok_iff :
    s.requireDirectory l = .ok () ↔ s.node? l = some .directory := by
  unfold requireDirectory
  cases s.node? l with
  | none => simp
  | some node => cases node <;> simp

/-- Only directories decide where names lead. -/
theorem walk_congr (h : ∀ l, s'.requireDirectory l = s.requireDirectory l) (l : Location)
    (names : List (List Char)) : s'.walk l names = s.walk l names := by
  induction names generalizing l with
  | nil => rfl
  | cons name names ih => simp only [walk, h, ih]

theorem locate_congr (h : ∀ l, s'.requireDirectory l = s.requireDirectory l) (path : String) :
    s'.locate path = s.locate path := by
  unfold locate
  congr 1
  funext names
  exact walk_congr h [] names

theorem walk_append (s : Store) (l : Location) (init rest : List (List Char)) :
    s.walk l (init ++ rest) = s.walk l init >>= fun l' => s.walk l' rest := by
  induction init generalizing l with
  | nil => rfl
  | cons name init ih =>
    simp only [List.cons_append, walk, ih, bind_assoc]
    cases s.requireDirectory l with
    | error e => rfl
    | ok u =>
      simp only [bind, Except.bind]
      split
      · rfl
      · split
        · split <;> rfl
        · cases requireName name <;> rfl

/-- What lies above a place is directories. -/
def DirectoriesAbove (s : Store) (l : Location) : Prop :=
  ∀ k < l.length, s.node? (l.take k) = some .directory

/-- Names lead through directories only. -/
theorem directoriesAbove_of_walk (h : s.walk l rest = .ok place) (hl : s.DirectoriesAbove l) :
    s.DirectoriesAbove place := by
  induction rest generalizing l with
  | nil =>
    cases h
    exact hl
  | cons name rest ih =>
    simp only [walk, bind_eq_ok_iff] at h
    obtain ⟨u, hdir, h⟩ := h
    have hdir := requireDirectory_eq_ok_iff.1 hdir
    split at h
    · exact ih h hl
    · split at h
      · split at h
        · cases h
        · apply ih h
          intro k hk
          rw [List.length_dropLast] at hk
          rw [List.dropLast_eq_take, List.take_take, Nat.min_eq_left (by omega)]
          exact hl k (by omega)
      · obtain ⟨v, -, h⟩ := bind_eq_ok_iff.1 h
        apply ih h
        intro k hk
        rw [List.length_append, List.length_singleton] at hk
        rcases Nat.lt_or_eq_of_le (Nat.le_of_lt_succ hk) with hlt | rfl
        · rw [List.take_append_of_le_length (Nat.le_of_lt hlt)]
          exact hl k hlt
        · rw [List.take_left]
          exact hdir

/-- The last name that leads to a file is a name in a directory. -/
theorem exists_parent_of_walk {names : List (List Char)} (h : s.walk [] names = .ok place)
    (hfile : s.node? place = some (.file content)) :
    ∃ init name parent, names = init ++ [name] ∧ s.walk [] init = .ok parent ∧
      s.requireDirectory parent = .ok () ∧ Path.stays name = false ∧ Path.ascends name = false ∧
      requireName name = .ok () ∧ place = parent ++ [name] := by
  rcases List.eq_nil_or_concat names with rfl | ⟨init, name, rfl⟩
  · cases h
    cases hfile
  · rw [List.concat_eq_append, walk_append] at h
    obtain ⟨parent, hparent, h⟩ := bind_eq_ok_iff.1 h
    have habove := directoriesAbove_of_walk hparent (fun k hk => by cases hk)
    simp only [walk, bind_eq_ok_iff] at h
    obtain ⟨u, hdir, h⟩ := h
    have hnode := requireDirectory_eq_ok_iff.1 hdir
    split at h
    · cases h
      rw [hnode] at hfile
      cases hfile
    · next hstays =>
      split at h
      · split at h
        · cases h
        · next hne =>
          cases h
          have hlt : parent.length - 1 < parent.length := by
            have := List.length_pos_iff.2 hne
            omega
          rw [List.dropLast_eq_take, habove _ hlt] at hfile
          cases hfile
      · next hascends =>
        obtain ⟨v, hname, h⟩ := bind_eq_ok_iff.1 h
        cases h
        exact ⟨init, name, parent, List.concat_eq_append .., hparent, hdir,
          Bool.not_eq_true _ ▸ hstays, Bool.not_eq_true _ ▸ hascends, hname, rfl⟩

/-- A file is written where it is read. -/
theorem target_of_locate (h : s.locate path = .ok place)
    (hfile : s.node? place = some (.file content)) : s.target path = .ok place := by
  obtain ⟨all, hall, hwalk⟩ := bind_eq_ok_iff.1 h
  obtain ⟨init, name, parent, rfl, hparent, hdir, hstays, hascends, hname, rfl⟩ :=
    exists_parent_of_walk hwalk hfile
  have hempty : name.isEmpty = false := by
    simp only [Path.stays, Bool.or_eq_false_iff] at hstays
    exact hstays.1
  have hnamed : ((init ++ [name]).reverse.dropWhile List.isEmpty).reverse = init ++ [name] := by
    rw [List.reverse_append, List.reverse_singleton, List.singleton_append,
      List.dropWhile_cons_of_neg (by simp [hempty]), List.reverse_cons, List.reverse_reverse]
  unfold target
  simp only [hall, hnamed, List.dropLast_concat, List.getLast?_concat, Option.getD_some, hparent,
    hdir, hstays, hascends, hname, hfile, bind, Except.bind, Nat.lt_irrefl, if_false,
    Bool.or_self, pure, Except.pure]
  simp

end Walk

section Rewritten

variable {s s' : Store} {path : String} {content new : List UInt8} {place : Location}

theorem requireDirectory_put_file (hfile : s.node? place = some (.file content))
    (new : List UInt8) (l : Location) :
    (s.put place (.file new)).requireDirectory l = s.requireDirectory l := by
  have hne : place ≠ [] := by
    rintro rfl
    cases hfile
  unfold requireDirectory
  by_cases hl : l = place
  · subst hl
    rw [node?_put_self s hne, hfile]
  · rw [node?_put_of_ne s hl]

/-- The second store is the first one with some content in the file of a path. -/
structure Rewritten (s : Store) (path : String) (content : List UInt8) (s' : Store) : Prop where
  file : s'.file? path = some content
  locate : ∀ other, s'.locate other = s.locate other
  others : ∀ place, s.locate path ≠ .ok place → s'.node? place = s.node? place

theorem rewritten_self (h : s.file? path = some content) : Rewritten s path content s where
  file := h
  locate := fun _ => rfl
  others := fun _ _ => rfl

/-- A file is written in place of what it held. -/
theorem Rewritten.write (h : Rewritten s path content s') (new : List UInt8) :
    ∃ s'', s'.write path new = .ok s'' ∧ Rewritten s path new s'' := by
  obtain ⟨place, hplace, hfile⟩ := file?_eq_some_iff.1 h.file
  have hdirs := requireDirectory_put_file hfile new
  have hlocate := locate_congr hdirs
  refine ⟨s'.put place (.file new), ?_, ?_, ?_, ?_⟩
  · unfold Store.write
    rw [target_of_locate hplace hfile]
  · rw [file?_eq_some_iff]
    refine ⟨place, (hlocate path).trans hplace, node?_put_self s' ?_ _⟩
    rintro rfl
    cases hfile
  · intro other
    rw [hlocate, h.locate]
  · intro other hother
    have hne : other ≠ place := by
      rintro rfl
      exact hother ((h.locate path).symm.trans hplace)
    rw [node?_put_of_ne s' hne, h.others other hother]

/-- A file at another place keeps its content. -/
theorem Rewritten.file?_of_ne (h : Rewritten s path content s') {other : String}
    (hne : s.locate other ≠ s.locate path) : s'.file? other = s.file? other := by
  apply Option.ext
  intro bytes
  simp only [file?_eq_some_iff, h.locate]
  apply exists_congr
  intro place
  apply and_congr_right
  intro hplace
  have hother : s.locate path ≠ .ok place := fun hp => hne (hplace.trans hp.symm)
  rw [h.others place hother]

end Rewritten

end QuantClassifier.Store
