import QuantClassifier.Files.Path
import QuantClassifier.Proofs.Text.Cutting

/-!
# The last component of a path

What the last component of a path is, is said by what stands around it: nothing or a directory and a
slash in front of it, and behind it only slashes and names for the directory itself (`isLast_iff`).
Its extension is what follows its last dot, if something stands in front of that
(`extensionOf?_eq_some_iff`).
-/

namespace QuantClassifier.Path

/-- What leads nowhere at the end of a path: slashes, and names for the directory itself. -/
inductive Trailing : List Char → Prop where
  | nil : Trailing []
  | slash {rest : List Char} : Trailing rest → Trailing ('/' :: rest)
  | here {rest : List Char} : Trailing rest → Trailing ('/' :: '.' :: rest)

/-- A name of a file or a directory other than the one that is there already. -/
structure IsName (name : List Char) : Prop where
  not_mem : '/' ∉ name
  ne_nil : name ≠ []
  ne_here : name ≠ ['.']

/-- The last component of a path. -/
inductive IsLast : (path name : List Char) → Prop where
  | alone {name back : List Char} : IsName name → Trailing back → IsLast (name ++ back) name
  | within {directory name back : List Char} : IsName name → Trailing back →
      IsLast (directory ++ '/' :: (name ++ back)) name

variable {path rest back directory name stem ext : List Char}

/-! ## Components -/

theorem stays_eq_true_iff : stays name = true ↔ name = [] ∨ name = ['.'] := by
  simp [stays, List.isEmpty_iff]

theorem components_append (path rest : List Char) :
    components (path ++ '/' :: rest) = components path ++ components rest := by
  rw [components, names, Text.splitAt_append, List.filter_append]
  rfl

theorem components_of_stays (h : stays name = true) : components name = [] := by
  rcases stays_eq_true_iff.1 h with rfl | rfl <;> rfl

theorem components_of_isName (h : IsName name) : components name = [name] := by
  have hstays : stays name = false :=
    Bool.eq_false_iff.2 fun h' => (stays_eq_true_iff.1 h').elim h.ne_nil h.ne_here
  rw [components, names, Text.splitAt_of_not_mem h.not_mem]
  simp [hstays]

/-- A piece between slashes is a component or does not count. -/
theorem stays_or_isName (h : '/' ∉ name) : stays name = true ∨ IsName name := by
  rw [stays_eq_true_iff]
  by_cases hnil : name = []
  · exact .inl (.inl hnil)
  · by_cases hhere : name = ['.']
    · exact .inl (.inr hhere)
    · exact .inr ⟨h, hnil, hhere⟩

theorem components_append_of_trailing (h : Trailing back) (path : List Char) :
    components (path ++ back) = components path := by
  induction h generalizing path with
  | nil => rw [List.append_nil]
  | @slash rest _ ih =>
    have hrest : components rest = [] := ih []
    rw [components_append, hrest, List.append_nil]
  | @here rest _ ih =>
    have hrest : components ('.' :: rest) = [] := ih ['.']
    rw [components_append, hrest, List.append_nil]

theorem trailing_of_components_eq_nil (h : components rest = []) : Trailing ('/' :: rest) := by
  have hpiece : ∀ {piece back : List Char}, '/' ∉ piece → components piece = [] →
      Trailing back → Trailing ('/' :: (piece ++ back)) := by
    intro piece back hnot hnil hback
    rcases stays_or_isName hnot with hstays | hname
    · rcases stays_eq_true_iff.1 hstays with rfl | rfl
      · exact .slash hback
      · exact .here hback
    · cases (components_of_isName hname).symm.trans hnil
  induction rest using Text.cutInduction '/' with
  | last piece hnot =>
    have htrailing := hpiece hnot h .nil
    rwa [List.append_nil] at htrailing
  | cons piece rest hnot ih =>
    rw [components_append, List.append_eq_nil_iff] at h
    exact hpiece hnot h.1 (ih h.2)

/-- A directory in front of a path does not change the last component. -/
theorem IsLast.prepend (h : IsLast path name) (directory : List Char) :
    IsLast (directory ++ '/' :: path) name := by
  cases h with
  | alone hname hback => exact .within hname hback
  | @within parent _ back hname hback =>
    have hwithin : IsLast (directory ++ '/' :: parent ++ '/' :: (name ++ back)) name :=
      .within hname hback
    rwa [List.append_assoc] at hwithin

theorem isLast_iff : IsLast path name ↔ (components path).getLast? = some name := by
  constructor
  · intro h
    cases h with
    | alone hname hback =>
      rw [components_append_of_trailing hback, components_of_isName hname]
      rfl
    | within hname hback =>
      rw [components_append, components_append_of_trailing hback, components_of_isName hname]
      exact List.getLast?_concat
  · intro h
    have hpiece : ∀ {piece back : List Char}, '/' ∉ piece → Trailing back →
        (components piece).getLast? = some name → IsLast (piece ++ back) name := by
      intro piece back hnot hback hlast
      rcases stays_or_isName hnot with hstays | hname
      · rw [components_of_stays hstays] at hlast
        cases hlast
      · rw [components_of_isName hname] at hlast
        cases hlast
        exact .alone hname hback
    induction path using Text.cutInduction '/' with
    | last piece hnot =>
      have hlast := hpiece hnot .nil h
      rwa [List.append_nil] at hlast
    | cons piece rest hnot ih =>
      rw [components_append, List.getLast?_append] at h
      cases hrest : (components rest).getLast? with
      | none =>
        rw [hrest, Option.none_or] at h
        rw [List.getLast?_eq_none_iff] at hrest
        exact hpiece hnot (trailing_of_components_eq_nil hrest) h
      | some last =>
        rw [hrest, Option.some_or] at h
        exact (ih (hrest.trans h)).prepend piece

theorem fileName?_eq_some_iff :
    fileName? path = some name ↔ IsLast path name ∧ name ≠ ['.', '.'] := by
  rw [isLast_iff, fileName?]
  cases (components path).getLast? with
  | none => simp
  | some last =>
    simp only [ascends, decide_eq_true_eq, Option.ite_none_left_eq_some, Option.some.injEq]
    constructor
    · rintro ⟨hne, rfl⟩
      exact ⟨rfl, hne⟩
    · rintro ⟨rfl, hne⟩
      exact ⟨hne, rfl⟩

/-! ## Extensions -/

theorem extensionOf?_of_not_mem (h : '.' ∉ name) : extensionOf? name = none := by
  rw [extensionOf?, Text.splitAt_of_not_mem h]
  rfl

theorem extensionOf?_append (hext : '.' ∉ ext) (stem : List Char) :
    extensionOf? (stem ++ '.' :: ext) = if stem = [] then none else some ext := by
  rw [extensionOf?, Text.splitAt_append, Text.splitAt_of_not_mem hext, List.reverse_concat]
  by_cases hstem : stem = []
  · rw [hstem]
    rfl
  · have hjoin := Text.joinWith_splitAt '.' stem
    rw [← List.reverse_reverse (Text.splitAt '.' stem)] at hjoin
    rw [if_neg hstem]
    cases hrev : (Text.splitAt '.' stem).reverse with
    | nil => simp [Text.splitAt_ne_nil] at hrev
    | cons piece pieces =>
      cases pieces with
      | cons => cases piece <;> rfl
      | nil =>
        rw [hrev] at hjoin
        cases piece with
        | nil => exact absurd hjoin.symm hstem
        | cons => rfl

/-- What is behind the last dot of a name. -/
theorem exists_last_dot (h : '.' ∈ name) : ∃ stem ext, '.' ∉ ext ∧ name = stem ++ '.' :: ext := by
  obtain ⟨front, back, hrev, hnot⟩ := List.eq_append_cons_of_mem (List.mem_reverse.2 h)
  refine ⟨back.reverse, front.reverse, fun hmem => hnot (List.mem_reverse.1 hmem), ?_⟩
  rw [← List.reverse_reverse name, hrev]
  simp

theorem extensionOf?_eq_some_iff : extensionOf? name = some ext ↔
    ∃ stem, stem ≠ [] ∧ '.' ∉ ext ∧ name = stem ++ '.' :: ext := by
  constructor
  · intro h
    by_cases hdot : '.' ∈ name
    · obtain ⟨stem, ext', hext, rfl⟩ := exists_last_dot hdot
      rw [extensionOf?_append hext, Option.ite_none_left_eq_some] at h
      obtain ⟨hstem, hsome⟩ := h
      cases hsome
      exact ⟨stem, hstem, hext, rfl⟩
    · rw [extensionOf?_of_not_mem hdot] at h
      cases h
  · rintro ⟨stem, hstem, hext, rfl⟩
    rw [extensionOf?_append hext, if_neg hstem]

theorem extension?_eq_some_iff : extension? path = some ext ↔
    ∃ stem, IsLast path (stem ++ '.' :: ext) ∧ stem ++ '.' :: ext ≠ ['.', '.'] ∧ stem ≠ [] ∧
      '.' ∉ ext := by
  simp only [extension?, Option.bind_eq_some_iff, fileName?_eq_some_iff, extensionOf?_eq_some_iff]
  constructor
  · rintro ⟨name, ⟨hlast, hne⟩, stem, hstem, hext, rfl⟩
    exact ⟨stem, hlast, hne, hstem, hext⟩
  · rintro ⟨stem, hlast, hne, hstem, hext⟩
    exact ⟨_, ⟨hlast, hne⟩, stem, hstem, hext, rfl⟩

/-! ## The same last component -/

/-- The extension of a path depends on its components only. -/
theorem extension?_congr {path' : List Char}
    (h : (components path').getLast? = (components path).getLast?) :
    extension? path' = extension? path := by
  rw [extension?, extension?, fileName?, fileName?, h]

theorem extension?_append_of_trailing (h : Trailing back) (path : List Char) :
    extension? (path ++ back) = extension? path :=
  extension?_congr (by rw [components_append_of_trailing h])

/-- A path with a component has its extension in every directory; one without has that of the
directory. -/
theorem extension?_prepend (directory path : List Char) :
    extension? (directory ++ '/' :: path) =
      if components path = [] then extension? directory else extension? path := by
  split
  next hnil => exact extension?_congr (by rw [components_append, hnil, List.append_nil])
  next hne =>
    exact extension?_congr (by rw [components_append, List.getLast?_append_of_ne_nil _ hne])

theorem exists_isLast_iff : (∃ name, IsLast path name) ↔ components path ≠ [] := by
  simp only [isLast_iff, ← Option.isSome_iff_exists, List.getLast?_isSome]

end QuantClassifier.Path
