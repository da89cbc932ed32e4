import QuantClassifier.Proofs.CommandLine.Reordering
import QuantClassifier.Proofs.Text.Cutting

/-!
# Options by name

An option that is written in one way only, two dashes and its name, occurs in a command line that
can be read if and only if it is written there: its value is the word behind it or what follows an
equals sign (`gives_of_value?`, `value?_of_gives`), and an option that takes no value stands alone
(`has_iff`).
-/

namespace QuantClassifier.CommandLine

/-- A phrase gives an option a value, behind it or behind an equals sign. -/
def Phrase.Gives (φ : Phrase) (name text : String) : Prop :=
  φ.arguments = ["--" ++ name, text] ∨ φ.arguments = ["--" ++ name ++ "=" ++ text]

/-- Some phrase gives an option a value. -/
def Gives (phrases : List Phrase) (name text : String) : Prop :=
  ∃ φ ∈ phrases, φ.Gives name text

/-- What holds of the value that an option is given, and what holds if it is given none. -/
structure Answers (phrases : List Phrase) (name : String) (given : String → Prop) (absent : Prop) :
    Prop where
  given : ∀ text, Gives phrases name text → given text
  absent : (∀ text, ¬ Gives phrases name text) → absent

/-- Some phrase is an option alone. -/
def Has (phrases : List Phrase) (name : String) : Prop :=
  ∃ φ ∈ phrases, φ.arguments = ["--" ++ name]

/-! ## Arguments -/

namespace Token

variable {argument text : String} {name cs : List Char} {value : Option String}

theorem splitValue_of_not_mem (h : '=' ∉ name) : splitValue name = (name, none) := by
  have hdrop : name.dropWhile (· ≠ '=') = [] :=
    List.dropWhile_eq_nil_iff.2 fun c hc => decide_eq_true fun heq => h (heq ▸ hc)
  rw [splitValue, hdrop]

theorem splitValue_append (h : '=' ∉ name) (cs : List Char) :
    splitValue (name ++ '=' :: cs) = (name, some (String.ofList cs)) := by
  have hname : ∀ c ∈ name, decide (c ≠ '=') = true := fun c hc =>
    decide_eq_true fun heq => h (heq ▸ hc)
  have hequals : ∀ c ∈ ('=' :: cs).head?, decide (c ≠ '=') = false := by
    rintro c ⟨⟩
    rfl
  rw [splitValue, Text.dropWhile_append_eq hname hequals, Text.takeWhile_append_eq hname hequals]

theorem eq_of_splitValue_none (h : splitValue cs = (name, none)) : cs = name := by
  unfold splitValue at h
  split at h <;> cases h
  rfl

theorem eq_of_splitValue_some (h : splitValue cs = (name, some text)) :
    cs = name ++ '=' :: text.toList := by
  unfold splitValue at h
  split at h
  next => cases h
  next c rest hdrop =>
    cases h
    have hc := Text.not_head_dropWhile (· ≠ '=') cs c (by rw [hdrop]; rfl)
    obtain rfl : c = '=' := by simpa using hc
    rw [String.toList_ofList, ← hdrop]
    exact List.takeWhile_append_dropWhile.symm

theorem toList_dashes (cs : List Char) :
    ("--" ++ String.ofList cs).toList = '-' :: '-' :: cs := by
  simp [String.toList_append]

theorem exists_dashes (h : ofString argument = .long name value) :
    ∃ cs, argument = "--" ++ String.ofList cs ∧ splitValue cs = (name, value) := by
  unfold ofString at h
  split at h
  next => cases h
  next cs _ hdashes =>
    refine ⟨cs, String.toList_inj.1 (hdashes.trans (toList_dashes cs).symm), ?_⟩
    cases h
    rfl
  all_goals cases h

theorem ofString_dashes (hcs : cs ≠ []) (h : splitValue cs = (name, value)) :
    ofString ("--" ++ String.ofList cs) = .long name value := by
  obtain ⟨c, rest, rfl⟩ := List.exists_cons_of_ne_nil hcs
  have htoken : ofString ("--" ++ String.ofList (c :: rest)) =
      .long (splitValue (c :: rest)).1 (splitValue (c :: rest)).2 := by
    rw [ofString, toList_dashes]
    rfl
  rw [htoken, h]

theorem eq_of_long_none (h : ofString argument = .long name none) :
    argument = "--" ++ String.ofList name := by
  obtain ⟨cs, rfl, hsplit⟩ := exists_dashes h
  rw [eq_of_splitValue_none hsplit]

theorem eq_of_long_some (h : ofString argument = .long name (some text)) :
    argument = "--" ++ String.ofList name ++ "=" ++ text := by
  obtain ⟨cs, rfl, hsplit⟩ := exists_dashes h
  rw [eq_of_splitValue_some hsplit]
  apply String.toList_inj.1
  simp [String.toList_append]

theorem ofString_name {name : String} (hname : name ≠ "") (hnot : '=' ∉ name.toList) :
    ofString ("--" ++ name) = .long name.toList none := by
  have hne : name.toList ≠ [] := fun h => hname (String.toList_eq_nil_iff.1 h)
  have htoken := ofString_dashes hne (splitValue_of_not_mem hnot)
  rwa [String.ofList_toList] at htoken

theorem ofString_name_value {name : String} (hnot : '=' ∉ name.toList) (text : String) :
    ofString ("--" ++ name ++ "=" ++ text) = .long name.toList (some text) := by
  have hne : name.toList ++ '=' :: text.toList ≠ [] := List.append_ne_nil_of_right_ne_nil _ nofun
  have htoken := ofString_dashes hne (splitValue_append hnot text.toList)
  rw [String.ofList_toList] at htoken
  rw [← htoken]
  congr 1
  apply String.toList_inj.1
  simp [String.toList_append]

end Token

namespace Grammar

variable {ι : Type} {Value : ι → Type}

/-- An option is written as two dashes and a name, and in no other way. -/
structure Named (g : Grammar ι Value) (i : ι) (name : String) : Prop where
  find : g.find? (.long name.toList) = some i
  only : ∀ x ∈ g.spellings, x.2 = i → x.1 = .long name.toList
  ne_empty : name ≠ ""
  not_mem : '=' ∉ name.toList

instance [DecidableEq ι] {g : Grammar ι Value} {i : ι} {name : String} :
    Decidable (g.Named i name) :=
  decidable_of_iff (g.find? (.long name.toList) = some i ∧
      (∀ x ∈ g.spellings, x.2 = i → x.1 = .long name.toList) ∧ name ≠ "" ∧ '=' ∉ name.toList)
    ⟨fun ⟨hfind, honly, hne, hnot⟩ => ⟨hfind, honly, hne, hnot⟩,
      fun h => ⟨h.find, h.only, h.ne_empty, h.not_mem⟩⟩

variable {g : Grammar ι Value} {i : ι} {name text : String} {s : Spelling} {v : Value i}
  {x : (i : ι) × Value i} {φ : Phrase} {xs : Occurrences Value}

theorem find?_iff (h : g.Named i name) : g.find? s = some i ↔ s = .long name.toList := by
  constructor
  · intro hfind
    obtain ⟨front, back, hspellings, -⟩ := List.lookup_eq_some_iff.1 hfind
    exact h.only (s, i) (by rw [hspellings]; simp) rfl
  · rintro rfl
    exact h.find

theorem Named.eq_name {other : String} (h : g.Named i name)
    (hfind : g.find? (.long other.toList) = some i) : other = name :=
  String.toList_inj.1 (Spelling.long.inj ((find?_iff h).1 hfind))

theorem Named.not_short {c : Char} (h : g.Named i name) : g.find? (.short c) ≠ some i := by
  intro hfind
  cases (find?_iff h).1 hfind

/-! ## What a phrase says of an option -/

theorem meaning?_of_gives (h : g.Named i name) (hφ : φ.Gives name text) :
    g.meaning? φ = (g.valued? (.long name.toList) text).map ([·]) := by
  rcases hφ with hφ | hφ
  · obtain ⟨hoption, hword⟩ := List.cons_eq_cons.1 hφ
    rw [meaning?, hoption, Option.toList_eq_singleton_iff.1 hword,
      Token.ofString_name h.ne_empty h.not_mem]
  · obtain ⟨hoption, hword⟩ := List.cons_eq_cons.1 hφ
    rw [meaning?, hoption, Option.toList_eq_nil_iff.1 hword, Token.ofString_name_value h.not_mem]

theorem meaning?_of_alone (h : g.Named i name) (hφ : φ.arguments = ["--" ++ name]) :
    g.meaning? φ = (g.plain? (.long name.toList)).map ([·]) := by
  obtain ⟨hoption, hword⟩ := List.cons_eq_cons.1 hφ
  rw [meaning?, hoption, Option.toList_eq_nil_iff.1 hword,
    Token.ofString_name h.ne_empty h.not_mem]

theorem exists_of_mem_lettersMeaning? {cs : List Char} (h : g.lettersMeaning? cs = some xs)
    (hx : x ∈ xs) : ∃ c, g.plain? (.short c) = some x := by
  induction cs generalizing xs with
  | nil =>
    cases h
    cases hx
  | cons c cs ih =>
    obtain ⟨y, hy, zs, hzs, rfl⟩ := lettersMeaning?_cons_iff.1 h
    rcases List.mem_cons.1 hx with rfl | hx
    · exact ⟨c, hy⟩
    · exact ih hzs hx

/-- What a phrase sets is a letter of it, a name alone, or a name with a value. -/
theorem meaning?_cases (h : g.meaning? φ = some xs) (hx : x ∈ xs) :
    (∃ c, g.plain? (.short c) = some x) ∨
    (∃ name : String, φ.arguments = ["--" ++ name] ∧
      g.plain? (.long name.toList) = some x) ∨
    ∃ name text : String, φ.Gives name text ∧
      g.valued? (.long name.toList) text = some x := by
  unfold meaning? at h
  split at h
  next => exact .inl (exists_of_mem_lettersMeaning? h hx)
  next cs hoption hword =>
    obtain ⟨y, hy, rfl⟩ := Option.map_eq_some_iff.1 h
    obtain rfl := List.mem_singleton.1 hx
    refine .inr (.inl ⟨String.ofList cs, ?_, by rwa [String.toList_ofList]⟩)
    rw [Phrase.arguments, hword, Token.eq_of_long_none hoption]
    rfl
  next cs text hoption hword =>
    obtain ⟨y, hy, rfl⟩ := Option.map_eq_some_iff.1 h
    obtain rfl := List.mem_singleton.1 hx
    refine .inr (.inr ⟨String.ofList cs, text, .inl ?_, by rwa [String.toList_ofList]⟩)
    rw [Phrase.arguments, hword, Token.eq_of_long_none hoption]
    rfl
  next cs text hoption hword =>
    obtain ⟨y, hy, rfl⟩ := Option.map_eq_some_iff.1 h
    obtain rfl := List.mem_singleton.1 hx
    refine .inr (.inr ⟨String.ofList cs, text, .inr ?_, by rwa [String.toList_ofList]⟩)
    rw [Phrase.arguments, hword, Token.eq_of_long_some hoption]
    rfl
  next => cases h

/-! ## What a command line says of an option -/

variable {phrases : List Phrase} {closed : Bool} {read : String → Except Refusal (Value i)}

theorem exists_of_mem_occurrences (hx : x ∈ g.occurrences phrases) :
    ∃ φ ∈ phrases, ∃ xs, g.meaning? φ = some xs ∧ x ∈ xs := by
  obtain ⟨φ, hφ, hx⟩ := List.mem_flatMap.1 hx
  cases h : g.meaning? φ with
  | none =>
    rw [h] at hx
    cases hx
  | some xs =>
    rw [h] at hx
    exact ⟨φ, hφ, xs, h, hx⟩

theorem mem_occurrences (hφ : φ ∈ phrases) (h : g.meaning? φ = some xs) (hx : x ∈ xs) :
    x ∈ g.occurrences phrases :=
  List.mem_flatMap.2 ⟨φ, hφ, by rwa [h]⟩

variable [DecidableEq ι]

/-- The value of an option is one that some phrase gives. -/
theorem gives_of_value? (h : g.parse (commandLine phrases closed) = .ok xs) (hi : g.Named i name)
    (hform : g.form i = .argument read) (hv : xs.value? i = some v) :
    ∃ text, Gives phrases name text ∧ read text = .ok v := by
  obtain ⟨-, hsep, rfl⟩ := parse_commandLine.1 h
  have hmem := (value?_eq_some_iff hsep (by rw [isCounter, hform])).1 hv
  obtain ⟨φ, hφ, ys, hys, hx⟩ := exists_of_mem_occurrences hmem
  have hplain : ∀ s, g.plain? s ≠ some ⟨i, v⟩ := by
    intro s hplain
    rcases (plain?_eq_some_iff.1 hplain).2 with hform' | hform' <;> cases hform.symm.trans hform'
  rcases meaning?_cases hys hx with ⟨c, hc⟩ | ⟨other, -, hother⟩ | ⟨other, text, hgives, hvalued⟩
  · exact absurd hc (hplain _)
  · exact absurd hother (hplain _)
  · obtain ⟨hfind, read', hform', hread⟩ := valued?_eq_some_iff.1 hvalued
    obtain rfl := hi.eq_name hfind
    cases hform.symm.trans hform'
    exact ⟨text, ⟨φ, hφ, hgives⟩, hread⟩

/-- A value that some phrase gives can be read, and is the option's. -/
theorem value?_of_gives (h : g.parse (commandLine phrases closed) = .ok xs) (hi : g.Named i name)
    (hform : g.form i = .argument read) (hgives : Gives phrases name text) :
    ∃ v, read text = .ok v ∧ xs.value? i = some v := by
  obtain ⟨hall, hsep, rfl⟩ := parse_commandLine.1 h
  obtain ⟨φ, hφ, hgives⟩ := hgives
  obtain ⟨ys, hys⟩ := Option.isSome_iff_exists.1 (hall φ hφ)
  have hmeaning := (meaning?_of_gives hi hgives).symm.trans hys
  obtain ⟨⟨j, v⟩, hvalued, rfl⟩ := Option.map_eq_some_iff.1 hmeaning
  obtain ⟨hfind, read', hform', hread⟩ := valued?_eq_some_iff.1 hvalued
  obtain rfl : i = j := Option.some.inj (hi.find.symm.trans hfind)
  cases hform.symm.trans hform'
  have hmem := mem_occurrences hφ hys (List.mem_singleton.2 rfl)
  exact ⟨v, hread, (value?_eq_some_iff hsep (by rw [isCounter, hform])).2 hmem⟩

/-- What holds with a value of an option and what holds without one hold of a command line. -/
theorem answers {given : String → Prop} {absent : Prop}
    (h : g.parse (commandLine phrases closed) = .ok xs) (hi : g.Named i name)
    (hform : g.form i = .argument read)
    (hgiven : ∀ {text v}, read text = .ok v → xs.value? i = some v → given text)
    (habsent : xs.value? i = none → absent) : Answers phrases name given absent := by
  constructor
  · intro text hgives
    obtain ⟨v, hread, hvalue⟩ := value?_of_gives h hi hform hgives
    exact hgiven hread hvalue
  · intro hnone
    apply habsent
    rw [Option.eq_none_iff_forall_ne_some]
    intro v hvalue
    obtain ⟨text, hgives, -⟩ := gives_of_value? h hi hform hvalue
    exact hnone text hgives

/-- An option that takes no value occurs where a phrase is the option alone. -/
theorem has_iff (h : g.parse (commandLine phrases closed) = .ok xs) (hi : g.Named i name)
    (hform : g.form i = .flag v) : xs.has i = true ↔ Has phrases name := by
  obtain ⟨hall, hsep, rfl⟩ := parse_commandLine.1 h
  rw [has_eq_isSome, Option.isSome_iff_exists]
  constructor
  · rintro ⟨w, hw⟩
    have hmem := (value?_eq_some_iff hsep (by rw [isCounter, hform])).1 hw
    obtain ⟨φ, hφ, ys, hys, hx⟩ := exists_of_mem_occurrences hmem
    rcases meaning?_cases hys hx with ⟨c, hc⟩ | ⟨other, halone, hother⟩ | ⟨other, text, -, hvalued⟩
    · exact absurd (plain?_eq_some_iff.1 hc).1 hi.not_short
    · obtain rfl := hi.eq_name (plain?_eq_some_iff.1 hother).1
      exact ⟨φ, hφ, halone⟩
    · obtain ⟨-, read', hform', -⟩ := valued?_eq_some_iff.1 hvalued
      cases hform.symm.trans hform'
  · rintro ⟨φ, hφ, halone⟩
    have hplain : g.plain? (.long name.toList) = some ⟨i, v⟩ :=
      plain?_eq_some_iff.2 ⟨hi.find, .inl hform⟩
    have hys : g.meaning? φ = some [⟨i, v⟩] := by
      rw [meaning?_of_alone hi halone, hplain]
      rfl
    have hmem := mem_occurrences hφ hys (List.mem_singleton.2 rfl)
    exact ⟨v, (value?_eq_some_iff hsep (by rw [isCounter, hform])).2 hmem⟩

end Grammar

end QuantClassifier.CommandLine
