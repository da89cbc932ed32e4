import Mathlib.Data.List.Basic
import QuantClassifier.CommandLine.Grammar
import QuantClassifier.Outcome

/-!
# Command lines as phrases

A phrase is an option with the word behind it, if there is one. What a phrase sets does not depend
on the phrases around it (`meaning?`): reading a command line yields what its phrases set, one after
the other, and fails where one of them sets nothing or where an option occurs twice that does not
count its occurrences (`read_commandLine`). Arguments that can be read are a command line of phrases
(`exists_commandLine`).
-/

namespace QuantClassifier.CommandLine

namespace Token

/-- An argument that looks so names options. -/
def isOption : Token → Bool
  | long _ _ => true
  | letters _ => true
  | _ => false

/-- An argument that looks so may be the value of the option in front of it. -/
def isWord : Token → Bool
  | word _ => true
  | _ => false

variable {argument text : String}

theorem word_eq (h : ofString argument = .word text) : text = argument := by
  unfold ofString at h
  split at h <;> cases h
  rfl

theorem ofString_of_isWord (h : (ofString text).isWord = true) : ofString text = .word text := by
  cases htoken : ofString text with
  | word => rw [word_eq htoken]
  | _ =>
    rw [htoken] at h
    cases h

theorem cases_of_isOption (h : (ofString argument).isOption = true) :
    (∃ cs, ofString argument = .letters cs) ∨
      ∃ name value, ofString argument = .long name value := by
  cases htoken : ofString argument with
  | letters cs => exact .inl ⟨cs, rfl⟩
  | long name value => exact .inr ⟨name, value, rfl⟩
  | _ =>
    rw [htoken] at h
    cases h

theorem eq_terminator (h : ofString argument = .terminator) : argument = "--" := by
  unfold ofString at h
  split at h
  next hdashes =>
    rw [← String.ofList_toList (s := argument), hdashes]
  all_goals cases h

theorem letters_ne_nil {cs : List Char} (h : ofString argument = .letters cs) : cs ≠ [] := by
  unfold ofString at h
  split at h <;> cases h
  exact List.cons_ne_nil _ _

end Token

/-- An option as it stands on a command line, and the word behind it, if there is one. -/
structure Phrase where
  option : String
  word : Option String
  isOption : (Token.ofString option).isOption = true
  isWord : ∀ w ∈ word, (Token.ofString w).isWord = true

/-- The arguments of a phrase. -/
def Phrase.arguments (φ : Phrase) : List String := φ.option :: φ.word.toList

/-- A command line of phrases, which two dashes may close. -/
def commandLine (phrases : List Phrase) (closed : Bool) : List String :=
  phrases.flatMap Phrase.arguments ++ if closed then ["--"] else []

theorem commandLine_cons (φ : Phrase) (phrases : List Phrase) (closed : Bool) :
    commandLine (φ :: phrases) closed = φ.arguments ++ commandLine phrases closed := by
  rw [commandLine, List.flatMap_cons, List.append_assoc]
  rfl

/-- No argument, or one that can not be the value of the option in front of it. -/
def StartsNoWord (arguments : List String) : Prop :=
  ∀ argument ∈ arguments.head?, (Token.ofString argument).isWord = false

theorem startsNoWord_commandLine (phrases : List Phrase) (closed : Bool) :
    StartsNoWord (commandLine phrases closed) := by
  intro argument hargument
  cases phrases with
  | nil =>
    cases closed with
    | false => cases hargument
    | true =>
      cases hargument
      decide
  | cons φ phrases =>
    cases hargument
    rcases Token.cases_of_isOption φ.isOption with ⟨cs, htoken⟩ | ⟨name, value, htoken⟩ <;>
      rw [htoken] <;> rfl

namespace Grammar

variable {ι : Type} {Value : ι → Type}

/-- An option may occur any number of times. -/
def isCounter (g : Grammar ι Value) (i : ι) : Bool :=
  match g.form i with
  | .counter _ => true
  | _ => false

/-- No option occurs twice but those that count. -/
def Separate (g : Grammar ι Value) (xs : Occurrences Value) : Prop :=
  xs.Pairwise fun x y => x.1 = y.1 → g.isCounter x.1 = true

/-- The option that is written so, if it takes no value. -/
def plain? (g : Grammar ι Value) (s : Spelling) : Option ((i : ι) × Value i) :=
  (g.find? s).bind fun i =>
    match g.form i with
    | .flag v => some ⟨i, v⟩
    | .counter v => some ⟨i, v⟩
    | _ => none

/-- The option that is written so with its value, if it takes one. -/
def valued? (g : Grammar ι Value) (s : Spelling) (text : String) : Option ((i : ι) × Value i) :=
  (g.find? s).bind fun i =>
    match g.form i with
    | .argument read => (read text).toOption.map fun v => ⟨i, v⟩
    | _ => none

/-- The options that letters set. -/
def lettersMeaning? (g : Grammar ι Value) (cs : List Char) : Option (Occurrences Value) :=
  cs.mapM fun c => g.plain? (.short c)

/-- The options that a phrase sets. -/
def meaning? (g : Grammar ι Value) (φ : Phrase) : Option (Occurrences Value) :=
  match Token.ofString φ.option, φ.word with
  | .letters cs, none => g.lettersMeaning? cs
  | .long name none, none => (g.plain? (.long name)).map ([·])
  | .long name none, some text => (g.valued? (.long name) text).map ([·])
  | .long name (some text), none => (g.valued? (.long name) text).map ([·])
  | _, _ => none

/-- The options that some phrases set, those that can not be read left out. -/
def occurrences (g : Grammar ι Value) (phrases : List Phrase) : Occurrences Value :=
  phrases.flatMap fun φ => (g.meaning? φ).getD []

variable {g : Grammar ι Value} {done xs ys : Occurrences Value} {s : Spelling} {i : ι}
  {x : (i : ι) × Value i} {p q : Progress Value} {rest : List String} {text : String}
  {name cs : List Char} {c : Char} {value : Option String} {φ : Phrase} {phrases : List Phrase}
  {closed : Bool}

/-! ## Options on their own -/

theorem plain?_eq_some_iff : g.plain? s = some x ↔
    g.find? s = some x.1 ∧ (g.form x.1 = .flag x.2 ∨ g.form x.1 = .counter x.2) := by
  rw [plain?, Option.bind_eq_some_iff]
  constructor
  · rintro ⟨i, hfind, h⟩
    split at h <;> cases h
    next hform => exact ⟨hfind, .inl hform⟩
    next hform => exact ⟨hfind, .inr hform⟩
  · rintro ⟨hfind, hform | hform⟩
    · exact ⟨x.1, hfind, by rw [hform]⟩
    · exact ⟨x.1, hfind, by rw [hform]⟩

theorem valued?_eq_some_iff : g.valued? s text = some x ↔
    g.find? s = some x.1 ∧ ∃ read, g.form x.1 = .argument read ∧ read text = .ok x.2 := by
  rw [valued?, Option.bind_eq_some_iff]
  constructor
  · rintro ⟨i, hfind, h⟩
    split at h
    next read hform =>
      obtain ⟨v, hv, rfl⟩ := Option.map_eq_some_iff.1 h
      exact ⟨hfind, read, hform, toOption_eq_some_iff.1 hv⟩
    next => cases h
  · rintro ⟨hfind, read, hform, hread⟩
    refine ⟨x.1, hfind, ?_⟩
    rw [hform]
    show Option.map _ (read text).toOption = _
    rw [toOption_eq_some_iff.2 hread]
    rfl

theorem lettersMeaning?_cons_iff : g.lettersMeaning? (c :: cs) = some ys ↔
    ∃ x, g.plain? (.short c) = some x ∧ ∃ zs, g.lettersMeaning? cs = some zs ∧ x :: zs = ys := by
  simp [lettersMeaning?, List.mapM_cons, Option.bind_eq_some_iff]

theorem separate_perm (h : xs.Perm ys) : g.Separate xs ↔ g.Separate ys :=
  h.pairwise_iff fun hxy heq => heq ▸ hxy heq.symm

variable [DecidableEq ι]

theorem separate_cons_iff : g.Separate (x :: xs) ↔
    (xs.has x.1 = true → g.isCounter x.1 = true) ∧ g.Separate xs := by
  rw [Separate, List.pairwise_cons]
  refine and_congr_left fun _ => ?_
  simp only [Occurrences.has, List.any_eq_true, decide_eq_true_eq]
  constructor
  · rintro h ⟨y, hy, heq⟩
    exact h y hy heq.symm
  · exact fun h y hy heq => h ⟨y, hy, heq.symm⟩

theorem Separate.not_has (h : g.Separate (x :: xs)) (hx : g.isCounter x.1 = false) :
    ¬ xs.has x.1 = true := by
  intro hhas
  have hcounter := (separate_cons_iff.1 h).1 hhas
  rw [hx] at hcounter
  cases hcounter

/-- An option that takes no value is added, if it does not occur yet or counts. -/
theorem accept_none_iff (hdone : g.Separate done) :
    (∃ i, g.find? s = some i ∧ g.accept done i none = .ok xs) ↔
      ∃ x, g.plain? s = some x ∧ g.Separate (x :: done) ∧ xs = x :: done := by
  constructor
  · rintro ⟨i, hfind, h⟩
    unfold accept at h
    split at h
    next => cases h
    next v hform =>
      cases h
      exact ⟨⟨i, v⟩, plain?_eq_some_iff.2 ⟨hfind, .inr hform⟩,
        separate_cons_iff.2 ⟨fun _ => by rw [isCounter, hform], hdone⟩, rfl⟩
    next v hform =>
      split at h <;> cases h
      next hhas =>
        exact ⟨⟨i, v⟩, plain?_eq_some_iff.2 ⟨hfind, .inl hform⟩,
          separate_cons_iff.2 ⟨fun h => absurd h hhas, hdone⟩, rfl⟩
    next => cases h
  · rintro ⟨x, hx, hsep, rfl⟩
    obtain ⟨hfind, hform⟩ := plain?_eq_some_iff.1 hx
    refine ⟨x.1, hfind, ?_⟩
    rcases hform with hform | hform
    · rw [accept, hform]
      exact if_neg (hsep.not_has (by rw [isCounter, hform]))
    · rw [accept, hform]

/-- An option that takes a value is added with it, if it does not occur yet. -/
theorem accept_some_iff (hdone : g.Separate done) :
    (∃ i read, g.find? s = some i ∧ g.form i = .argument read ∧
        g.accept done i (some text) = .ok xs) ↔
      ∃ x, g.valued? s text = some x ∧ g.Separate (x :: done) ∧ xs = x :: done := by
  constructor
  · rintro ⟨i, read, hfind, hform, h⟩
    rw [accept, hform] at h
    dsimp only at h
    split at h
    next => cases h
    next hhas =>
      cases hread : read text with
      | error e =>
        rw [hread] at h
        cases h
      | ok v =>
        rw [hread] at h
        cases h
        exact ⟨⟨i, v⟩, valued?_eq_some_iff.2 ⟨hfind, read, hform, hread⟩,
          separate_cons_iff.2 ⟨fun h => absurd h hhas, hdone⟩, rfl⟩
  · rintro ⟨x, hx, hsep, rfl⟩
    obtain ⟨hfind, read, hform, hread⟩ := valued?_eq_some_iff.1 hx
    refine ⟨x.1, read, hfind, hform, ?_⟩
    rw [accept, hform]
    dsimp only
    rw [if_neg (hsep.not_has (by rw [isCounter, hform])), hread]
    rfl

/-! ## Reading -/

theorem settle_none : g.settle ⟨done, none⟩ = .ok done := rfl

/-- An option in its long form comes after what is pending. -/
theorem readLong_settled : g.readLong p name value = .ok q ↔
    ∃ done, g.settle p = .ok done ∧ g.readLong ⟨done, none⟩ name value = .ok q := by
  unfold readLong
  cases g.find? (.long name) with
  | none => simp
  | some i =>
    dsimp only
    cases g.form i <;> cases value <;> simp only [bind_eq_ok_iff, settle_none] <;> simp

/-- Letters come after what is pending. -/
theorem readLetters_settled : g.readLetters p (c :: cs) = .ok q ↔
    ∃ done, g.settle p = .ok done ∧ g.readLetters ⟨done, none⟩ (c :: cs) = .ok q := by
  unfold readLetters
  cases g.find? (.short c) with
  | none => simp
  | some i => simp [bind_eq_ok_iff, settle_none]

/-- What is pending is added before anything comes that can not be its value. -/
theorem read_settled (hrest : StartsNoWord rest) : g.read p rest = .ok xs ↔
    ∃ done, g.settle p = .ok done ∧ g.read ⟨done, none⟩ rest = .ok xs := by
  cases rest with
  | nil => simp [read, settle_none]
  | cons argument rest =>
    have hword := hrest argument rfl
    cases htoken : Token.ofString argument with
    | word text =>
      rw [htoken] at hword
      cases hword
    | terminator =>
      simp only [read, htoken]
      cases rest.isEmpty <;> simp [settle_none]
    | long name value =>
      simp only [read, htoken, bind_eq_ok_iff]
      rw [exists_congr fun q => and_congr_left fun _ => readLong_settled]
      grind
    | letters cs =>
      cases cs with
      | nil => exact absurd rfl (Token.letters_ne_nil htoken)
      | cons c cs =>
        simp only [read, htoken, bind_eq_ok_iff]
        rw [exists_congr fun q => and_congr_left fun _ => readLetters_settled]
        grind

/-- An option that waits is added with the value it has got. -/
theorem read_pending (hrest : StartsNoWord rest) :
    g.read ⟨done, some (i, value)⟩ rest = .ok xs ↔
      ∃ d, g.accept done i value = .ok d ∧ g.read ⟨d, none⟩ rest = .ok xs :=
  read_settled hrest

theorem readLetters_iff (hdone : g.Separate done) : g.readLetters ⟨done, none⟩ cs = .ok q ↔
    ∃ ys, g.lettersMeaning? cs = some ys ∧ g.Separate (ys.reverse ++ done) ∧
      q = ⟨ys.reverse ++ done, none⟩ := by
  induction cs generalizing done q with
  | nil =>
    simp [readLetters, lettersMeaning?, hdone, eq_comm]
  | cons c cs ih =>
    have hstep : g.readLetters ⟨done, none⟩ (c :: cs) = .ok q ↔ ∃ d,
        (∃ i, g.find? (.short c) = some i ∧ g.accept done i none = .ok d) ∧
          g.readLetters ⟨d, none⟩ cs = .ok q := by
      rw [readLetters]
      cases g.find? (.short c) with
      | none => simp
      | some i => simp [bind_eq_ok_iff, settle_none]
    rw [hstep]
    -- The last option read comes first, so a letter stands behind those that follow it.
    have hswap : ∀ {x} {zs : Occurrences Value},
        (x :: zs).reverse ++ done = zs.reverse ++ (x :: done) := by simp
    constructor
    · rintro ⟨d, hd, hread⟩
      obtain ⟨x, hx, hsep, rfl⟩ := (accept_none_iff hdone).1 hd
      obtain ⟨zs, hzs, hseps, rfl⟩ := (ih hsep).1 hread
      rw [← hswap] at hseps ⊢
      exact ⟨x :: zs, lettersMeaning?_cons_iff.2 ⟨x, hx, zs, hzs, rfl⟩, hseps, rfl⟩
    · rintro ⟨ys, hys, hseps, rfl⟩
      obtain ⟨x, hx, zs, hzs, rfl⟩ := lettersMeaning?_cons_iff.1 hys
      rw [hswap] at hseps ⊢
      have hsep : g.Separate (x :: done) := (List.pairwise_append.1 hseps).2.1
      exact ⟨x :: done, (accept_none_iff hdone).2 ⟨x, hx, hsep, rfl⟩,
        (ih hsep).2 ⟨zs, hzs, hseps, rfl⟩⟩

/-- An option in its long form without a value waits for one or takes none. -/
theorem readLong_none_iff (hdone : g.Separate done) :
    g.readLong ⟨done, none⟩ name none = .ok q ↔
      (∃ i read, g.find? (.long name) = some i ∧ g.form i = .argument read ∧
        q = ⟨done, some (i, none)⟩) ∨
      ∃ x, g.plain? (.long name) = some x ∧ g.Separate (x :: done) ∧ q = ⟨x :: done, none⟩ := by
  have hread : g.readLong ⟨done, none⟩ name none = .ok q ↔
      (∃ i read, g.find? (.long name) = some i ∧ g.form i = .argument read ∧
        ⟨done, some (i, none)⟩ = q) ∨
      ∃ d, (∃ i, g.find? (.long name) = some i ∧ g.accept done i none = .ok d) ∧
        ⟨d, none⟩ = q := by
    rw [readLong]
    cases g.find? (.long name) with
    | none => simp
    | some i =>
      dsimp only
      cases hform : g.form i <;>
        simp only [bind_eq_ok_iff, settle_none, pure_eq_ok_iff] <;> simp [hform, accept]
  rw [hread]
  simp only [accept_none_iff hdone]
  grind

/-- An option in its long form takes the value behind the equals sign. -/
theorem readLong_some_iff (hdone : g.Separate done) :
    g.readLong ⟨done, none⟩ name (some text) = .ok q ↔
      ∃ x, g.valued? (.long name) text = some x ∧ g.Separate (x :: done) ∧
        q = ⟨x :: done, none⟩ := by
  have hread : g.readLong ⟨done, none⟩ name (some text) = .ok q ↔
      ∃ d, (∃ i read, g.find? (.long name) = some i ∧ g.form i = .argument read ∧
        g.accept done i (some text) = .ok d) ∧ ⟨d, none⟩ = q := by
    rw [readLong]
    cases g.find? (.long name) with
    | none => simp
    | some i =>
      dsimp only
      cases hform : g.form i <;>
        simp only [bind_eq_ok_iff, settle_none, pure_eq_ok_iff] <;> simp [hform]
  rw [hread]
  simp only [accept_some_iff hdone]
  grind

/-- A word is refused where no option waits for it. -/
theorem read_word (hword : (Token.ofString text).isWord = true) :
    g.read ⟨done, none⟩ (text :: rest) = .error .unknownArgument := by
  rw [read, Token.ofString_of_isWord hword]

/-- A word is the value of the option that waits for it. -/
theorem read_word_of_pending (hword : (Token.ofString text).isWord = true) :
    g.read ⟨done, some (i, none)⟩ (text :: rest) = g.read ⟨done, some (i, some text)⟩ rest := by
  rw [read, Token.ofString_of_isWord hword]

theorem read_letters (hdone : g.Separate done) (htoken : Token.ofString text = .letters cs) :
    g.read ⟨done, none⟩ (text :: rest) = .ok xs ↔
      ∃ ys, g.lettersMeaning? cs = some ys ∧ g.Separate (ys.reverse ++ done) ∧
        g.read ⟨ys.reverse ++ done, none⟩ rest = .ok xs := by
  simp only [read, htoken, bind_eq_ok_iff, readLetters_iff hdone]
  grind

theorem read_long_some {argument : String} (hdone : g.Separate done)
    (htoken : Token.ofString argument = .long name (some text)) :
    g.read ⟨done, none⟩ (argument :: rest) = .ok xs ↔
      ∃ x, g.valued? (.long name) text = some x ∧ g.Separate (x :: done) ∧
        g.read ⟨x :: done, none⟩ rest = .ok xs := by
  simp only [read, htoken, bind_eq_ok_iff, readLong_some_iff hdone]
  grind

theorem read_long_none (hdone : g.Separate done)
    (htoken : Token.ofString text = .long name none) :
    g.read ⟨done, none⟩ (text :: rest) = .ok xs ↔
      (∃ i read, g.find? (.long name) = some i ∧ g.form i = .argument read ∧
        g.read ⟨done, some (i, none)⟩ rest = .ok xs) ∨
      ∃ x, g.plain? (.long name) = some x ∧ g.Separate (x :: done) ∧
        g.read ⟨x :: done, none⟩ rest = .ok xs := by
  simp only [read, htoken, bind_eq_ok_iff, readLong_none_iff hdone]
  grind

/-- A phrase without a word adds what it sets. -/
theorem read_option (hdone : g.Separate done) (hrest : StartsNoWord rest) (hφ : φ.word = none) :
    g.read ⟨done, none⟩ (φ.option :: rest) = .ok xs ↔
      ∃ ys, g.meaning? φ = some ys ∧ g.Separate (ys.reverse ++ done) ∧
        g.read ⟨ys.reverse ++ done, none⟩ rest = .ok xs := by
  rcases Token.cases_of_isOption φ.isOption with ⟨cs, htoken⟩ | ⟨name, value | text, htoken⟩
  · rw [meaning?, hφ, htoken]
    exact read_letters hdone htoken
  · -- An option that waits for a value does not get one.
    have hwaiting : ¬ ∃ i read, g.find? (.long name) = some i ∧ g.form i = .argument read ∧
        g.read ⟨done, some (i, none)⟩ rest = .ok xs := by
      rintro ⟨i, read, -, hform, h⟩
      obtain ⟨d, hd, -⟩ := (read_pending hrest).1 h
      rw [accept, hform] at hd
      cases hd
    rw [meaning?, hφ, htoken, read_long_none hdone htoken, or_iff_right hwaiting]
    simp
  · rw [meaning?, hφ, htoken, read_long_some hdone htoken]
    simp

/-- A phrase with a word adds the option that the word is the value of. -/
theorem read_option_word (hdone : g.Separate done) (hrest : StartsNoWord rest)
    (hφ : φ.word = some text) :
    g.read ⟨done, none⟩ (φ.option :: text :: rest) = .ok xs ↔
      ∃ ys, g.meaning? φ = some ys ∧ g.Separate (ys.reverse ++ done) ∧
        g.read ⟨ys.reverse ++ done, none⟩ rest = .ok xs := by
  have hword := φ.isWord text hφ
  rcases Token.cases_of_isOption φ.isOption with ⟨cs, htoken⟩ | ⟨name, value | value, htoken⟩
  · rw [meaning?, hφ, htoken, read_letters hdone htoken]
    simp [read_word hword]
  · have hvalue : (∃ i read, g.find? (.long name) = some i ∧ g.form i = .argument read ∧
        g.read ⟨done, some (i, some text)⟩ rest = .ok xs) ↔
        ∃ d, (∃ i read, g.find? (.long name) = some i ∧ g.form i = .argument read ∧
          g.accept done i (some text) = .ok d) ∧ g.read ⟨d, none⟩ rest = .ok xs := by
      simp only [read_pending hrest]
      grind
    rw [meaning?, hφ, htoken]
    simp only [read_long_none hdone htoken, read_word hword, read_word_of_pending hword, hvalue,
      accept_some_iff hdone]
    simp [and_assoc]
  · rw [meaning?, hφ, htoken, read_long_some hdone htoken]
    simp [read_word hword]

/-- A phrase adds what it sets, wherever it stands. -/
theorem read_phrase (hdone : g.Separate done) (hrest : StartsNoWord rest) :
    g.read ⟨done, none⟩ (φ.arguments ++ rest) = .ok xs ↔
      ∃ ys, g.meaning? φ = some ys ∧ g.Separate (ys.reverse ++ done) ∧
        g.read ⟨ys.reverse ++ done, none⟩ rest = .ok xs := by
  rw [Phrase.arguments]
  cases hφ : φ.word with
  | none => exact read_option hdone hrest hφ
  | some text => exact read_option_word hdone hrest hφ

/-- A command line yields what its phrases set. -/
theorem read_commandLine (hdone : g.Separate done) :
    g.read ⟨done, none⟩ (commandLine phrases closed) = .ok xs ↔
      (∀ φ ∈ phrases, (g.meaning? φ).isSome) ∧ g.Separate xs ∧
        xs = (g.occurrences phrases).reverse ++ done := by
  -- From phrase to phrase the options read so far stay separate.
  induction phrases generalizing done xs with
  | nil =>
    have hread : g.read ⟨done, none⟩ (commandLine [] closed) = .ok done := by
      cases closed <;> rfl
    rw [hread]
    constructor
    · rintro ⟨⟩
      exact ⟨nofun, hdone, rfl⟩
    · rintro ⟨-, -, rfl⟩
      rfl
  | cons φ phrases ih =>
    have hoccurrences : ∀ {ys}, g.meaning? φ = some ys →
        (g.occurrences (φ :: phrases)).reverse ++ done =
          (g.occurrences phrases).reverse ++ (ys.reverse ++ done) := by
      intro ys hys
      rw [occurrences, List.flatMap_cons, hys, Option.getD_some, List.reverse_append,
        List.append_assoc]
      rfl
    rw [commandLine_cons, read_phrase hdone (startsNoWord_commandLine phrases closed)]
    constructor
    · rintro ⟨ys, hys, hsep, hread⟩
      obtain ⟨hall, hseps, rfl⟩ := (ih hsep).1 hread
      rw [← hoccurrences hys] at hseps ⊢
      exact ⟨List.forall_mem_cons.2 ⟨by rw [hys]; rfl, hall⟩, hseps, rfl⟩
    · rintro ⟨hall, hseps, rfl⟩
      obtain ⟨hφ, hall⟩ := List.forall_mem_cons.1 hall
      obtain ⟨ys, hys⟩ := Option.isSome_iff_exists.1 hφ
      rw [hoccurrences hys] at hseps ⊢
      have hsep : g.Separate (ys.reverse ++ done) := (List.pairwise_append.1 hseps).2.1
      exact ⟨ys, hys, hsep, (ih hsep).2 ⟨hall, hseps, rfl⟩⟩

/-- Arguments that can be read are phrases, behind the value of the option in front of them if one
waits for it. -/
theorem exists_phrases {arguments : List String} (h : g.read p arguments = .ok xs) :
    ∃ (word : Option String) (phrases : List Phrase) (closed : Bool),
      arguments = word.toList ++ commandLine phrases closed ∧
        ∀ w ∈ word, (Token.ofString w).isWord = true ∧ ∃ i, p.pending = some (i, none) := by
  induction arguments generalizing p with
  | nil => exact ⟨none, [], false, rfl, nofun⟩
  | cons argument rest ih =>
    -- An option begins a phrase, which the value that may come next belongs to.
    have hoption : ∀ {q}, (Token.ofString argument).isOption = true → g.read q rest = .ok xs →
        ∃ phrases closed, argument :: rest = commandLine phrases closed := by
      intro q hargument hread
      obtain ⟨word, phrases, closed, rfl, hword⟩ := ih hread
      refine ⟨⟨argument, word, hargument, fun w hw => (hword w hw).1⟩ :: phrases, closed, ?_⟩
      rw [commandLine_cons]
      rfl
    cases htoken : Token.ofString argument with
    | terminator =>
      rw [read, htoken] at h
      dsimp only at h
      split at h
      next hrest =>
        rw [Token.eq_terminator htoken, List.isEmpty_iff.1 hrest]
        exact ⟨none, [], true, rfl, nofun⟩
      next => cases h
    | long name value =>
      simp only [read, htoken, bind_eq_ok_iff] at h
      obtain ⟨q, -, hread⟩ := h
      obtain ⟨phrases, closed, heq⟩ := hoption (by rw [htoken]; rfl) hread
      exact ⟨none, phrases, closed, heq, nofun⟩
    | letters cs =>
      simp only [read, htoken, bind_eq_ok_iff] at h
      obtain ⟨q, -, hread⟩ := h
      obtain ⟨phrases, closed, heq⟩ := hoption (by rw [htoken]; rfl) hread
      exact ⟨none, phrases, closed, heq, nofun⟩
    | word text =>
      rw [read, htoken] at h
      dsimp only at h
      split at h
      next i hpending =>
        obtain ⟨word, phrases, closed, rfl, hword⟩ := ih h
        cases word with
        | none =>
          exact ⟨some argument, phrases, closed, rfl, by
            rintro w ⟨⟩
            exact ⟨by rw [htoken]; rfl, i, hpending⟩⟩
        | some w =>
          obtain ⟨-, j, hj⟩ := hword w rfl
          cases hj
      next => cases h

/-- Arguments that can be read are a command line of phrases. -/
theorem exists_commandLine {arguments : List String}
    (h : g.read ⟨done, none⟩ arguments = .ok xs) :
    ∃ phrases closed, arguments = commandLine phrases closed := by
  obtain ⟨word, phrases, closed, rfl, hword⟩ := exists_phrases h
  cases word with
  | none => exact ⟨phrases, closed, rfl⟩
  | some w =>
    obtain ⟨-, i, hi⟩ := hword w rfl
    cases hi

theorem parse_eq_ok_iff {arguments : List String} :
    g.parse arguments = .ok xs ↔ g.read ⟨[], none⟩ arguments = .ok xs.reverse := by
  rw [parse]
  cases g.read ⟨[], none⟩ arguments with
  | error => exact ⟨nofun, nofun⟩
  | ok ys => simp [Except.map, List.reverse_eq_iff]

/-- The options of a command line are what its phrases set. -/
theorem parse_commandLine : g.parse (commandLine phrases closed) = .ok xs ↔
    (∀ φ ∈ phrases, (g.meaning? φ).isSome) ∧ g.Separate xs ∧ xs = g.occurrences phrases := by
  rw [parse_eq_ok_iff, read_commandLine List.Pairwise.nil, separate_perm xs.reverse_perm,
    List.append_nil, List.reverse_inj]

end Grammar

end QuantClassifier.CommandLine
