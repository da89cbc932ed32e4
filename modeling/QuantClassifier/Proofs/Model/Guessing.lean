import Mathlib.Data.List.Forall2
import QuantClassifier.Model.Format
import QuantClassifier.Outcome
import QuantClassifier.Proofs.Files.LastComponent

/-!
# Guessing model formats

The format that is guessed for a model is told by the last component of its path alone: by what
follows the last dot in it, in any case (`ofPath_eq_ok_iff`). So it stays the same behind slashes
and names for the directory itself, with any other stem, and in any directory
(`ofPath_lastComponent`), the last only if the path has a component: a path without one takes the
format of the directory that it is put into (`ofPath_here`).
-/

namespace QuantClassifier.ModelFormat

open QuantClassifier.Path (IsLast Trailing)

/-- The extensions that tell a format. -/
def extensions : ModelFormat → List String
  | tflite => ["tflite", "lite"]
  | onnx => ["onnx"]

/-- A text is a word of small letters, any of which may be capitals. -/
def InAnyCase (word text : List Char) : Prop :=
  List.Forall₂ (fun l c => c = l ∨ c = l.toUpper) word text

/-- The last component of a path tells a format: something, a dot, and an extension. -/
def TellsFormat (path : List Char) (f : ModelFormat) : Prop :=
  ∃ stem ext, IsLast path (stem ++ '.' :: ext) ∧ stem ++ '.' :: ext ≠ ['.', '.'] ∧ stem ≠ [] ∧
    '.' ∉ ext ∧ ∃ word ∈ f.extensions, InAnyCase word.toList ext

theorem toLower_eq_iff {c l : Char} (hl : l.isLower = true) :
    c.toLower = l ↔ c = l ∨ c = l.toUpper := by
  have hA : 'A'.val.toNat = 65 := rfl
  have hZ : 'Z'.val.toNat = 90 := rfl
  have ha : 'a'.val.toNat = 97 := rfl
  have hz : 'z'.val.toNat = 122 := rfl
  delta Char.isLower at hl
  delta Char.toLower Char.toUpper
  simp only [Bool.and_eq_true, decide_eq_true_eq, ge_iff_le, UInt32.le_iff_toNat_le] at hl
  simp only [UInt32.le_iff_toNat_le, ge_iff_le, hl, and_self, dite_true, Char.ext_iff,
    ← UInt32.toNat_inj]
  split
  · simp only [UInt32.toNat_add, UInt32.toNat_sub]
    omega
  · simp only [UInt32.toNat_add, UInt32.toNat_sub]
    omega

theorem inAnyCase_iff {word text : List Char} (hword : ∀ l ∈ word, l.isLower = true) :
    InAnyCase word text ↔ text.map Char.toLower = word := by
  induction word generalizing text with
  | nil => rw [InAnyCase, List.forall₂_nil_left_iff, List.map_eq_nil_iff]
  | cons l word ih =>
    obtain ⟨hl, hrest⟩ := List.forall_mem_cons.1 hword
    cases text with
    | nil => simp [InAnyCase, List.forall₂_nil_right_iff]
    | cons c text =>
      rw [InAnyCase, List.forall₂_cons, ← toLower_eq_iff hl, List.map_cons, List.cons.injEq,
        ← ih hrest]
      rfl

theorem ofExtension?_eq_some_iff {ext : List Char} {f : ModelFormat} :
    ofExtension? ext = some f ↔ ∃ word ∈ f.extensions, ext = word.toList := by
  unfold ofExtension?
  split
  next h =>
    rcases h with rfl | rfl <;> cases f <;> decide
  next h =>
    obtain ⟨htflite, hlite⟩ := not_or.1 h
    split
    next h =>
      subst h
      cases f <;> decide
    next honnx =>
      cases f <;> simp only [extensions, List.mem_cons, List.not_mem_nil, or_false,
        exists_eq_or_imp, exists_eq_left, htflite, hlite, honnx, or_self, reduceCtorEq]

/-- Extensions are words of small letters. -/
theorem isLower_of_mem_extensions {f : ModelFormat} {word : String} (h : word ∈ f.extensions) :
    ∀ l ∈ word.toList, l.isLower = true := by
  have hall : f.extensions.all (fun word => word.toList.all Char.isLower) = true := by
    cases f <;> rfl
  exact List.all_eq_true.1 (List.all_eq_true.1 hall word h)

/-- The format that the extension of a path tells. -/
theorem guess_eq_some_iff {path : String} {f : ModelFormat} :
    (Path.lowerExtension? path).bind ofExtension? = some f ↔ TellsFormat path.toList f := by
  simp only [Path.lowerExtension?, Option.bind_eq_some_iff, Option.map_eq_some_iff,
    ofExtension?_eq_some_iff, Path.extension?_eq_some_iff, TellsFormat]
  constructor
  · rintro ⟨_, ⟨ext, ⟨stem, hlast, hne, hstem, hext⟩, rfl⟩, word, hword, heq⟩
    exact ⟨stem, ext, hlast, hne, hstem, hext, word, hword,
      (inAnyCase_iff (isLower_of_mem_extensions hword)).2 heq⟩
  · rintro ⟨stem, ext, hlast, hne, hstem, hext, word, hword, hcase⟩
    exact ⟨_, ⟨ext, ⟨stem, hlast, hne, hstem, hext⟩, rfl⟩, word, hword,
      (inAnyCase_iff (isLower_of_mem_extensions hword)).1 hcase⟩

theorem ofPath_eq_ok_iff {path : String} {f : ModelFormat} :
    ofPath path = .ok f ↔ TellsFormat path.toList f := by
  rw [← guess_eq_some_iff, ofPath]
  cases (Path.lowerExtension? path).bind ofExtension? <;> simp

theorem ofPath_of_not_tellsFormat {path : String} (h : ¬ ∃ f, TellsFormat path.toList f) :
    ofPath path = .error (noGuess path) := by
  rw [ofPath]
  split
  next f hf => exact absurd ⟨f, guess_eq_some_iff.1 hf⟩ h
  next => rfl

/-- What is guessed depends on the extension only. -/
theorem toOption_ofPath_congr {path path' : String}
    (h : Path.extension? path'.toList = Path.extension? path.toList) :
    (ofPath path').toOption = (ofPath path).toOption := by
  rw [ofPath, ofPath, Path.lowerExtension?, Path.lowerExtension?, h]
  split <;> rfl

/-! ## The last component tells all -/

section Stem

variable {path stem ext : List Char} {f : ModelFormat}

/-- A last component with a stem and an extension tells by the extension alone. -/
theorem tellsFormat_iff (hlast : IsLast path (stem ++ '.' :: ext)) (hstem : stem ≠ [])
    (hext : '.' ∉ ext) : TellsFormat path f ↔ ∃ word ∈ f.extensions, InAnyCase word.toList ext := by
  constructor
  · rintro ⟨stem', ext', hlast', -, hstem', hext', hword⟩
    have hname : stem' ++ '.' :: ext' = stem ++ '.' :: ext :=
      Option.some.inj ((Path.isLast_iff.1 hlast').symm.trans (Path.isLast_iff.1 hlast))
    have hsame : Path.extensionOf? (stem ++ '.' :: ext) = some ext' :=
      Path.extensionOf?_eq_some_iff.2 ⟨stem', hstem', hext', hname.symm⟩
    rw [Path.extensionOf?_append hext, if_neg hstem] at hsame
    cases hsame
    exact hword
  · rintro ⟨word, hword, hcase⟩
    refine ⟨stem, ext, hlast, fun hparent => ?_, hstem, hext, word, hword, hcase⟩
    -- The name for the parent directory has a stem, but no word is its extension.
    have hlength := congrArg List.length hparent
    have hpos := List.length_pos_iff.2 hstem
    simp only [List.length_append, List.length_cons, List.length_nil] at hlength
    have hnil : ext = [] := List.length_eq_zero_iff.1 (by omega)
    rw [hnil, InAnyCase, List.forall₂_nil_right_iff] at hcase
    revert word
    cases f <;> decide

end Stem

/-- What may stand in front of a dot in a last component. -/
structure IsStem (stem : String) : Prop where
  ne_empty : stem ≠ ""
  not_mem : '/' ∉ stem.toList

/-- What may stand around the stem of a last component and its dot: in front nothing or a directory
and a slash, behind an extension and what leads nowhere. -/
structure Surrounds (front ext back : String) : Prop where
  front : front = "" ∨ ∃ directory, front = directory ++ "/"
  not_mem : '/' ∉ ext.toList
  isLastDot : '.' ∉ ext.toList
  back : Trailing back.toList

section Surrounds

variable {front stem stem' ext back : String}

theorem isLast_stem (h : Surrounds front ext back) (hstem : IsStem stem) :
    IsLast (front ++ stem ++ "." ++ ext ++ back).toList (stem.toList ++ '.' :: ext.toList) := by
  have hpos : 0 < stem.toList.length :=
    List.length_pos_iff.2 (mt String.toList_eq_nil_iff.1 hstem.ne_empty)
  have hname : Path.IsName (stem.toList ++ '.' :: ext.toList) := by
    refine ⟨by simp [hstem.not_mem, h.not_mem], by simp, fun hhere => ?_⟩
    have hlength := congrArg List.length hhere
    simp only [List.length_append, List.length_cons, List.length_nil] at hlength
    omega
  have hpath : (front ++ stem ++ "." ++ ext ++ back).toList =
      front.toList ++ (stem.toList ++ '.' :: ext.toList ++ back.toList) := by simp
  rw [hpath]
  rcases h.front with rfl | ⟨directory, rfl⟩
  · exact .alone hname h.back
  · rw [String.toList_append, List.append_assoc]
    exact .within hname h.back

/-- The stem of a last component does not tell the format. -/
theorem toOption_ofPath_stem (h : Surrounds front ext back) (hstem : IsStem stem)
    (hstem' : IsStem stem') : (ofPath (front ++ stem' ++ "." ++ ext ++ back)).toOption =
      (ofPath (front ++ stem ++ "." ++ ext ++ back)).toOption := by
  have htells : ∀ {stem : String}, IsStem stem → ∀ f,
      (ofPath (front ++ stem ++ "." ++ ext ++ back)).toOption = some f ↔
        ∃ word ∈ f.extensions, InAnyCase word.toList ext.toList := by
    intro stem hstem f
    rw [toOption_eq_some_iff, ofPath_eq_ok_iff]
    exact tellsFormat_iff (isLast_stem h hstem) (mt String.toList_eq_nil_iff.1 hstem.ne_empty)
      h.isLastDot
  apply Option.ext
  intro f
  rw [htells hstem, htells hstem']

end Surrounds

/-- The format is guessed that the last component of a path tells, and no other one. It stays the
same behind slashes and names for the directory itself, in any directory if the path has a
component, and with any other stem of the last component. -/
theorem ofPath_lastComponent (path : String) :
    (∀ f, ofPath path = .ok f ↔ TellsFormat path.toList f) ∧
    ((¬ ∃ f, TellsFormat path.toList f) → ofPath path = .error (noGuess path)) ∧
    (∀ back : String, Trailing back.toList →
      (ofPath (path ++ back)).toOption = (ofPath path).toOption) ∧
    (∀ directory : String,
      ((∃ name, IsLast path.toList name) →
        (ofPath (directory ++ "/" ++ path)).toOption = (ofPath path).toOption) ∧
      ((¬ ∃ name, IsLast path.toList name) →
        (ofPath (directory ++ "/" ++ path)).toOption = (ofPath directory).toOption)) ∧
    ∀ front stem ext back : String, path = front ++ stem ++ "." ++ ext ++ back →
      Surrounds front ext back → IsStem stem → ∀ stem', IsStem stem' →
        (ofPath (front ++ stem' ++ "." ++ ext ++ back)).toOption = (ofPath path).toOption := by
  refine ⟨fun f => ofPath_eq_ok_iff, ofPath_of_not_tellsFormat, ?_, ?_, ?_⟩
  · intro back hback
    apply toOption_ofPath_congr
    rw [String.toList_append]
    exact Path.extension?_append_of_trailing hback _
  · intro directory
    have hpath : (directory ++ "/" ++ path).toList = directory.toList ++ '/' :: path.toList := by
      simp
    rw [Path.exists_isLast_iff, Classical.not_not]
    constructor
    · intro hne
      apply toOption_ofPath_congr
      rw [hpath, Path.extension?_prepend, if_neg hne]
    · intro hnil
      apply toOption_ofPath_congr
      rw [hpath, Path.extension?_prepend, if_pos hnil]
  · rintro front stem ext back rfl h hstem stem' hstem'
    exact toOption_ofPath_stem h hstem hstem'

/-- A hidden file with several dots in a directory with one, behind it what leads nowhere. -/
def hiddenModel : String := "models.v1/" ++ ".mnist.v2" ++ "." ++ "OnnX" ++ "//."

/-- The format of the hidden file is told behind more slashes, in another directory, and with two
dots for its stem. -/
theorem ofPath_lastComponent_hiddenModel :
    ofPath hiddenModel = .ok .onnx ∧ Trailing "/./".toList ∧
    (ofPath (hiddenModel ++ "/./")).toOption = some .onnx ∧
    (∃ name, IsLast hiddenModel.toList name) ∧
    (ofPath ("a.lite" ++ "/" ++ hiddenModel)).toOption = some .onnx ∧
    Surrounds "models.v1/" "OnnX" "//." ∧ IsStem ".mnist.v2" ∧ IsStem ".." ∧
    (ofPath ("models.v1/" ++ ".." ++ "." ++ "OnnX" ++ "//.")).toOption = some .onnx := by
  have hok : ofPath hiddenModel = .ok .onnx := rfl
  have hsome := toOption_eq_some_iff.2 hok
  have htrailing : Trailing "/./".toList := .here (.slash .nil)
  have hsurrounds : Surrounds "models.v1/" "OnnX" "//." :=
    ⟨.inr ⟨"models.v1", by decide⟩, by decide, by decide, .slash (.here .nil)⟩
  have hstem : IsStem ".mnist.v2" := ⟨by decide, by decide⟩
  have hdots : IsStem ".." := ⟨by decide, by decide⟩
  obtain ⟨htells, -, happend, hprepend, hreplace⟩ := ofPath_lastComponent hiddenModel
  obtain ⟨stem, ext, hlast, -⟩ := (htells .onnx).1 hok
  exact ⟨hok, htrailing, (happend _ htrailing).trans hsome, ⟨_, hlast⟩,
    ((hprepend "a.lite").1 ⟨_, hlast⟩).trans hsome, hsurrounds, hstem, hdots,
    (hreplace _ _ _ _ rfl hsurrounds hstem ".." hdots).trans hsome⟩

/-- A path without a component takes the format of the directory that it is put into. -/
theorem ofPath_here :
    ofPath ("x.onnx" ++ "/" ++ ".") = .ok .onnx ∧ ofPath "." = .error (noGuess ".") :=
  ⟨rfl, rfl⟩

end QuantClassifier.ModelFormat
