import QuantClassifier.Input.Labels
import QuantClassifier.Proofs.Report.Ranking
import QuantClassifier.Proofs.Text.Lines

/-!
# Labels are lines

A label file writes its labels one a line, with white space of any kind behind a label and either
end of line (`WritesLabels`). Each text is written for one list of labels, which is the one that is
read from it (`writesLabels_iff`), and the label of a place is what stands on the line of that
number (`getElem?_labels`). So the best scores carry the labels of their own lines
(`loadLabels_lines`).
-/

namespace QuantClassifier

/-- What ends a line. -/
inductive LineEnd where
  | feed
  | returnAndFeed

/-- The characters at the end of a line. -/
def LineEnd.chars : LineEnd → List Char
  | feed => ['\n']
  | returnAndFeed => ['\r', '\n']

/-- A label stands on one line, and no white space ends it. -/
structure IsLabel (label : List Char) : Prop where
  not_mem : '\n' ∉ label
  last : ∀ c ∈ label.getLast?, Text.isBlank c = false

/-- White space that may follow a label on its line. -/
def IsPadding (blanks : List Char) : Prop := ∀ c ∈ blanks, Text.isBlank c = true ∧ c ≠ '\n'

/-- A text writes labels one a line, each with some padding behind it. The last line need not be
ended if there is anything on it. -/
inductive WritesLabels : (labels : List String) → (text : List Char) → Prop where
  | none : WritesLabels [] []
  | unended {label : String} {blanks : List Char} : IsLabel label.toList → IsPadding blanks →
      label.toList ++ blanks ≠ [] → WritesLabels [label] (label.toList ++ blanks)
  | ended {label : String} {blanks : List Char} {labels : List String} {text : List Char}
      (stop : LineEnd) : IsLabel label.toList → IsPadding blanks → WritesLabels labels text →
      WritesLabels (label :: labels) (label.toList ++ (blanks ++ (stop.chars ++ text)))

variable {label : String} {blanks text : List Char} {labels : List String}

theorem trimmed_of_isLabel (hlabel : IsLabel label.toList) (hpad : IsPadding blanks) :
    '\n' ∉ label.toList ++ blanks ∧ Text.IsTrimmed (label.toList ++ blanks) label.toList :=
  ⟨fun hmem => (List.mem_append.1 hmem).elim hlabel.not_mem fun h => (hpad _ h).2 rfl,
    ⟨blanks, rfl, fun c hc => (hpad c hc).1⟩, hlabel.last⟩

/-- Either end of a line is a line feed behind more padding. -/
theorem exists_line_of_isLabel (stop : LineEnd) (hlabel : IsLabel label.toList)
    (hpad : IsPadding blanks) : ∃ line, '\n' ∉ line ∧ Text.IsTrimmed line label.toList ∧
      label.toList ++ (blanks ++ (stop.chars ++ text)) = line ++ '\n' :: text := by
  cases stop with
  | feed =>
    obtain ⟨hnot, htrim⟩ := trimmed_of_isLabel hlabel hpad
    exact ⟨_, hnot, htrim, (List.append_assoc ..).symm⟩
  | returnAndFeed =>
    have hpad' : IsPadding (blanks ++ ['\r']) := by
      intro c hc
      rcases List.mem_append.1 hc with hc | hc
      · exact hpad c hc
      · obtain rfl := List.mem_singleton.1 hc
        exact ⟨rfl, by decide⟩
    obtain ⟨hnot, htrim⟩ := trimmed_of_isLabel hlabel hpad'
    exact ⟨_, hnot, htrim, by simp [LineEnd.chars]⟩

/-- What is left of a line is a label, with padding behind it. -/
theorem exists_label_of_not_mem {line : List Char} (h : '\n' ∉ line) : ∃ blanks,
    IsLabel (String.ofList (Text.trimEnd line)).toList ∧ IsPadding blanks ∧
      line = (String.ofList (Text.trimEnd line)).toList ++ blanks := by
  obtain ⟨⟨blanks, hline, hblanks⟩, hlast⟩ := Text.isTrimmed_iff.2 (Eq.refl (Text.trimEnd line))
  rw [String.toList_ofList]
  rw [hline] at h
  obtain ⟨hlabel, hpad⟩ := not_or.1 (mt List.mem_append.2 h)
  exact ⟨blanks, ⟨hlabel, hlast⟩, fun c hc => ⟨hblanks c hc, fun heq => hpad (heq ▸ hc)⟩, hline⟩

/-- A text writes exactly the labels that are read from it. -/
theorem writesLabels_iff : WritesLabels labels text ↔
    labels = (Text.lines text).map fun line => String.ofList (Text.trimEnd line) := by
  constructor
  · intro h
    induction h with
    | none => rfl
    | @unended label blanks hlabel hpad hne =>
      obtain ⟨hnot, htrim⟩ := trimmed_of_isLabel hlabel hpad
      rw [Text.lines_of_not_mem hnot hne, List.map_singleton, ← Text.isTrimmed_iff.1 htrim,
        String.ofList_toList]
    | ended stop hlabel hpad _ ih =>
      obtain ⟨line, hnot, htrim, hline⟩ := exists_line_of_isLabel stop hlabel hpad
      rw [hline, Text.lines_append hnot, List.map_cons, Text.trimEnd_dropReturn,
        ← Text.isTrimmed_iff.1 htrim, String.ofList_toList, ← ih]
  · rintro rfl
    induction text using Text.cutInduction '\n' with
    | last line hnot =>
      by_cases hne : line = []
      · rw [hne]
        exact .none
      · obtain ⟨blanks, hlabel, hpad, hline⟩ := exists_label_of_not_mem hnot
        have hwrites := WritesLabels.unended hlabel hpad (hline ▸ hne)
        rw [← hline] at hwrites
        rwa [Text.lines_of_not_mem hnot hne, List.map_singleton]
    | cons line rest hnot ih =>
      obtain ⟨blanks, hlabel, hpad, hline⟩ := exists_label_of_not_mem hnot
      have hwrites := WritesLabels.ended .feed hlabel hpad ih
      rw [← List.append_assoc, ← hline] at hwrites
      rwa [Text.lines_append hnot, List.map_cons, Text.trimEnd_dropReturn]

theorem isTrimmed_toList_iff {line : List Char} {label' : String}
    (h : Text.IsTrimmed line label.toList) :
    Text.IsTrimmed line label'.toList ↔ label = label' := by
  rw [Text.isTrimmed_iff, ← Text.isTrimmed_iff.1 h, String.toList_inj, eq_comm]

/-- The label of a place is what stands on the line of that number. -/
theorem getElem?_labels (h : WritesLabels labels text) (index : Nat) (label : String) :
    labels[index]? = some label ↔
      ∃ line, Text.IsLineOf text index line ∧ Text.IsTrimmed line label.toList := by
  induction h generalizing index with
  | none => simp [Text.isLineOf_of_not_mem]
  | @unended first blanks hlabel hpad hne =>
    obtain ⟨hnot, htrim⟩ := trimmed_of_isLabel hlabel hpad
    simp only [Text.isLineOf_of_not_mem hnot]
    cases index with
    | zero => simp [hne, isTrimmed_toList_iff htrim]
    | succ index => simp
  | ended stop hlabel hpad _ ih =>
    obtain ⟨line, hnot, htrim, hline⟩ := exists_line_of_isLabel stop hlabel hpad
    rw [hline]
    simp only [Text.isLineOf_append hnot]
    cases index with
    | zero => simp [isTrimmed_toList_iff htrim]
    | succ index => simpa using ih index

theorem loadLabels_eq_ok_iff {files : FileView} {path content : String}
    (hfile : files path = some (Text.encodeUtf8 content)) :
    loadLabels files path = .ok labels ↔ WritesLabels labels content.toList := by
  have hread : files.readText path = .ok content := by
    have hbytes : files.read path = .ok (Text.encodeUtf8 content) := by
      rw [FileView.read, hfile]
    rw [FileView.readText, hbytes]
    simp only [Except.bind, bind, Text.decodeUtf8?_encodeUtf8]
    rfl
  rw [loadLabels, hread, writesLabels_iff, Except.map, Except.ok.injEq, eq_comm]
  rfl

/-- A label file is read as the labels that it writes, one a line, whatever padding stands behind
them and however their lines end. A prediction made with them carries the label of the line that
has the number of its score. -/
theorem loadLabels_lines {files : FileView} {path content : String}
    (hfile : files path = some (Text.encodeUtf8 content)) (labels : List String) :
    (loadLabels files path = .ok labels ↔ WritesLabels labels content.toList) ∧
    (WritesLabels labels content.toList → ∀ scores k, ∀ p ∈ topK scores k (some labels),
      scores[p.index]? = some p.score ∧
      ∀ label, p.label = some label ↔
        ∃ line, Text.IsLineOf content.toList p.index line ∧ Text.IsTrimmed line label.toList) := by
  refine ⟨loadLabels_eq_ok_iff hfile, fun hwrites scores k p hp => ?_⟩
  obtain ⟨a, ha, rfl⟩ := List.mem_map.1 (topK_eq scores k (some labels) ▸ hp)
  exact ⟨mem_ranked.1 (List.mem_of_mem_take ha), fun label => getElem?_labels hwrites a.2 label⟩

/-- Four labels, the second one empty. There is white space behind the first label and the third
one, which holds a carriage return itself, and the last line is not ended. -/
def mixedLabels : String := "uniform \t\r\n\ncan\rned\r\r\nbeer"

/-- Files that all hold the four labels. -/
def mixedLabelFiles : FileView := fun _ => some (Text.encodeUtf8 mixedLabels)

/-- The last label is read, and it goes to the score with the number of its line. -/
theorem loadLabels_lines_mixedLabels :
    mixedLabelFiles "labels.txt" = some (Text.encodeUtf8 mixedLabels) ∧
    loadLabels mixedLabelFiles "labels.txt" = .ok ["uniform", "", "can\rned", "beer"] ∧
    WritesLabels ["uniform", "", "can\rned", "beer"] mixedLabels.toList ∧
    ∀ scores k, ∀ p ∈ topK scores k (some ["uniform", "", "can\rned", "beer"]),
      p.index = 3 → p.label = some "beer" := by
  have hwrites : WritesLabels ["uniform", "", "can\rned", "beer"] mixedLabels.toList :=
    writesLabels_iff.2 (by decide +kernel)
  have hfile : mixedLabelFiles "labels.txt" = some (Text.encodeUtf8 mixedLabels) := rfl
  obtain ⟨hload, hplace⟩ := loadLabels_lines hfile ["uniform", "", "can\rned", "beer"]
  refine ⟨hfile, hload.2 hwrites, hwrites, fun scores k p hp hindex => ?_⟩
  have hline : Text.IsLineOf mixedLabels.toList 3 "beer".toList := by
    change Text.IsLineOf ("uniform \t\r".toList ++ '\n' :: ([] ++ '\n' ::
      ("can\rned\r\r".toList ++ '\n' :: "beer".toList))) 3 _
    exact .later (by decide) (.later (by decide) (.later (by decide)
      (.last (by decide) (by decide))))
  have hlabel : Text.IsTrimmed "beer".toList "beer".toList := Text.isTrimmed_iff.2 (by decide)
  exact ((hplace hwrites scores k p hp).2 "beer").2 ⟨_, hindex ▸ hline, hlabel⟩

end QuantClassifier
