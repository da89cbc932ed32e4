import QuantClassifier.Proofs.Text.Cutting

/-!
# Lines

Where the lines of a text stand is said without cutting it (`IsLineOf`). Cutting takes them off the
front one by one (`lines_append`), and the carriage return that it drops from the end of a line is
white space, so nothing of it is left where the end is trimmed (`trimEnd_dropReturn`).
-/

namespace QuantClassifier.Text

/-- A line of a text, counted from zero, without the line feed that ends it. Behind the last line
feed there is one more line if there is anything. -/
inductive IsLineOf : (text : List Char) → (index : Nat) → (line : List Char) → Prop where
  | last {line : List Char} : '\n' ∉ line → line ≠ [] → IsLineOf line 0 line
  | first {line rest : List Char} : '\n' ∉ line → IsLineOf (line ++ '\n' :: rest) 0 line
  | later {first rest line : List Char} {index : Nat} : '\n' ∉ first → IsLineOf rest index line →
      IsLineOf (first ++ '\n' :: rest) (index + 1) line

variable {text line piece rest : List Char} {index : Nat}

theorem isLineOf_of_not_mem (h : '\n' ∉ text) :
    IsLineOf text index line ↔ index = 0 ∧ line = text ∧ text ≠ [] := by
  constructor
  · intro hline
    cases hline with
    | last _ hne => exact ⟨rfl, rfl, hne⟩
    | first => exact absurd (by simp) h
    | later => exact absurd (by simp) h
  · rintro ⟨rfl, rfl, hne⟩
    exact .last h hne

theorem isLineOf_append (h : '\n' ∉ piece) : IsLineOf (piece ++ '\n' :: rest) index line ↔
    index = 0 ∧ line = piece ∨ ∃ i, index = i + 1 ∧ IsLineOf rest i line := by
  constructor
  · generalize htext : piece ++ '\n' :: rest = text
    intro hline
    cases hline with
    | last hnot => exact absurd (by simp [← htext]) hnot
    | first hnot =>
      obtain ⟨rfl, -⟩ := eq_of_append_eq h hnot htext
      exact .inl ⟨rfl, rfl⟩
    | later hnot hlater =>
      obtain ⟨-, rfl⟩ := eq_of_append_eq h hnot htext
      exact .inr ⟨_, rfl, hlater⟩
  · rintro (⟨rfl, rfl⟩ | ⟨i, rfl, hlater⟩)
    · exact .first h
    · exact .later h hlater

theorem lines_append (h : '\n' ∉ piece) :
    lines (piece ++ '\n' :: rest) = dropReturn piece :: lines rest := by
  obtain ⟨first, pieces, hcut⟩ := List.exists_cons_of_ne_nil (splitAt_ne_nil '\n' rest)
  rw [lines, lines, splitAt_append, splitAt_of_not_mem h, hcut, List.singleton_append,
    List.dropLast_cons_cons, List.getLast?_cons_cons, List.map_cons]
  split
  next hnone => simp at hnone
  next => split <;> rfl

theorem lines_of_not_mem (h : '\n' ∉ text) (hne : text ≠ []) : lines text = [text] := by
  rw [lines, splitAt_of_not_mem h]
  exact if_neg (by simp [hne])

theorem trimEnd_dropReturn (line : List Char) : trimEnd (dropReturn line) = trimEnd line := by
  unfold dropReturn
  split
  next hlast =>
    obtain ⟨⟨back, hback, hblank⟩, hend⟩ := isTrimmed_iff.2 (Eq.refl (trimEnd line.dropLast))
    refine isTrimmed_iff.1 ⟨⟨back ++ ['\r'], ?_, ?_⟩, hend⟩
    · rw [← List.append_assoc, ← hback, List.dropLast_append_getLast? _ hlast]
    · intro c hc
      rcases List.mem_append.1 hc with hc | hc
      · exact hblank c hc
      · obtain rfl := List.mem_singleton.1 hc
        rfl
  next => rfl

end QuantClassifier.Text
