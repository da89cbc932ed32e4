import Mathlib.Data.List.Basic
import Mathlib.Data.List.TakeWhile
import QuantClassifier.Text.Split

/-!
# Cutting texts

Where texts are cut, said by what the cuts leave. A run of characters of a kind ends where another
one follows (`takeWhile_append_eq`, `dropWhile_append_eq`). The pieces at a separator hold none and
give the text when they are joined (`isCut_iff`), so no piece reaches over a separator
(`splitAt_append`), and what is shown of texts may be shown piece by piece (`cutInduction`).
Trimming leaves what begins and ends with no white space between white space (`isStripped_iff`), and
what ends with none in front of it (`isTrimmed_iff`).
-/

namespace QuantClassifier.Text

/-! ## Runs -/

section Runs

variable {p : Char → Bool} {run rest : List Char}

theorem takeWhile_append_eq (hrun : ∀ c ∈ run, p c = true) (hrest : ∀ c ∈ rest.head?, p c = false) :
    (run ++ rest).takeWhile p = run := by
  rw [List.takeWhile_append_of_pos hrun]
  cases rest with
  | nil => exact List.append_nil run
  | cons c rest =>
    rw [List.takeWhile_cons_of_neg (Bool.eq_false_iff.1 (hrest c rfl)), List.append_nil]

theorem dropWhile_append_eq (hrun : ∀ c ∈ run, p c = true) (hrest : ∀ c ∈ rest.head?, p c = false) :
    (run ++ rest).dropWhile p = rest := by
  rw [List.dropWhile_append_of_pos hrun]
  cases rest with
  | nil => rfl
  | cons c rest => exact List.dropWhile_cons_of_neg (Bool.eq_false_iff.1 (hrest c rfl))

theorem not_head_dropWhile (p : Char → Bool) (text : List Char) :
    ∀ c ∈ (text.dropWhile p).head?, p c = false := by
  intro c hc
  have hnot := List.head?_dropWhile_not p text
  rwa [hc] at hnot

end Runs

variable {sep : Char} {text piece token : List Char} {pieces : List (List Char)}

/-! ## Pieces between separators -/

/-- Some pieces are what stands between the separators of a text. -/
structure IsCut (sep : Char) (text : List Char) (pieces : List (List Char)) : Prop where
  ne_nil : pieces ≠ []
  not_mem : ∀ piece ∈ pieces, sep ∉ piece
  joined : joinWith sep pieces = text

theorem splitAt_of_not_mem (h : sep ∉ piece) : splitAt sep piece = [piece] := by
  induction piece with
  | nil => rfl
  | cons c cs ih =>
    obtain ⟨hc, hcs⟩ := not_or.1 (mt List.mem_cons.2 h)
    rw [splitAt, if_neg (Ne.symm hc), ih hcs]

/-- No piece reaches over a separator. -/
theorem splitAt_append (sep : Char) (text more : List Char) :
    splitAt sep (text ++ sep :: more) = splitAt sep text ++ splitAt sep more := by
  induction text with
  | nil => exact if_pos rfl
  | cons c cs ih =>
    rw [List.cons_append, splitAt, splitAt, ih]
    split
    · rfl
    · obtain ⟨piece, pieces, hcut⟩ := List.exists_cons_of_ne_nil (splitAt_ne_nil sep cs)
      rw [hcut]
      rfl

theorem not_mem_of_mem_splitAt (h : piece ∈ splitAt sep text) : sep ∉ piece := by
  induction text generalizing piece with
  | nil =>
    obtain rfl := List.mem_singleton.1 h
    exact List.not_mem_nil
  | cons c cs ih =>
    obtain ⟨first, pieces, hcut⟩ := List.exists_cons_of_ne_nil (splitAt_ne_nil sep cs)
    rw [splitAt, hcut] at h
    rw [hcut] at ih
    split at h
    next =>
      rcases List.mem_cons.1 h with rfl | h
      · exact List.not_mem_nil
      · exact ih h
    next hc =>
      rcases List.mem_cons.1 h with rfl | h
      · exact fun hmem => (List.mem_cons.1 hmem).elim (fun heq => hc heq.symm)
          (ih List.mem_cons_self)
      · exact ih (List.mem_cons_of_mem first h)

theorem splitAt_joinWith (hne : pieces ≠ []) (h : ∀ piece ∈ pieces, sep ∉ piece) :
    splitAt sep (joinWith sep pieces) = pieces := by
  induction pieces with
  | nil => exact absurd rfl hne
  | cons piece pieces ih =>
    have hpiece := splitAt_of_not_mem (h piece List.mem_cons_self)
    cases pieces with
    | nil => exact hpiece
    | cons next pieces =>
      rw [joinWith, splitAt_append, hpiece,
        ih (List.cons_ne_nil _ _) fun piece hmem => h piece (List.mem_cons_of_mem _ hmem)]
      · rfl
      · exact List.cons_ne_nil _ _

theorem isCut_iff : IsCut sep text pieces ↔ pieces = splitAt sep text := by
  constructor
  · rintro ⟨hne, hmem, rfl⟩
    exact (splitAt_joinWith hne hmem).symm
  · rintro rfl
    exact ⟨splitAt_ne_nil sep text, fun _ => not_mem_of_mem_splitAt, joinWith_splitAt sep text⟩

/-- A text is a piece without separators, or such a piece, a separator and a shorter text. -/
theorem cutInduction (sep : Char) {motive : List Char → Prop}
    (last : ∀ piece, sep ∉ piece → motive piece)
    (cons : ∀ piece rest, sep ∉ piece → motive rest → motive (piece ++ sep :: rest))
    (text : List Char) : motive text := by
  have hmem : ∀ piece ∈ splitAt sep text, sep ∉ piece := fun _ => not_mem_of_mem_splitAt
  rw [← joinWith_splitAt sep text]
  generalize splitAt sep text = pieces at hmem
  induction pieces with
  | nil => exact last [] List.not_mem_nil
  | cons piece pieces ih =>
    obtain ⟨hpiece, hpieces⟩ := List.forall_mem_cons.1 hmem
    cases pieces with
    | nil => exact last piece hpiece
    | cons next pieces => exact cons piece _ hpiece (ih hpieces)

/-- The first separator cuts a text in one way only. -/
theorem eq_of_append_eq {piece' rest rest' : List Char} (h : sep ∉ piece) (h' : sep ∉ piece')
    (heq : piece ++ sep :: rest = piece' ++ sep :: rest') : piece = piece' ∧ rest = rest' := by
  have hrun : ∀ {run : List Char}, sep ∉ run → ∀ c ∈ run, (c != sep) = true :=
    fun hnot c hc => bne_iff_ne.2 fun heq => hnot (heq ▸ hc)
  have hstop : ∀ {more : List Char}, ∀ c ∈ (sep :: more).head?, (c != sep) = false := by simp
  constructor
  · rw [← takeWhile_append_eq (hrun h) hstop, heq, takeWhile_append_eq (hrun h') hstop]
  · have hdrop := congrArg (List.dropWhile (· != sep)) heq
    rw [dropWhile_append_eq (hrun h) hstop, dropWhile_append_eq (hrun h') hstop] at hdrop
    exact (List.cons.inj hdrop).2

/-! ## White space at the ends -/

/-- A token is a text less the white space at its ends. -/
structure IsStripped (text token : List Char) : Prop where
  between : ∃ front back, text = front ++ (token ++ back) ∧ (∀ c ∈ front, isBlank c = true) ∧
    ∀ c ∈ back, isBlank c = true
  head : ∀ c ∈ token.head?, isBlank c = false
  last : ∀ c ∈ token.getLast?, isBlank c = false

theorem trimStart_append {front rest : List Char} (h : ∀ c ∈ front, isBlank c = true)
    (hrest : ∀ c ∈ rest.head?, isBlank c = false) : trimStart (front ++ rest) = rest :=
  dropWhile_append_eq h hrest

theorem exists_trimStart (text : List Char) :
    ∃ front, text = front ++ trimStart text ∧ (∀ c ∈ front, isBlank c = true) ∧
      ∀ c ∈ (trimStart text).head?, isBlank c = false :=
  ⟨text.takeWhile isBlank, List.takeWhile_append_dropWhile.symm,
    fun _ hc => List.mem_takeWhile_imp hc, not_head_dropWhile isBlank text⟩

theorem trimEnd_eq (text : List Char) : trimEnd text = (trimStart text.reverse).reverse := rfl

/-- A token is a text less the white space at its end. -/
structure IsTrimmed (text token : List Char) : Prop where
  between : ∃ back, text = token ++ back ∧ ∀ c ∈ back, isBlank c = true
  last : ∀ c ∈ token.getLast?, isBlank c = false

theorem isTrimmed_iff : IsTrimmed text token ↔ token = trimEnd text := by
  constructor
  · rintro ⟨⟨back, rfl, hback⟩, hlast⟩
    have hback' : ∀ c ∈ back.reverse, isBlank c = true :=
      fun c hc => hback c (List.mem_reverse.1 hc)
    rw [trimEnd_eq, List.reverse_append, trimStart_append hback' (by rwa [List.head?_reverse]),
      List.reverse_reverse]
  · rintro rfl
    obtain ⟨back, htext, hback, hlast⟩ := exists_trimStart text.reverse
    refine ⟨⟨back.reverse, ?_, fun c hc => hback c (List.mem_reverse.1 hc)⟩, fun c hc => hlast c ?_⟩
    · rw [trimEnd_eq, ← List.reverse_append, ← htext, List.reverse_reverse]
    · rwa [trimEnd_eq, List.getLast?_reverse] at hc

theorem isStripped_iff : IsStripped text token ↔ token = trim text := by
  constructor
  · rintro ⟨⟨front, back, rfl, hfront, hback⟩, hhead, hlast⟩
    cases token with
    | nil =>
      have hblank : ∀ c ∈ front ++ back, isBlank c = true :=
        fun c hc => (List.mem_append.1 hc).elim (hfront c) (hback c)
      have hstart : trimStart (front ++ back ++ []) = [] := trimStart_append hblank (by simp)
      rw [List.append_nil] at hstart
      rw [List.nil_append, trim, hstart]
      rfl
    | cons c rest =>
      have hstart : trimStart (front ++ (c :: rest ++ back)) = c :: rest ++ back :=
        trimStart_append hfront hhead
      rw [trim, hstart]
      exact isTrimmed_iff.1 ⟨⟨back, rfl, hback⟩, hlast⟩
  · rintro rfl
    obtain ⟨front, htext, hfront, hhead⟩ := exists_trimStart text
    obtain ⟨⟨back, hsplit, hback⟩, hlast⟩ := isTrimmed_iff.2 (Eq.refl (trim text))
    refine ⟨⟨front, back, hsplit ▸ htext, hfront, hback⟩, fun c hc => hhead c ?_, hlast⟩
    rw [hsplit]
    exact List.mem_head?_append_of_mem_head? hc

end QuantClassifier.Text
