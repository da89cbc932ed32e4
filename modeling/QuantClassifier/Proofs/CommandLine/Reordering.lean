import QuantClassifier.Proofs.CommandLine.Phrases

/-!
# Options in another order

An option that takes a value or stands for one occurs once, so what is found of it does not depend
on its place (`value?_eq_some_iff`). A command line whose phrases come in another order, with or
without those that only count, sets the same options otherwise (`parse_reorder`).
-/

namespace QuantClassifier.CommandLine.Grammar

variable {ι : Type} {Value : ι → Type}

/-- The options that may occur once only. -/
def single (g : Grammar ι Value) (xs : Occurrences Value) : Occurrences Value :=
  xs.filter fun x => !g.isCounter x.1

variable {g : Grammar ι Value} {xs ys : Occurrences Value} {i : ι} {v : Value i}

theorem mem_single_iff (hi : g.isCounter i = false) : ⟨i, v⟩ ∈ g.single xs ↔ ⟨i, v⟩ ∈ xs := by
  simp [single, hi]

theorem separate_iff_single : g.Separate xs ↔ g.Separate (g.single xs) := by
  rw [Separate, Separate, single, List.pairwise_filter]
  refine List.Pairwise.iff fun x y => ?_
  cases hx : g.isCounter x.1 with
  | true => simp
  | false =>
    constructor
    · exact fun h _ _ heq => h heq
    · exact fun h heq => h rfl (by rw [← heq, hx]; rfl) heq

/-! ## Options that count -/

/-- A phrase sets options that may occur any number of times, and no others. -/
def counts (g : Grammar ι Value) (φ : Phrase) : Bool :=
  (g.meaning? φ).any fun xs => xs.all fun x => g.isCounter x.1

variable {φ : Phrase} {phrases phrases' : List Phrase} {closed closed' : Bool}

theorem counts_iff : g.counts φ = true ↔
    ∃ xs, g.meaning? φ = some xs ∧ ∀ x ∈ xs, g.isCounter x.1 = true := by
  simp [counts, Option.any_eq_true]

theorem single_occurrences (phrases : List Phrase) :
    g.single (g.occurrences phrases) =
      g.single (g.occurrences (phrases.filter fun φ => !g.counts φ)) := by
  induction phrases with
  | nil => rfl
  | cons φ phrases ih =>
    have hcons : ∀ {phrases}, g.single (g.occurrences (φ :: phrases)) =
        g.single ((g.meaning? φ).getD []) ++ g.single (g.occurrences phrases) := by
      intro phrases
      rw [occurrences, List.flatMap_cons, single, List.filter_append]
      rfl
    rw [hcons, ih]
    cases hcounts : g.counts φ with
    | false => rw [List.filter_cons_of_pos (by rw [hcounts]; rfl), hcons]
    | true =>
      rw [List.filter_cons_of_neg (by simp [hcounts])]
      obtain ⟨ys, hys, hall⟩ := counts_iff.1 hcounts
      have hnil : g.single ys = [] := by
        rw [single, List.filter_eq_nil_iff]
        intro x hx
        simp [hall x hx]
      rw [hys, Option.getD_some, hnil, List.nil_append]

variable [DecidableEq ι]

/-! ## Values -/

/-- The value of an option that occurs once is found, wherever it stands. -/
theorem value?_eq_some_iff (hsep : g.Separate xs) (hi : g.isCounter i = false) :
    xs.value? i = some v ↔ ⟨i, v⟩ ∈ xs := by
  induction xs with
  | nil => exact ⟨nofun, nofun⟩
  | cons x xs ih =>
    obtain ⟨hhead, htail⟩ := List.pairwise_cons.1 hsep
    obtain ⟨j, w⟩ := x
    rw [List.mem_cons]
    by_cases hj : j = i
    · subst hj
      have hnot : ⟨j, v⟩ ∉ xs := by
        intro hmem
        have hcounter := hhead _ hmem rfl
        rw [hi] at hcounter
        cases hcounter
      simp [Occurrences.value?, hnot, eq_comm]
    · have hvalue : Occurrences.value? (⟨j, w⟩ :: xs) i = Occurrences.value? xs i := by
        simp [Occurrences.value?, hj]
      rw [hvalue, ih htail]
      grind

theorem has_eq_isSome (xs : Occurrences Value) (i : ι) : xs.has i = (xs.value? i).isSome := by
  rw [Occurrences.has, Occurrences.value?, List.isSome_findSome?]
  congr 1
  ext x
  by_cases hx : x.1 = i <;> simp [hx]

theorem value?_congr (hxs : g.Separate xs) (hys : g.Separate ys)
    (hperm : (g.single ys).Perm (g.single xs)) (hi : g.isCounter i = false) :
    ys.value? i = xs.value? i := by
  ext v
  rw [value?_eq_some_iff hys hi, value?_eq_some_iff hxs hi,
    ← mem_single_iff hi, hperm.mem_iff, mem_single_iff hi]

/-! ## Reordering -/

/-- The same phrases in another order, with or without those that only count. -/
theorem parse_reorder (h : g.parse (commandLine phrases closed) = .ok xs)
    (hperm : (phrases'.filter fun φ => !g.counts φ).Perm (phrases.filter fun φ => !g.counts φ)) :
    ∃ ys, g.parse (commandLine phrases' closed') = .ok ys ∧ (g.single ys).Perm (g.single xs) := by
  obtain ⟨hall, hsep, rfl⟩ := parse_commandLine.1 h
  have hsingle : (g.single (g.occurrences phrases')).Perm (g.single (g.occurrences phrases)) := by
    rw [single_occurrences phrases', single_occurrences phrases]
    exact (hperm.flatMap_right _).filter _
  refine ⟨g.occurrences phrases', parse_commandLine.2 ⟨fun φ hφ => ?_, ?_, rfl⟩, hsingle⟩
  · cases hcounts : g.counts φ with
    | true =>
      obtain ⟨ys, hys, -⟩ := counts_iff.1 hcounts
      rw [hys]
      rfl
    | false =>
      have hmem : φ ∈ phrases'.filter fun φ => !g.counts φ := by simp [hφ, hcounts]
      exact hall φ (List.mem_of_mem_filter (hperm.mem_iff.1 hmem))
  · rw [separate_iff_single, separate_perm hsingle, ← separate_iff_single]
    exact hsep

end QuantClassifier.CommandLine.Grammar
