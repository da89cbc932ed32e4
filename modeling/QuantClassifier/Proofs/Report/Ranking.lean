import Mathlib.Data.List.Sort
import QuantClassifier.Proofs.Binary.Order
import QuantClassifier.Report.Ranking

/-!
# The best scores

Scores are sorted by their keys alone, and equal ones stay in the order of their places because
sorting is stable (`filter_mergeSort`). So all scores with their places end up in one strict order,
the later in the total order of floats the earlier, and equal ones by their places
(`pairwise_ranked`). The best scores are the first ones of that order (`topK_best`).
-/

namespace QuantClassifier

/-! ## Stable sorting -/

section Stable

variable {α : Type} {le : α → α → Bool} {r : α → α → Prop} {l : List α}
  (trans : ∀ a b c, le a b = true → le b c = true → le a c = true)
  (total : ∀ a b, (le a b || le b a) = true)

include trans total

/-- Elements that are equal for the order keep their places among each other. -/
theorem filter_mergeSort {p : α → Bool} (hp : ∀ a b, p a = true → p b = true → le a b = true) :
    (l.mergeSort le).filter p = l.filter p := by
  have hsorted : (l.filter p).Pairwise fun a b => le a b = true :=
    List.pairwise_of_forall_mem_list fun a ha b hb =>
      hp a b (List.of_mem_filter ha) (List.of_mem_filter hb)
  have hsublist : (l.filter p).Sublist (l.mergeSort le) :=
    List.sublist_mergeSort trans total hsorted List.filter_sublist
  have hkept := hsublist.filter p
  rw [List.filter_filter] at hkept
  simp only [Bool.and_self] at hkept
  apply (hkept.eq_of_length _).symm
  exact ((List.mergeSort_perm l le).filter p).length_eq.symm

/-- Of two sorted elements the one is not after the other in the order, and if they are equal for it
they were one before the other. -/
theorem pairwise_mergeSort_of_pairwise (hl : l.Pairwise r) :
    (l.mergeSort le).Pairwise fun a b => le a b = true ∧ (le b a = true → r a b) := by
  rw [List.pairwise_iff_forall_sublist]
  intro a b hab
  have hle : le a b = true :=
    List.pairwise_iff_forall_sublist.1 (List.pairwise_mergeSort trans total l) hab
  refine ⟨hle, fun hba => ?_⟩
  have hself : le a a = true := by simpa using total a a
  have hequal := filter_mergeSort (l := l) (p := fun x => le a x && le x a) trans total
    (fun x y hx hy => by
      simp only [Bool.and_eq_true] at hx hy
      exact trans _ _ _ hx.2 hy.1)
  have hpair : [a, b].Sublist (l.filter fun x => le a x && le x a) := by
    have hfiltered := hab.filter fun x => le a x && le x a
    rw [hequal] at hfiltered
    simpa [hself, hle, hba] using hfiltered
  exact List.pairwise_iff_forall_sublist.1 hl (hpair.trans List.filter_sublist)

end Stable

/-! ## Ranking -/

/-- A score with its place is ranked before another: it comes later in the total order of floats, or
it is the same score at an earlier place. -/
def RankedBefore (a b : Single × ℕ) : Prop := b.1.Precedes a.1 ∨ a.1 = b.1 ∧ a.2 < b.2

/-- The score of a prediction with its place. -/
def Prediction.entry (p : Prediction) : Single × ℕ := (p.score, p.index)

/-- The prediction of a score at a place. -/
def predictionOf (labels : Option (List String)) (a : Single × ℕ) : Prediction :=
  { index := a.2, label := labelAt labels a.2, score := a.1 }

/-- All scores with their places, best first. -/
def ranked (scores : List Single) : List (Single × ℕ) := scores.zipIdx.mergeSort notWorse

variable {scores : List Single} {k : ℕ} {labels : Option (List String)} {p : Prediction}
  {a b : Single × ℕ}

theorem topK_eq (scores : List Single) (k : ℕ) (labels : Option (List String)) :
    topK scores k labels = ((ranked scores).take k).map (predictionOf labels) := rfl

theorem mem_ranked : a ∈ ranked scores ↔ scores[a.2]? = some a.1 := by
  rw [ranked, List.mem_mergeSort, List.mem_zipIdx_iff_getElem?]

theorem notWorse_iff : notWorse a b = true ↔ b.1.totalKey ≤ a.1.totalKey := decide_eq_true_iff

theorem notWorse_trans (a b c : Single × ℕ) (hab : notWorse a b = true) (hbc : notWorse b c = true) :
    notWorse a c = true :=
  notWorse_iff.2 (le_trans (notWorse_iff.1 hbc) (notWorse_iff.1 hab))

theorem notWorse_total (a b : Single × ℕ) : (notWorse a b || notWorse b a) = true := by
  rw [Bool.or_eq_true, notWorse_iff, notWorse_iff]
  exact le_total _ _

theorem rankedBefore_of_notWorse (h : notWorse a b = true) (hplace : notWorse b a = true → a.2 < b.2) :
    RankedBefore a b := by
  rw [notWorse_iff] at h hplace
  rcases lt_or_eq_of_le h with hlt | heq
  · exact Or.inl (Binary.precedes_iff.2 hlt)
  · exact Or.inr ⟨(Binary.totalKey_injective heq).symm, hplace (le_of_eq heq.symm)⟩

theorem pairwise_ranked (scores : List Single) : (ranked scores).Pairwise RankedBefore := by
  have hplaces : scores.zipIdx.Pairwise fun a b => a.2 < b.2 := by
    rw [← List.pairwise_map, List.zipIdx_map_snd]
    exact List.pairwise_lt_range'
  have hsorted := pairwise_mergeSort_of_pairwise notWorse_trans notWorse_total hplaces
  exact hsorted.imp fun h => rankedBefore_of_notWorse h.1 h.2

theorem nodup_places (scores : List Single) : ((ranked scores).map Prod.snd).Nodup := by
  have hperm := (List.mergeSort_perm scores.zipIdx notWorse).map Prod.snd
  rw [List.zipIdx_map_snd] at hperm
  exact hperm.nodup_iff.2 List.nodup_range'

theorem length_ranked (scores : List Single) : (ranked scores).length = scores.length := by
  rw [ranked, List.length_mergeSort, List.length_zipIdx]

/-- What is not among the first ones is ranked after them. -/
theorem rankedBefore_of_not_mem_take (ha : a ∈ ranked scores) (hout : a ∉ (ranked scores).take k)
    (hb : b ∈ (ranked scores).take k) : RankedBefore b a := by
  have hsorted := pairwise_ranked scores
  rw [← List.take_append_drop k (ranked scores)] at ha hsorted
  have hrest := (List.mem_append.1 ha).resolve_left hout
  exact (List.pairwise_append.1 hsorted).2.2 b hb a hrest

theorem map_index_topK (scores : List Single) (k : ℕ) (labels : Option (List String)) :
    (topK scores k labels).map Prediction.index = ((ranked scores).take k).map Prod.snd := by
  rw [topK_eq, List.map_map]
  rfl

/-- The best scores are as many as are asked for or there are, at places of their own, with their
labels. They are in a strict order, and every score that is left out comes after them. If more are
asked for, the answer is continued. -/
theorem topK_best (scores : List Single) (k : ℕ) (labels : Option (List String)) :
    (topK scores k labels).length = min k scores.length ∧
      ((topK scores k labels).map Prediction.index).Nodup ∧
      (∀ p ∈ topK scores k labels,
        scores[p.index]? = some p.score ∧ p.label = labels.bind (·[p.index]?)) ∧
      (topK scores k labels).Pairwise (fun p p' => RankedBefore p.entry p'.entry) ∧
      (∀ i x, scores[i]? = some x → i ∉ (topK scores k labels).map Prediction.index →
        ∀ p ∈ topK scores k labels, RankedBefore p.entry (x, i)) ∧
      ∀ k', k ≤ k' → topK scores k labels <+: topK scores k' labels := by
  have hfirst : ((ranked scores).take k).Sublist (ranked scores) := List.take_sublist k _
  refine ⟨?_, ?_, ?_, ?_, ?_, ?_⟩
  · rw [topK_eq, List.length_map, List.length_take, length_ranked]
  · rw [map_index_topK]
    exact (nodup_places scores).sublist (hfirst.map Prod.snd)
  · intro p hp
    obtain ⟨a, ha, rfl⟩ := List.mem_map.1 (topK_eq scores k labels ▸ hp)
    exact ⟨mem_ranked.1 (hfirst.subset ha), rfl⟩
  · rw [topK_eq, List.pairwise_map]
    exact (pairwise_ranked scores).sublist hfirst
  · intro i x hx hout p hp
    obtain ⟨b, hb, rfl⟩ := List.mem_map.1 (topK_eq scores k labels ▸ hp)
    rw [map_index_topK] at hout
    have hx' : (x, i) ∈ ranked scores := mem_ranked.2 hx
    exact rankedBefore_of_not_mem_take hx' (fun h => hout (List.mem_map_of_mem h)) hb
  · intro k' hk
    rw [topK_eq, topK_eq]
    exact (List.take_prefix_take_left hk).map (predictionOf labels)

end QuantClassifier
