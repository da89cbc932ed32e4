import Mathlib.Data.List.Forall2
import QuantClassifier.Input.Features
import QuantClassifier.Outcome
import QuantClassifier.Proofs.Decimal.Literal
import QuantClassifier.Proofs.Text.Cutting

/-!
# Feature texts

What a feature text may hold and what is read from it. The tokens are what cutting at commas and
stripping white space leave, less what is empty (`isTokens_iff`). A token is read if it is in the
grammar of number texts, as the nearest float (`parseFeature_eq_ok_iff`), so a text is read if all
its tokens are, and else its first bad token is named (`parseFeatures_grammar`). Tokens never reach
over a comma, so two texts with a comma between them are read one after the other
(`parseFeatures_append`).
-/

namespace QuantClassifier

/-! ## Tokens -/

/-- The tokens of a feature text: the pieces between its commas, stripped of white space, less the
empty ones. -/
def IsTokens (text : List Char) (tokens : List (List Char)) : Prop :=
  ∃ pieces stripped, Text.IsCut ',' text pieces ∧ List.Forall₂ Text.IsStripped pieces stripped ∧
    tokens = stripped.filter (· ≠ [])

theorem forall₂_isStripped_iff {pieces stripped : List (List Char)} :
    List.Forall₂ Text.IsStripped pieces stripped ↔ stripped = pieces.map Text.trim := by
  have hstripped : Text.IsStripped = fun piece token => Text.trim piece = token := by
    funext piece token
    exact propext (Text.isStripped_iff.trans eq_comm)
  rw [hstripped, ← List.forall₂_map_left_iff, List.forall₂_eq_eq_eq, eq_comm]

theorem isTokens_iff {text : List Char} {tokens : List (List Char)} :
    IsTokens text tokens ↔ tokens = featureTokens text := by
  have hempty : (fun token : List Char => !token.isEmpty) = fun token => decide (token ≠ []) := by
    funext token
    cases token <;> rfl
  simp only [IsTokens, Text.isCut_iff, forall₂_isStripped_iff, exists_and_left, exists_eq_left,
    featureTokens, hempty]

theorem featureTokens_append (text more : List Char) :
    featureTokens (text ++ ',' :: more) = featureTokens text ++ featureTokens more := by
  rw [featureTokens, Text.splitAt_append, List.map_append, List.filter_append]
  rfl

/-! ## Values -/

/-- A token says something, and the value is the float nearest to it. -/
def IsFeature (token : List Char) (x : Single) : Prop :=
  ∃ l, Literal.Spells token l ∧ l.Nearest x

theorem parseFeature_eq_ok_iff {token : List Char} {x : Single} :
    parseFeature token = .ok x ↔ IsFeature token x := by
  have hparse : Decimal.parse? .single token = some x ↔ IsFeature token x :=
    Literal.parse?_eq_some_iff (by decide)
  rw [← hparse, parseFeature]
  split <;> simp_all

theorem parseFeature_isOk_iff {token : List Char} :
    (∃ x, parseFeature token = .ok x) ↔ ∃ l, Literal.Spells token l := by
  have hparse : (∃ x, Decimal.parse? .single token = some x) ↔ ∃ l, Literal.Spells token l :=
    Literal.exists_parse?_iff (by decide)
  rw [← hparse]
  unfold parseFeature
  split <;> simp_all

theorem parseFeature_eq_error_iff {token : List Char} {failure : Failure} :
    parseFeature token = .error failure ↔
      (¬ ∃ l, Literal.Spells token l) ∧ failure = badFeature token := by
  rw [← parseFeature_isOk_iff]
  unfold parseFeature
  split <;> simp_all [eq_comm]

/-! ## Texts -/

theorem parseFeatures_eq_ok_iff {text : String} {values : List Single} :
    parseFeatures text = .ok values ↔
      List.Forall₂ IsFeature (featureTokens text.toList) values := by
  rw [parseFeatures, mapM_eq_ok_iff, ← List.forall₂_eq_eq_eq, List.forall₂_map_left_iff,
    List.forall₂_map_right_iff]
  simp only [parseFeature_eq_ok_iff]

theorem parseFeatures_eq_error_iff {text : String} {failure : Failure} :
    parseFeatures text = .error failure ↔ ∃ before bad after,
      featureTokens text.toList = before ++ bad :: after ∧
      (∀ token ∈ before, ∃ l, Literal.Spells token l) ∧ (¬ ∃ l, Literal.Spells bad l) ∧
      failure = badFeature bad := by
  simp only [parseFeatures, mapM_eq_error_iff, parseFeature_isOk_iff, parseFeature_eq_error_iff]

theorem parseFeatures_isOk_iff {text : String} : (∃ values, parseFeatures text = .ok values) ↔
    ∀ token ∈ featureTokens text.toList, ∃ l, Literal.Spells token l := by
  simp only [parseFeatures, mapM_isOk_iff, parseFeature_isOk_iff]

theorem parseFeatures_append (text more : String) :
    parseFeatures (text ++ "," ++ more) = do
      let values ← parseFeatures text
      let others ← parseFeatures more
      return values ++ others := by
  have htokens : featureTokens (text ++ "," ++ more).toList =
      featureTokens text.toList ++ featureTokens more.toList := by
    rw [String.toList_append, String.toList_append, List.append_assoc]
    exact featureTokens_append _ _
  rw [parseFeatures, htokens, List.mapM_append]
  rfl

/-- A feature text is read if all its tokens are in the grammar, each as the nearest float and in
their order; else it fails with its first bad token. What stands behind a further comma is read
after it. -/
theorem parseFeatures_grammar (text : String) : ∃ tokens,
    (∀ others, IsTokens text.toList others ↔ others = tokens) ∧
    ((∃ values, parseFeatures text = .ok values) ↔
      ∀ token ∈ tokens, ∃ l, Literal.Spells token l) ∧
    (∀ values, parseFeatures text = .ok values ↔ List.Forall₂ IsFeature tokens values) ∧
    (∀ failure, parseFeatures text = .error failure ↔ ∃ before bad after,
      tokens = before ++ bad :: after ∧ (∀ token ∈ before, ∃ l, Literal.Spells token l) ∧
      (¬ ∃ l, Literal.Spells bad l) ∧ failure = badFeature bad) ∧
    ∀ more : String, parseFeatures (text ++ "," ++ more) = do
      let values ← parseFeatures text
      let others ← parseFeatures more
      return values ++ others :=
  ⟨featureTokens text.toList, fun _ => isTokens_iff, parseFeatures_isOk_iff,
    fun _ => parseFeatures_eq_ok_iff, fun _ => parseFeatures_eq_error_iff,
    parseFeatures_append text⟩

end QuantClassifier
