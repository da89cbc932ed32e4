import QuantClassifier.CommandLine.Classify
import QuantClassifier.Proofs.CommandLine.Named

/-!
# The parameters of a command line

Settings always amount to parameters, for a command line that can be read has exactly one input.
What they are is said by the options that stand on it (`Follows`), not by their order
(`parameters_of_read`).
-/

namespace QuantClassifier.CommandLine

/-- Letters that raise the verbosity and do nothing else. -/
def Phrase.isVerbose (φ : Phrase) : Bool :=
  match Token.ofString φ.option, φ.word with
  | .letters cs, none => cs.all (· == 'v')
  | _, _ => false

/-- Parameters are what the options of a command line say, wherever they stand. The hardware
delegate goes before a named one, and labels ask for some best scores unless their number is
given. -/
structure Follows (phrases : List Phrase) (p : ClassifyParameters) : Prop where
  model : Answers phrases "model" (fun path => p.model = path) False
  image : Answers phrases "image" (fun path => p.input = .image path)
    (∃ path, p.input = .features path)
  features : Answers phrases "features" (fun path => p.input = .features path)
    (∃ path, p.input = .image path)
  format : Answers phrases "format"
    (fun name => ∃ format, ModelFormat.ofName name = .ok format ∧ p.format = some format)
    (p.format = none)
  normalization : Answers phrases "normalize"
    (fun name => Normalization.ofName name = .ok p.normalization) (p.normalization = .unit)
  hardware : Has phrases "use-npu" → p.delegate = "npu"
  delegate : ¬ Has phrases "use-npu" →
    Answers phrases "delegate" (fun name => p.delegate = name) (p.delegate = "default")
  labels : Answers phrases "labels" (fun path => p.labels = some path) (p.labels = none)
  topK : Answers phrases "top-k" (fun text => ∃ k, readCount text = .ok k ∧ p.topK = some k)
    (Answers phrases "labels" (fun _ => p.topK = some defaultTopK) (p.topK = none))
  json : p.json = true ↔ Has phrases "json"

variable {text path : String} {phrases phrases' : List Phrase} {closed closed' : Bool}
  {xs ys : Occurrences ClassifyOption.Value} {a : ClassifyArguments}

/-! ## Values -/

theorem readText_eq_ok_iff {value : String} : readText text = .ok value ↔ value = text := by
  simp [readText, eq_comm]

theorem eq_of_readPath (h : readPath text = .ok path) : path = text := by
  unfold readPath at h
  split at h <;> cases h
  rfl

theorem readWith_eq_ok_iff {ε α : Type} {f : String → Except ε α} {value : α} :
    readWith f text = .ok value ↔ f text = .ok value :=
  mapError_eq_ok_iff

namespace InputSource

variable {image features : Option String} {input : InputSource}

/-- Exactly one of two paths makes an input. -/
theorem exists_ofPaths (hboth : ¬(image.isSome = true ∧ features.isSome = true))
    (hone : (image <|> features) = some path) : ∃ input, ofPaths image features = .ok input := by
  cases image with
  | none =>
    cases features with
    | none => cases hone
    | some path => exact ⟨.features path, rfl⟩
  | some path =>
    cases features with
    | none => exact ⟨.image path, rfl⟩
    | some => exact absurd ⟨rfl, rfl⟩ hboth

theorem eq_image (h : ofPaths (some path) features = .ok input) : input = .image path := by
  cases features <;> cases h
  rfl

theorem eq_features (h : ofPaths image (some path) = .ok input) : input = .features path := by
  cases image <;> cases h
  rfl

theorem exists_features (h : ofPaths none features = .ok input) :
    ∃ path, input = .features path := by
  cases features <;> cases h
  exact ⟨_, rfl⟩

theorem exists_image (h : ofPaths image none = .ok input) : ∃ path, input = .image path := by
  cases image <;> cases h
  exact ⟨_, rfl⟩

end InputSource

/-! ## Settings -/

namespace ClassifyArguments

/-- Settings are made by a model and exactly one input. -/
theorem ofOccurrences_eq_ok_iff : ofOccurrences xs = .ok a ↔
    ∃ model path, xs.value? .model = some model ∧
      ¬((xs.value? .image).isSome = true ∧ (xs.value? .features).isSome = true) ∧
      (xs.value? .image <|> xs.value? .features) = some path ∧
      a = { useNpu := xs.has .useNpu
            delegate := (xs.value? .delegate).getD Delegate.optimized.name
            model, image := xs.value? .image, features := xs.value? .features
            format := xs.value? .format
            normalization := (xs.value? .normalize).getD .unit
            labels := xs.value? .labels
            topK := xs.value? .topK
            json := xs.has .json
            verbosity := min (xs.count .verbose) verbosityLimit } := by
  unfold ofOccurrences
  dsimp only
  split
  next hboth =>
    constructor
    · rintro ⟨⟩
    · rintro ⟨model, path, -, hnot, -⟩
      exact absurd hboth hnot
  next hboth =>
    split
    next model path hmodel hone =>
      constructor
      · rintro ⟨⟩
        exact ⟨model, path, hmodel, hboth, hone, rfl⟩
      · rintro ⟨model', path', hmodel', -, -, rfl⟩
        cases hmodel.symm.trans hmodel'
        rfl
    next hnone =>
      constructor
      · rintro ⟨⟩
      · rintro ⟨model, path, hmodel, -, hone, -⟩
        exact absurd hone (hnone model path hmodel)

/-- Settings amount to parameters. -/
theorem exists_parameters (h : ofOccurrences xs = .ok a) :
    ∃ model input, xs.value? .model = some model ∧
      InputSource.ofPaths (xs.value? .image) (xs.value? .features) = .ok input ∧
      a.parameters = .ok
        { model, input
          format := xs.value? .format
          delegate := if xs.has .useNpu then Delegate.hardware
            else (xs.value? .delegate).getD Delegate.optimized.name
          normalization := (xs.value? .normalize).getD .unit
          labels := xs.value? .labels
          topK := xs.value? .topK <|> (xs.value? .labels).map fun _ => defaultTopK
          json := xs.has .json } := by
  obtain ⟨model, path, hmodel, hboth, hone, rfl⟩ := ofOccurrences_eq_ok_iff.1 h
  obtain ⟨input, hinput⟩ := InputSource.exists_ofPaths hboth hone
  refine ⟨model, input, hmodel, hinput, ?_⟩
  rw [parameters, hinput]
  rfl

/-- Only the verbosity counts options. -/
theorem ofOccurrences_congr (hvalue : ∀ i ≠ .verbose, ys.value? i = xs.value? i)
    (h : ofOccurrences xs = .ok a) :
    ofOccurrences ys =
      .ok { a with verbosity := min (ys.count .verbose) verbosityLimit } := by
  have hhas : ∀ i ≠ .verbose, ys.has i = xs.has i := by
    intro i hi
    rw [Grammar.has_eq_isSome, Grammar.has_eq_isSome, hvalue i hi]
  obtain ⟨model, path, hmodel, hboth, hone, rfl⟩ := ofOccurrences_eq_ok_iff.1 h
  rw [ofOccurrences_eq_ok_iff, hvalue .image nofun, hvalue .features nofun, hvalue .model nofun,
    hvalue .delegate nofun, hvalue .format nofun, hvalue .normalize nofun, hvalue .labels nofun,
    hvalue .topK nofun, hhas .useNpu nofun, hhas .json nofun]
  exact ⟨model, path, hmodel, hboth, hone, rfl⟩

end ClassifyArguments

/-! ## Options -/

namespace ClassifyOption

theorem not_isCounter {i : ClassifyOption} (hi : i ≠ .verbose) : grammar.isCounter i = false := by
  cases i <;> first | rfl | exact absurd rfl hi

theorem lettersMeaning?_of_all {cs : List Char} (h : cs.all (· == 'v') = true) :
    ∃ xs, grammar.lettersMeaning? cs = some xs ∧ ∀ x ∈ xs, grammar.isCounter x.1 = true := by
  induction cs with
  | nil => exact ⟨[], rfl, nofun⟩
  | cons c cs ih =>
    obtain ⟨hc, hcs⟩ := Bool.and_eq_true_iff.1 (List.all_cons.symm.trans h)
    obtain ⟨xs, hxs, hall⟩ := ih hcs
    obtain rfl := eq_of_beq hc
    refine ⟨⟨.verbose, ()⟩ :: xs, Grammar.lettersMeaning?_cons_iff.2 ⟨_, rfl, xs, hxs, rfl⟩, ?_⟩
    exact List.forall_mem_cons.2 ⟨rfl, hall⟩

theorem counts_of_isVerbose {φ : Phrase} (h : φ.isVerbose = true) : grammar.counts φ = true := by
  unfold Phrase.isVerbose at h
  split at h
  next cs hoption hword =>
    rw [Grammar.counts_iff, Grammar.meaning?, hoption, hword]
    exact lettersMeaning?_of_all h
  next => cases h

theorem filter_counts (phrases : List Phrase) :
    (phrases.filter (!·.isVerbose)).filter (fun φ => !grammar.counts φ) =
      phrases.filter fun φ => !grammar.counts φ := by
  rw [List.filter_filter]
  refine List.filter_congr fun φ _ => ?_
  cases hverbose : φ.isVerbose with
  | false => simp
  | true => simp [counts_of_isVerbose hverbose]

/-- What is read of a command line follows from its phrases. -/
theorem follows {p : ClassifyParameters} (h : grammar.parse (commandLine phrases closed) = .ok xs)
    (ha : ClassifyArguments.ofOccurrences xs = .ok a) (hp : a.parameters = .ok p) :
    Follows phrases p := by
  obtain ⟨model, input, hmodel, hinput, ha⟩ := ClassifyArguments.exists_parameters ha
  cases ha.symm.trans hp
  have hnpu : xs.has .useNpu = true ↔ Has phrases "use-npu" :=
    Grammar.has_iff h (by decide) rfl
  constructor
  case model =>
    refine Grammar.answers h (by decide : grammar.Named .model "model") rfl ?_ ?_
    · intro text path hread hpath
      cases hmodel.symm.trans hpath
      exact eq_of_readPath hread
    · intro hnone
      cases hmodel.symm.trans hnone
  case image =>
    refine Grammar.answers h (by decide : grammar.Named .image "image") rfl ?_ ?_
    · intro text path hread hpath
      rw [hpath, eq_of_readPath hread] at hinput
      exact InputSource.eq_image hinput
    · intro hnone
      rw [hnone] at hinput
      exact InputSource.exists_features hinput
  case features =>
    refine Grammar.answers h (by decide : grammar.Named .features "features") rfl ?_ ?_
    · intro text path hread hpath
      rw [hpath, eq_of_readPath hread] at hinput
      exact InputSource.eq_features hinput
    · intro hnone
      rw [hnone] at hinput
      exact InputSource.exists_image hinput
  case format =>
    refine Grammar.answers h (by decide : grammar.Named .format "format") rfl ?_ ?_
    · exact fun hread hformat => ⟨_, readWith_eq_ok_iff.1 hread, hformat⟩
    · exact fun hnone => hnone
  case normalization =>
    refine Grammar.answers h (by decide : grammar.Named .normalize "normalize") rfl ?_ ?_
    · intro text normalization hread hnormalization
      rw [hnormalization]
      exact readWith_eq_ok_iff.1 hread
    · intro hnone
      rw [hnone]
      rfl
  case hardware =>
    intro hhas
    exact if_pos (hnpu.2 hhas)
  case delegate =>
    intro hhas
    rw [if_neg (mt hnpu.1 hhas)]
    refine Grammar.answers h (by decide : grammar.Named .delegate "delegate") rfl ?_ ?_
    · intro text name hread hname
      rw [hname]
      exact readText_eq_ok_iff.1 hread
    · intro hnone
      rw [hnone]
      rfl
  case labels =>
    refine Grammar.answers h (by decide : grammar.Named .labels "labels") rfl ?_ ?_
    · intro text path hread hpath
      rw [hpath, eq_of_readPath hread]
    · exact fun hnone => hnone
  case topK =>
    refine Grammar.answers h (by decide : grammar.Named .topK "top-k") rfl ?_ ?_
    · intro text k hread hk
      exact ⟨k, hread, by rw [hk]; rfl⟩
    · intro hnone
      rw [hnone]
      refine Grammar.answers h (by decide : grammar.Named .labels "labels") rfl ?_ ?_
      · intro text path hread hpath
        rw [hpath]
        rfl
      · intro hnone
        rw [hnone]
        rfl
  case json => exact Grammar.has_iff h (by decide) rfl

end ClassifyOption

/-- Whatever is read of a command line amounts to parameters, which follow from the options on it:
their order does not matter, nor do letters that only raise the verbosity. -/
theorem ClassifyArguments.parameters_of_read {arguments : List String}
    (h : ClassifyArguments.read arguments = .ok a) :
    ∃ p, a.parameters = .ok p ∧
      (∃ phrases closed, arguments = commandLine phrases closed) ∧
      ∀ phrases closed, arguments = commandLine phrases closed →
        Follows phrases p ∧
        ∀ phrases' closed', (phrases'.filter (!·.isVerbose)).Perm (phrases.filter (!·.isVerbose)) →
          ∃ a', ClassifyArguments.read (commandLine phrases' closed') = .ok a' ∧
            a'.parameters = .ok p := by
  obtain ⟨xs, hparse, ha⟩ := bind_eq_ok_iff.1 h
  obtain ⟨_, _, -, -, hp⟩ := exists_parameters ha
  refine ⟨_, hp, ?_, ?_⟩
  · exact Grammar.exists_commandLine (Grammar.parse_eq_ok_iff.1 hparse)
  · rintro phrases closed rfl
    refine ⟨ClassifyOption.follows hparse ha hp, fun phrases' closed' hperm => ?_⟩
    have hcounts := hperm.filter fun φ => !ClassifyOption.grammar.counts φ
    rw [ClassifyOption.filter_counts, ClassifyOption.filter_counts] at hcounts
    obtain ⟨ys, hys, hsingle⟩ : ∃ ys,
        ClassifyOption.grammar.parse (commandLine phrases' closed') = .ok ys ∧
          (ClassifyOption.grammar.single ys).Perm (ClassifyOption.grammar.single xs) :=
      Grammar.parse_reorder hparse hcounts
    have hvalue : ∀ i ≠ .verbose, ys.value? i = xs.value? i := fun i hi =>
      Grammar.value?_congr (Grammar.parse_commandLine.1 hparse).2.1
        (Grammar.parse_commandLine.1 hys).2.1 hsingle (ClassifyOption.not_isCounter hi)
    refine ⟨{ a with verbosity := min (ys.count .verbose) verbosityLimit }, ?_, hp⟩
    rw [read, bind_eq_ok_iff]
    exact ⟨ys, hys, ofOccurrences_congr hvalue ha⟩

/-- A model and a delegate that are named like options, labels without a number of best scores, and
letters. -/
def crowdedPhrases : List Phrase :=
  [⟨"--model=--image", none, by decide, by decide⟩,
    ⟨"--labels", some "l.txt", by decide, by decide⟩, ⟨"-vv", none, by decide, by decide⟩,
    ⟨"--delegate", some "-", by decide, by decide⟩, ⟨"--use-npu", none, by decide, by decide⟩,
    ⟨"--features", some "f.csv", by decide, by decide⟩]

/-- The same options the other way round, and other letters. -/
def reversedPhrases : List Phrase :=
  [⟨"-v", none, by decide, by decide⟩, ⟨"--features", some "f.csv", by decide, by decide⟩,
    ⟨"--use-npu", none, by decide, by decide⟩, ⟨"--delegate", some "-", by decide, by decide⟩,
    ⟨"--labels", some "l.txt", by decide, by decide⟩, ⟨"-vvv", none, by decide, by decide⟩,
    ⟨"--model=--image", none, by decide, by decide⟩]

/-- The parameters of the options, in both orders. -/
theorem ClassifyArguments.parameters_of_read_crowdedPhrases :
    ∃ a p a', ClassifyArguments.read (commandLine crowdedPhrases false) = .ok a ∧
      a.parameters = .ok p ∧ p.model = "--image" ∧ p.input = .features "f.csv" ∧
      p.delegate = "npu" ∧ p.topK = some 5 ∧
      ClassifyArguments.read (commandLine reversedPhrases true) = .ok a' ∧
      a'.parameters = .ok p := by
  obtain ⟨a, ha⟩ : ∃ a, ClassifyArguments.read (commandLine crowdedPhrases false) = .ok a :=
    ⟨_, rfl⟩
  obtain ⟨p, hp, -, hall⟩ := parameters_of_read ha
  obtain ⟨hfollows, hreorder⟩ := hall crowdedPhrases false rfl
  have hreversed : reversedPhrases.filter (!·.isVerbose) =
      (crowdedPhrases.filter (!·.isVerbose)).reverse := rfl
  obtain ⟨a', ha', hp'⟩ := hreorder reversedPhrases true (hreversed ▸ List.reverse_perm _)
  have hmodel : Gives crowdedPhrases "model" "--image" := ⟨_, .head _, .inr rfl⟩
  have hfeatures : Gives crowdedPhrases "features" "f.csv" :=
    ⟨_, List.getLast_mem (List.cons_ne_nil _ _), .inl rfl⟩
  have hhas : Has crowdedPhrases "use-npu" := ⟨_, List.getElem_mem (by decide : 4 < 6), rfl⟩
  have hlabels : Gives crowdedPhrases "labels" "l.txt" := ⟨_, .tail _ (.head _), .inl rfl⟩
  have htopK : ∀ text, ¬ Gives crowdedPhrases "top-k" text := by
    rintro text ⟨φ, hφ, hgives⟩
    have hstart : φ.option.toList.take 3 = "--t".toList := by
      rcases hgives with h | h
      · rw [(List.cons_eq_cons.1 h).1]
        rfl
      · rw [(List.cons_eq_cons.1 h).1]
        simp [String.toList_append]
    have hnone : ∀ φ ∈ crowdedPhrases, φ.option.toList.take 3 ≠ "--t".toList := by decide
    exact hnone φ hφ hstart
  exact ⟨a, p, a', ha, hp, hfollows.model.given _ hmodel, hfollows.features.given _ hfeatures,
    hfollows.hardware hhas, (hfollows.topK.absent htopK).given _ hlabels, ha', hp'⟩

end QuantClassifier.CommandLine
