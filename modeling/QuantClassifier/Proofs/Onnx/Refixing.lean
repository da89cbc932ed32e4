import QuantClassifier.Onnx.File
import QuantClassifier.Proofs.Files.InPlace
import QuantClassifier.Proofs.Onnx.BatchPatch

/-!
# Fixing a file again

A file is fixed in place any number of times, with any batch sizes. What a run does is decided by
the content that the file had before the first run (`pinBatch_of_origin`), since a pinned model is
pinned again like the model it came from. Over a whole sequence of runs the last one that succeeded
counts, and no other file changes (`fixAll_run`).
-/

namespace QuantClassifier.Onnx

open Wire (Bytes)

/-- The files after a run that reads and writes one path; a run that fails leaves them. -/
def fixInPlace (path : String) (s : Store) (batch : Int64) : Store :=
  match fixFile s path path batch.toInt with
  | .ok s' => s'
  | .error _ => s

/-- The files after some runs. -/
def fixAll (path : String) (s : Store) (batches : List Int64) : Store :=
  batches.foldl (fixInPlace path) s

/-- What a content is pinned to by the last batch size that it can be pinned to. -/
def lastPinned? (content : Bytes) (batches : List Int64) : Option Bytes :=
  batches.reverse.findSome? fun batch => (pinBatch batch.toInt content).toOption

/-- A content is the original one or was pinned from it. -/
def PinnedFrom (content current : Bytes) : Prop :=
  current = content ∨ ∃ batch, pinBatch batch content = .ok current

section Runs

variable {s s' : Store} {path : String} {content current : Bytes} {batch : Int64}
  {batches : List Int64}

/-- What was pinned from a content is pinned like it. -/
theorem pinBatch_of_origin (h : PinnedFrom content current) (hlen : content.length < 2 ^ 63)
    (batch : Int) : pinBatch batch current = pinBatch batch content := by
  rcases h with rfl | ⟨first, h⟩
  · rfl
  · exact pinBatch_pinBatch h hlen batch

/-- One run on a file whose content comes from an original one. -/
theorem fixInPlace_step (hfile : s.Rewritten path current s') (horigin : PinnedFrom content current)
    (hlen : content.length < 2 ^ 63) (batch : Int64) :
    ((∃ s'', fixFile s' path path batch.toInt = .ok s'') ↔
      ∃ pinned, pinBatch batch.toInt content = .ok pinned) ∧
    ∃ current', current' = ((pinBatch batch.toInt content).toOption).getD current ∧
      PinnedFrom content current' ∧ s.Rewritten path current' (fixInPlace path s' batch) := by
  have hpin := pinBatch_of_origin horigin hlen batch.toInt
  unfold fixInPlace fixFile pinFile
  simp only [FileView.read, hfile.file, hpin, bind, Except.bind]
  cases hresult : pinBatch batch.toInt content with
  | error e =>
    refine ⟨?_, current, rfl, horigin, hfile⟩
    simp [throw, throwThe, MonadExceptOf.throw]
  | ok pinned =>
    obtain ⟨s'', hwrite, hfile'⟩ := hfile.write pinned
    simp only [pure, Except.pure, hwrite]
    exact ⟨by simp, pinned, rfl, Or.inr ⟨_, hresult⟩, hfile'⟩

theorem lastPinned?_cons (content current : Bytes) (batch : Int64) (batches : List Int64) :
    (lastPinned? content (batch :: batches)).getD current =
      (lastPinned? content batches).getD
        (((pinBatch batch.toInt content).toOption).getD current) := by
  unfold lastPinned?
  rw [List.reverse_cons, List.findSome?_append]
  cases batches.reverse.findSome? fun n => (pinBatch n.toInt content).toOption <;> simp

/-- Any number of runs. -/
theorem fixAll_run (hfile : s.Rewritten path current s') (horigin : PinnedFrom content current)
    (hlen : content.length < 2 ^ 63) (batches : List Int64) :
    ∃ current', current' = (lastPinned? content batches).getD current ∧
      PinnedFrom content current' ∧ s.Rewritten path current' (fixAll path s' batches) := by
  induction batches generalizing current s' with
  | nil => exact ⟨current, rfl, horigin, hfile⟩
  | cons batch batches ih =>
    obtain ⟨-, next, hnext, horigin', hfile'⟩ := fixInPlace_step hfile horigin hlen batch
    obtain ⟨last, hlast, horigin'', hfile''⟩ := ih hfile' horigin'
    refine ⟨last, ?_, horigin'', hfile''⟩
    rw [lastPinned?_cons, ← hnext, hlast]

/-- Runs of any number and with any batch sizes on one file. The next run succeeds exactly if the
original content can be pinned to its batch size, and leaves all files if it fails. The file holds
what the last run that succeeded makes of the original content. What is at other places stays, and
so does what other paths lead to. In particular the batch size of a pinned model is overridden by
the next. -/
theorem fixAll_inPlace (hfile : s.file? path = some content) (hlen : content.length < 2 ^ 63)
    (batches : List Int64) (batch : Int64) :
    ((∃ s', fixFile (fixAll path s batches) path path batch.toInt = .ok s') ↔
      ∃ pinned, pinBatch batch.toInt content = .ok pinned) ∧
    (∀ e, fixFile (fixAll path s batches) path path batch.toInt = .error e →
      fixAll path s (batches ++ [batch]) = fixAll path s batches) ∧
    (fixAll path s batches).file? path = some ((lastPinned? content batches).getD content) ∧
    (∀ place, s.locate path ≠ .ok place →
      (fixAll path s batches).node? place = s.node? place) ∧
    (∀ other, s.locate other ≠ s.locate path →
      (fixAll path s batches).file? other = s.file? other) ∧
    (∀ pinned, pinBatch batch.toInt content = .ok pinned →
      ∀ batch' : Int64, pinBatch batch'.toInt pinned = pinBatch batch'.toInt content) := by
  obtain ⟨current, hcurrent, horigin, hfile'⟩ :=
    fixAll_run (Store.rewritten_self hfile) (Or.inl rfl) hlen batches
  refine ⟨(fixInPlace_step hfile' horigin hlen batch).1, ?_, ?_, hfile'.others, ?_, ?_⟩
  · intro e he
    unfold fixAll at he ⊢
    rw [List.foldl_append, List.foldl_cons, List.foldl_nil, fixInPlace, he]
  · rw [hfile'.file, hcurrent]
  · intro other hother
    exact hfile'.file?_of_ne hother
  · intro pinned hpinned batch'
    exact pinBatch_pinBatch hpinned hlen batch'.toInt

/-- Two files, one of them a model. -/
def looseStore : Store :=
  ⟨[([['m']], .file looseModel), ([['l']], .file [0x61])]⟩

theorem fixAll_inPlace_looseStore :
    looseStore.file? "m" = some looseModel ∧ looseModel.length < 2 ^ 63 ∧
    (fixAll "m" looseStore [7, -1, 4]).file? "m" = some pinnedLooseModel ∧
    (fixAll "m" looseStore [7, -1, 4]).file? "l" = some [0x61] ∧
    pinBatch (7 : Int64).toInt pinnedLooseModel = pinBatch (7 : Int64).toInt looseModel := by
  have hfile : looseStore.file? "m" = some looseModel := by decide +kernel
  have hlen : looseModel.length < 2 ^ 63 := by decide
  have hlast : lastPinned? looseModel [7, -1, 4] = some pinnedLooseModel := by decide +kernel
  have hother : looseStore.locate "l" ≠ looseStore.locate "m" := by
    have hm : (looseStore.locate "m").toOption = some [['m']] := by decide +kernel
    have hl : (looseStore.locate "l").toOption = some [['l']] := by decide +kernel
    intro he
    rw [he, hm] at hl
    exact absurd hl (by decide)
  have hsame : looseStore.file? "l" = some [0x61] := by decide +kernel
  obtain ⟨-, -, hcontent, -, hothers, hagain⟩ := fixAll_inPlace hfile hlen [7, -1, 4] 4
  rw [hlast] at hcontent
  exact ⟨hfile, hlen, hcontent, (hothers "l" hother).trans hsame,
    hagain _ pinBatch_looseModel 7⟩

end Runs

end QuantClassifier.Onnx
