import QuantClassifier.Tensor.Basic

/-!
# Failures

A failure has a root cause and the contexts in which it happened. Some causes are of a kind that a
caller may want to tell apart; the kind of a failure is the outermost such cause. A failure is
reported, which a panic is not: nothing is done after it, and no context is added to it.
-/

namespace QuantClassifier

/-- The kinds of failure. -/
inductive FailureKind where
  | fileNotFound (path : String)
  | parse (detail : String)
  | unsupportedFormat (detail : String)
  | unsupportedDatumType (dtype : DatumType)
  | shapeMismatch (expected got : Shape)
  | missingShape (what : String)
  | delegateUnavailable (which : String)
  deriving DecidableEq

/-- The wording of a kind. -/
def FailureKind.text : FailureKind → String
  | fileNotFound path => s!"File not found: {path}"
  | parse detail => s!"Parse error: {detail}"
  | unsupportedFormat detail => s!"Unsupported format: {detail}"
  | unsupportedDatumType dtype => s!"Unsupported datum type: {dtype.text}"
  | shapeMismatch expected got =>
    s!"Shape mismatch: expected {expected.text}, got {got.text}"
  | missingShape what => s!"Missing tensor shape: {what}"
  | delegateUnavailable which => s!"Delegate unavailable: {which}"

/-- What went wrong at one level. -/
inductive Cause where
  | kind (k : FailureKind)
  | other (text : String)
  deriving DecidableEq

namespace Cause

/-- The wording of a cause. -/
def text : Cause → String
  | kind k => k.text
  | other s => s

/-- The kind of a cause that has one. -/
def kind? : Cause → Option FailureKind
  | kind k => some k
  | other _ => none

end Cause

/-- A root cause in some contexts, the outermost first. -/
structure Failure where
  contexts : List Cause
  root : Cause
  deriving DecidableEq

namespace Failure

/-- A failure of a kind without context. -/
def ofKind (k : FailureKind) : Failure := ⟨[], .kind k⟩

/-- A failure of no kind without context. -/
def ofText (text : String) : Failure := ⟨[], .other text⟩

/-- The failure in one more context. -/
def within (f : Failure) (context : Cause) : Failure := { f with contexts := context :: f.contexts }

/-- All causes, the outermost first. -/
def chain (f : Failure) : List Cause := f.contexts ++ [f.root]

/-- The outermost cause. -/
def outermost (f : Failure) : Cause := f.contexts.headD f.root

/-- The wording of the outermost cause. -/
def text (f : Failure) : String := f.outermost.text

/-- All causes in one line. -/
def chainText (f : Failure) : String := ": ".intercalate (f.chain.map Cause.text)

/-- The outermost kind in the chain. -/
def kind? (f : Failure) : Option FailureKind := f.chain.findSome? Cause.kind?

/-- A text behind a lead, its further lines indented by some spaces. -/
def indent (lead : String) (spaces : Nat) (text : String) : String :=
  let gap := "\n" ++ String.ofList (List.replicate spaces ' ')
  lead ++ gap.intercalate (text.splitOn "\n")

/-- A number right aligned in a column of five. -/
def aligned (n : Nat) : String :=
  let digits := toString n
  String.ofList (List.replicate (5 - digits.length) ' ') ++ digits

/-- The causes below the outermost one, one a line; several are numbered. -/
def causeLines : List Cause → List String
  | [] => []
  | [c] => [indent "    " 4 c.text]
  | cs => cs.zipIdx.map fun (c, i) => indent (aligned i ++ ": ") 7 c.text

/-- The outermost cause, and below it the others. -/
def fullText (f : Failure) : String :=
  match causeLines f.chain.tail with
  | [] => f.text
  | lines => f.text ++ "\n\nCaused by:\n" ++ "\n".intercalate lines

@[simp] theorem kind?_within_kind (f : Failure) (k : FailureKind) :
    (f.within (.kind k)).kind? = some k := rfl

@[simp] theorem kind?_within_other (f : Failure) (s : String) :
    (f.within (.other s)).kind? = f.kind? := rfl

end Failure

/-- Why a computation has no value: it reports a failure, or it panics. -/
inductive Stop where
  | failure (f : Failure)
  | panic (p : Panic)
  deriving DecidableEq

namespace Stop

variable {α : Type} {a : α}

/-- A failure of a kind without context. -/
def ofKind (k : FailureKind) : Stop := .failure (.ofKind k)

/-- A failure of no kind without context. -/
def ofText (text : String) : Stop := .failure (.ofText text)

/-- What only fails is a step of what may panic too. -/
instance : MonadLift (Except Failure) (Except Stop) := ⟨Except.mapError .failure⟩

/-- What only panics is a step of what may fail too. -/
instance : MonadLift (Except Panic) (Except Stop) := ⟨Except.mapError .panic⟩

@[simp] theorem liftM_failure_ok (a : α) :
    (liftM (.ok a : Except Failure α) : Except Stop α) = .ok a := rfl

@[simp] theorem ok_bind {β : Type} (a : α) (f : α → Except Stop β) :
    ((.ok a : Except Stop α) >>= f) = f a := rfl

theorem liftM_failure_eq_ok_iff {x : Except Failure α} :
    (liftM x : Except Stop α) = .ok a ↔ x = .ok a := mapError_eq_ok_iff

theorem liftM_panic_eq_ok_iff {x : Except Panic α} :
    (liftM x : Except Stop α) = .ok a ↔ x = .ok a := mapError_eq_ok_iff

end Stop

end QuantClassifier
