import QuantClassifier.Outcome
import QuantClassifier.Tensor.DatumType

/-!
# Tensors

A tensor holds the elements of one type in row major order under a shape, one for each place. Places
are counted axis by axis in a 64 bit word; where the leading axes alone have more places than the
word holds, counting panics (`Shape.count_eq_error_iff`).
-/

namespace QuantClassifier

/-- The lengths of the axes. -/
abbrev Shape := List Nat

namespace Shape

/-- The product of the dimensions. -/
def product (shape : Shape) : Nat := shape.foldr (· * ·) 1

/-- One more than the greatest number of a 64 bit word. -/
def wordSize : Nat := 0x10000000000000000

/-- One more factor of a product in a 64 bit word. -/
def mulWord (m n : Nat) : Except Panic Nat :=
  if m * n < wordSize then .ok (m * n) else .error .overflow

/-- The number of elements, multiplied up from the first axis on in a 64 bit word. -/
def count (shape : Shape) : Except Panic Nat := shape.foldlM mulWord 1

/-- The dimensions in brackets. -/
def text (shape : Shape) : String := "[" ++ ", ".intercalate (shape.map toString) ++ "]"

@[simp] theorem product_nil : product [] = 1 := rfl

@[simp] theorem product_cons (n : Nat) (shape : Shape) :
    product (n :: shape) = n * product shape := rfl

theorem product_append (shape more : Shape) :
    product (shape ++ more) = product shape * product more := by
  induction shape with
  | nil => rw [List.nil_append, product_nil, Nat.one_mul]
  | cons n shape ih => rw [List.cons_append, product_cons, product_cons, ih, Nat.mul_assoc]

theorem product_eq_zero_iff {shape : Shape} : shape.product = 0 ↔ 0 ∈ shape := by
  induction shape with
  | nil => simp
  | cons n shape ih => rw [product_cons, Nat.mul_eq_zero, ih, List.mem_cons, eq_comm]

/-- The leading axes have more places than a 64 bit word counts. Further axes of no length come too
late to help. -/
def Overflows (shape : Shape) : Prop :=
  ∃ leading, leading <+: shape ∧ wordSize ≤ product leading

/-- Where no axis is empty, the leading ones have no more places than all. -/
theorem overflows_iff {shape : Shape} (h : 0 ∉ shape) :
    shape.Overflows ↔ wordSize ≤ shape.product := by
  constructor
  · rintro ⟨leading, ⟨rest, rfl⟩, hle⟩
    have hrest : product rest ≠ 0 :=
      fun hzero => h (List.mem_append_right _ (product_eq_zero_iff.1 hzero))
    rw [product_append]
    exact Nat.le_trans hle (Nat.le_mul_of_pos_right _ (Nat.pos_of_ne_zero hrest))
  · exact fun hle => ⟨shape, List.prefix_rfl, hle⟩

/-- Multiplying up from some number gives the product, or a first part of it that does not fit. -/
theorem foldlM_mulWord (shape : Shape) {m : Nat} (hm : m < wordSize) :
    (shape.foldlM mulWord m = .ok (m * shape.product) ∧
      ∀ leading, leading <+: shape → m * product leading < wordSize) ∨
    (shape.foldlM mulWord m = .error .overflow ∧
      ∃ leading, leading <+: shape ∧ wordSize ≤ m * product leading) := by
  induction shape generalizing m with
  | nil =>
    refine .inl ⟨by rw [List.foldlM_nil, product_nil, Nat.mul_one]; rfl, ?_⟩
    intro leading h
    rw [List.prefix_nil.1 h, product_nil, Nat.mul_one]
    exact hm
  | cons n shape ih =>
    rw [List.foldlM_cons, mulWord]
    by_cases hfits : m * n < wordSize
    · rw [if_pos hfits]
      rcases ih hfits with ⟨hok, hall⟩ | ⟨herror, leading, hprefix, hle⟩
      · refine .inl ⟨by rw [product_cons, ← Nat.mul_assoc]; exact hok, ?_⟩
        intro leading h
        rcases List.prefix_cons_iff.1 h with rfl | ⟨rest, rfl, hrest⟩
        · rw [product_nil, Nat.mul_one]
          exact hm
        · rw [product_cons, ← Nat.mul_assoc]
          exact hall rest hrest
      · refine .inr ⟨herror, n :: leading, List.cons_prefix_cons.2 ⟨rfl, hprefix⟩, ?_⟩
        rw [product_cons, ← Nat.mul_assoc]
        exact hle
    · rw [if_neg hfits]
      refine .inr ⟨rfl, [n], List.cons_prefix_cons.2 ⟨rfl, List.nil_prefix⟩, ?_⟩
      rw [product_cons, product_nil, Nat.mul_one]
      exact Nat.le_of_not_lt hfits

theorem count_cases (shape : Shape) : (shape.count = .ok shape.product ∧ ¬ shape.Overflows) ∨
    (shape.count = .error .overflow ∧ shape.Overflows) := by
  have hone : 1 < wordSize := by decide
  have h := shape.foldlM_mulWord hone
  simp only [Nat.one_mul] at h
  rcases h with ⟨hok, hall⟩ | hoverflows
  · exact .inl ⟨hok, fun ⟨leading, h, hle⟩ => Nat.not_lt.2 hle (hall leading h)⟩
  · exact .inr hoverflows

/-- A count is the product of the dimensions. -/
theorem count_eq_ok_iff {shape : Shape} {n : Nat} :
    shape.count = .ok n ↔ ¬ shape.Overflows ∧ n = shape.product := by
  rcases shape.count_cases with ⟨h, hnot⟩ | ⟨h, hover⟩
  · simp [h, hnot, eq_comm]
  · simp [h, hover]

theorem count_eq_error_iff {shape : Shape} {p : Panic} :
    shape.count = .error p ↔ shape.Overflows ∧ p = .overflow := by
  rcases shape.count_cases with ⟨h, hnot⟩ | ⟨h, hover⟩
  · simp [h, hnot]
  · simp [h, hover, eq_comm]

end Shape

/-- Elements of one type under a shape. -/
structure Tensor where
  dtype : DatumType
  shape : Shape
  data : List dtype.Element
  length_eq : data.length = shape.product

namespace Tensor

/-- The tensor of some elements, if there are as many as the shape has places. -/
def ofList? (dtype : DatumType) (shape : Shape) (data : List dtype.Element) : Option Tensor :=
  if h : data.length = shape.product then some ⟨dtype, shape, data, h⟩ else none

/-- A tensor without axes. -/
def scalar (dtype : DatumType) (x : dtype.Element) : Tensor := ⟨dtype, [], [x], rfl⟩

/-- The element that all elements are equal to, as a tensor without axes. -/
def uniform? (t : Tensor) : Option Tensor :=
  match t.data with
  | [] => none
  | x :: xs => if xs.all (t.dtype.elementAgrees x) then some (scalar t.dtype x) else none

@[simp] theorem uniform?_scalar (dtype : DatumType) (x : dtype.Element) :
    (scalar dtype x).uniform? = some (scalar dtype x) := rfl

/-- The floats of a single precision tensor. -/
def floats? : Tensor → Option (List Single)
  | ⟨.f32, _, data, _⟩ => some data
  | _ => none

/-- There is a float for each place. -/
theorem length_of_floats? {t : Tensor} {xs : List Single} (h : t.floats? = some xs) :
    xs.length = t.shape.product := by
  obtain ⟨dtype, shape, data, hdata⟩ := t
  cases dtype <;> simp [floats?] at h
  exact h ▸ hdata

end Tensor

end QuantClassifier
