/-!
# Steps that may fail

When a sequence of steps succeeds, each of its steps did; when it does not, its first step that does
not succeed tells why.
-/

namespace QuantClassifier

/-- Why a computation is broken off. -/
inductive Panic where
  /-- A product does not fit in a word. -/
  | overflow
  /-- A buffer does not have the place that is read. -/
  | outOfBounds
  deriving DecidableEq, Repr

variable {ε ε' α β : Type}

theorem bind_eq_ok_iff {x : Except ε α} {f : α → Except ε β} {b : β} :
    (x >>= f) = .ok b ↔ ∃ a, x = .ok a ∧ f a = .ok b := by
  cases x <;> simp [bind, Except.bind]

theorem pure_eq_ok_iff {a b : α} : (pure a : Except ε α) = .ok b ↔ a = b := by
  simp [pure, Except.pure]

theorem toOption_eq_some_iff {x : Except ε α} {a : α} : x.toOption = some a ↔ x = .ok a := by
  cases x <;> simp [Except.toOption]

theorem mapError_ok (f : ε → ε') (a : α) : (Except.ok a).mapError f = .ok a := rfl

theorem mapError_eq_ok_iff {x : Except ε α} {f : ε → ε'} {a : α} :
    x.mapError f = .ok a ↔ x = .ok a := by
  cases x with
  | error e => constructor <;> intro h <;> cases h
  | ok b =>
    rw [mapError_ok]
    simp

/-! ## One step for each element of a list -/

section Traversal

variable {f : α → Except ε β} {xs : List α} {ys : List β} {e : ε}

theorem mapM_eq_ok_iff : xs.mapM f = .ok ys ↔ xs.map f = ys.map .ok := by
  induction xs generalizing ys with
  | nil => cases ys <;> simp [pure_eq_ok_iff]
  | cons x xs ih =>
    simp only [List.mapM_cons, bind_eq_ok_iff, pure_eq_ok_iff, ih]
    cases ys with
    | nil => simp
    | cons y ys =>
      rw [List.map_cons, List.map_cons, List.cons.injEq]
      constructor
      · rintro ⟨y', hy, ys', hys, heq⟩
        cases heq
        exact ⟨hy, hys⟩
      · rintro ⟨hy, hys⟩
        exact ⟨y, hy, ys, hys, rfl⟩

theorem length_of_mapM (h : xs.mapM f = .ok ys) : ys.length = xs.length := by
  have hlength := congrArg List.length (mapM_eq_ok_iff.1 h)
  rw [List.length_map, List.length_map] at hlength
  exact hlength.symm

theorem mapM_isOk_iff : (∃ ys, xs.mapM f = .ok ys) ↔ ∀ x ∈ xs, ∃ y, f x = .ok y := by
  induction xs with
  | nil => simp [pure_eq_ok_iff]
  | cons x xs ih =>
    rw [List.forall_mem_cons, ← ih]
    simp only [List.mapM_cons, bind_eq_ok_iff, pure_eq_ok_iff]
    constructor
    · rintro ⟨_, y, hy, ys, hys, rfl⟩
      exact ⟨⟨y, hy⟩, ys, hys⟩
    · rintro ⟨⟨y, hy⟩, ys, hys⟩
      exact ⟨y :: ys, y, hy, ys, hys, rfl⟩

theorem mapM_cons_eq_error_iff {x : α} : (x :: xs).mapM f = .error e ↔
    f x = .error e ∨ (∃ y, f x = .ok y) ∧ xs.mapM f = .error e := by
  rw [List.mapM_cons]
  cases f x with
  | error e' => simp [bind, Except.bind]
  | ok y => cases xs.mapM f <;> simp [bind, Except.bind, pure, Except.pure]

/-- The first step that fails gives the failure. -/
theorem mapM_eq_error_iff : xs.mapM f = .error e ↔ ∃ before bad after,
    xs = before ++ bad :: after ∧ (∀ x ∈ before, ∃ y, f x = .ok y) ∧ f bad = .error e := by
  induction xs with
  | nil => simp [pure, Except.pure]
  | cons x xs ih =>
    rw [mapM_cons_eq_error_iff]
    constructor
    · rintro (hx | ⟨hy, hxs⟩)
      · exact ⟨[], x, xs, rfl, List.forall_mem_nil _, hx⟩
      · obtain ⟨before, bad, after, rfl, hbefore, hbad⟩ := ih.1 hxs
        exact ⟨x :: before, bad, after, rfl, List.forall_mem_cons.2 ⟨hy, hbefore⟩, hbad⟩
    · rintro ⟨before, bad, after, hsplit, hbefore, hbad⟩
      cases before with
      | nil =>
        obtain ⟨rfl, rfl⟩ := List.cons.inj hsplit
        exact .inl hbad
      | cons y before =>
        obtain ⟨rfl, rfl⟩ := List.cons.inj hsplit
        obtain ⟨hy, hbefore⟩ := List.forall_mem_cons.1 hbefore
        exact .inr ⟨hy, ih.2 ⟨before, bad, after, rfl, hbefore, hbad⟩⟩

end Traversal

end QuantClassifier
