import Mathlib.Data.Nat.Digits.Defs
import QuantClassifier.Proofs.Decimal.Rounding
import QuantClassifier.Proofs.Text.Cutting

/-!
# Number texts

The grammar of number texts, with the exact number that each one stands for: a sign before a word
for an infinity or for no number, or before digits with an optional point and an optional exponent.
The parts of the grammar have a reader each (`splitSign_append`, `readExponent?_eq_some_iff`,
`map_toRat_read?_eq_some_iff`), and `Decimal.parse?` accepts exactly the texts of the grammar and
gives the float nearest to the number (`parse?_eq_some_iff`).
-/

namespace QuantClassifier

/-- What a number text says, before it is rounded. -/
inductive Literal where
  | infinite (negative : Bool)
  | nan (negative : Bool)
  | number (negative : Bool) (magnitude : ℚ)

namespace Literal

open Decimal (isDigit)

/-! ## The grammar -/

/-- A text of digits alone. -/
def Digits (cs : List Char) : Prop := ∀ c ∈ cs, isDigit c = true

/-- The number that digits stand for, in base ten with the last digit the lowest. -/
def numeral (digits : List Char) : ℕ :=
  Nat.ofDigits 10 (digits.reverse.map fun c => c.toNat - '0'.toNat)

/-- A sign in front of a number; without one the number is positive. -/
inductive Sign : List Char → Bool → Prop
  | absent : Sign [] false
  | plus : Sign ['+'] false
  | minus : Sign ['-'] true

/-- Digits with an optional point; there is a digit on one side of it at least. -/
inductive Mantissa : List Char → ℚ → Prop
  | whole {digits : List Char} (hdigits : Digits digits) (hne : digits ≠ []) :
      Mantissa digits (numeral digits)
  | point {whole fraction : List Char} (hwhole : Digits whole) (hfraction : Digits fraction)
      (hne : whole ≠ [] ∨ fraction ≠ []) :
      Mantissa (whole ++ '.' :: fraction)
        (numeral whole + numeral fraction / 10 ^ fraction.length)

/-- An optional power of ten: a letter, an optional sign and at least one digit. -/
inductive Exponent : List Char → ℤ → Prop
  | absent : Exponent [] 0
  | present {letter : Char} {sign digits : List Char} {negative : Bool}
      (hletter : letter = 'e' ∨ letter = 'E') (hsign : Sign sign negative)
      (hdigits : Digits digits) (hne : digits ≠ []) :
      Exponent (letter :: (sign ++ digits))
        (if negative then -(numeral digits : ℤ) else numeral digits)

/-- A decimal without a sign. -/
inductive Magnitude : List Char → ℚ → Prop
  | intro {mantissa exponent : List Char} {m : ℚ} {e : ℤ} (hmantissa : Mantissa mantissa m)
      (hexponent : Exponent exponent e) : Magnitude (mantissa ++ exponent) (m * 10 ^ e)

/-- A text of the grammar and what it says. Words may be in any case. -/
inductive Spells : List Char → Literal → Prop
  | infinite {sign word : List Char} {negative : Bool} (hsign : Sign sign negative)
      (hword : word.map Char.toLower = "inf".toList ∨ word.map Char.toLower = "infinity".toList) :
      Spells (sign ++ word) (.infinite negative)
  | nan {sign word : List Char} {negative : Bool} (hsign : Sign sign negative)
      (hword : word.map Char.toLower = "nan".toList) : Spells (sign ++ word) (.nan negative)
  | number {sign digits : List Char} {negative : Bool} {a : ℚ} (hsign : Sign sign negative)
      (hdigits : Magnitude digits a) : Spells (sign ++ digits) (.number negative a)

/-- The float nearest to a literal. It keeps the sign, a zero too, and infinity is nearest to what
lies beyond the range. -/
inductive Nearest {fmt : Format} : Literal → Binary fmt → Prop
  | infinite {negative : Bool} : Nearest (.infinite negative) (.infinity negative)
  | nan {negative : Bool} : Nearest (.nan negative) (.nan negative)
  | number {negative : Bool} {a : ℚ} {x : Binary fmt}
      (hrounds : x.Rounds (withSign negative a)) (hsign : x.negative = negative) :
      Nearest (.number negative a) x

theorem Nearest.unique {fmt : Format} {l : Literal} {x y : Binary fmt} (hx : l.Nearest x)
    (hy : l.Nearest y) : x = y := by
  cases hx with
  | infinite =>
    cases hy
    rfl
  | nan =>
    cases hy
    rfl
  | number hrounds hsign =>
    cases hy with
    | number hrounds' hsign' => exact hrounds.unique hrounds' (hsign.trans hsign'.symm)

/-! ## Digits -/

theorem numeral_append (whole fraction : List Char) :
    numeral (whole ++ fraction) = numeral whole * 10 ^ fraction.length + numeral fraction := by
  rw [numeral, List.reverse_append, List.map_append, Nat.ofDigits_append, List.length_map,
    List.length_reverse, numeral, numeral]
  ring

theorem ofDigits_eq_numeral (cs : List Char) : Decimal.ofDigits cs = numeral cs := by
  induction cs using List.reverseRecOn with
  | nil => rfl
  | append_singleton cs c ih =>
    have hlast : numeral [c] = c.toNat - '0'.toNat := Nat.ofDigits_singleton
    rw [numeral_append, hlast, ← ih, Decimal.ofDigits, List.foldl_append]
    simp only [List.foldl_cons, List.foldl_nil, Decimal.ofDigits, List.length_singleton]
    ring

/-- The point moves the digits behind it as many places as there are. -/
theorem toRat_point (whole fraction : List Char) (e : ℤ) :
    (⟨Decimal.ofDigits (whole ++ fraction), e - fraction.length⟩ : Decimal).toRat =
      (numeral whole + numeral fraction / 10 ^ fraction.length) * 10 ^ e := by
  rw [Decimal.toRat, ofDigits_eq_numeral, numeral_append, zpow_sub₀ (by norm_num), zpow_natCast]
  push_cast
  field_simp

theorem digits_takeWhile (cs : List Char) : Digits (cs.takeWhile isDigit) := fun _ hc =>
  List.mem_takeWhile_imp hc

theorem ne_of_isDigit {c d : Char} (hc : isDigit c = true) (hd : isDigit d = false) : c ≠ d := by
  rintro rfl
  exact Bool.false_ne_true (hd.symm.trans hc)

/-! ## Signs -/

theorem exists_sign (text : List Char) :
    ∃ sign, Sign sign (Decimal.splitSign text).1 ∧ text = sign ++ (Decimal.splitSign text).2 := by
  unfold Decimal.splitSign
  split
  · exact ⟨['-'], .minus, rfl⟩
  · exact ⟨['+'], .plus, rfl⟩
  · exact ⟨[], .absent, rfl⟩

theorem splitSign_append {sign rest : List Char} {negative : Bool} (h : Sign sign negative)
    (hrest : ∀ c ∈ rest.head?, c ≠ '-' ∧ c ≠ '+') :
    Decimal.splitSign (sign ++ rest) = (negative, rest) := by
  cases h with
  | plus => rfl
  | minus => rfl
  | absent =>
    cases rest with
    | nil => rfl
    | cons c rest =>
      obtain ⟨hminus, hplus⟩ := hrest c rfl
      unfold Decimal.splitSign
      split <;> simp_all

theorem Digits.head_ne_sign {digits : List Char} (h : Digits digits) :
    ∀ c ∈ digits.head?, c ≠ '-' ∧ c ≠ '+' := fun c hc =>
  have hdigit := h c (List.mem_of_mem_head? hc)
  ⟨ne_of_isDigit hdigit (by decide), ne_of_isDigit hdigit (by decide)⟩

/-! ## Exponents -/

theorem Exponent.head {cs : List Char} {e : ℤ} (h : Exponent cs e) :
    ∀ c ∈ cs.head?, isDigit c = false ∧ c ≠ '.' := by
  cases h with
  | absent => simp
  | present hletter =>
    rintro c ⟨⟩
    rcases hletter with rfl | rfl <;> decide

theorem readExponent?_eq_some_iff {cs : List Char} {e : ℤ} :
    Decimal.readExponent? cs = some e ↔ Exponent cs e := by
  constructor
  · intro h
    cases cs with
    | nil =>
      obtain rfl := Option.some.inj h
      exact .absent
    | cons letter rest =>
      obtain ⟨sign, hsign, hrest⟩ := exists_sign rest
      simp only [Decimal.readExponent?] at h
      generalize Decimal.splitSign rest = split at h hsign hrest
      obtain ⟨negative, digits⟩ := split
      split at h
      next hletter =>
        split at h
        next => exact absurd h (by simp)
        next hdigits =>
          have hparts : digits ≠ [] ∧ Digits digits := by
            simpa [Digits] using hdigits
          obtain rfl := Option.some.inj h
          rw [hrest, ofDigits_eq_numeral]
          exact .present hletter hsign hparts.2 hparts.1
      next => exact absurd h (by simp)
  · intro h
    cases h with
    | absent => rfl
    | @present letter sign digits negative hletter hsign hdigits hne =>
      have hparts : ¬ (digits.isEmpty = true ∨ (!digits.all isDigit) = true) := by
        simpa [Digits] using And.intro hne hdigits
      simp only [Decimal.readExponent?, if_pos hletter, splitSign_append hsign hdigits.head_ne_sign,
        if_neg hparts, ofDigits_eq_numeral]

/-! ## Decimals without a sign -/

theorem read?_point {whole fraction tail : List Char} (hwhole : Digits whole)
    (hfraction : Digits fraction) (htail : ∀ c ∈ tail.head?, isDigit c = false) :
    Decimal.read? (whole ++ '.' :: (fraction ++ tail)) =
      if whole.isEmpty ∧ fraction.isEmpty then none
      else (Decimal.readExponent? tail).map fun e =>
        ⟨Decimal.ofDigits (whole ++ fraction), e - fraction.length⟩ := by
  have hpoint : ∀ c ∈ ('.' :: (fraction ++ tail)).head?, isDigit c = false := by
    rintro c ⟨⟩
    decide
  simp only [Decimal.read?, Text.takeWhile_append_eq hwhole hpoint,
    Text.dropWhile_append_eq hwhole hpoint, Text.takeWhile_append_eq hfraction htail,
    Text.dropWhile_append_eq hfraction htail]

theorem read?_whole {whole tail : List Char} (hwhole : Digits whole)
    (htail : ∀ c ∈ tail.head?, isDigit c = false ∧ c ≠ '.') :
    Decimal.read? (whole ++ tail) =
      if whole.isEmpty then none
      else (Decimal.readExponent? tail).map fun e => ⟨Decimal.ofDigits whole, e⟩ := by
  have hdigit := fun c hc => (htail c hc).1
  have hpoint : ∀ rest, tail ≠ '.' :: rest := by
    rintro rest rfl
    exact (htail '.' rfl).2 rfl
  unfold Decimal.read?
  rw [Text.takeWhile_append_eq hwhole hdigit, Text.dropWhile_append_eq hwhole hdigit]
  dsimp only
  split
  next rest => exact absurd rfl (hpoint rest)
  next => simp

/-- A text has digits in front, perhaps a point with digits, and a tail. -/
theorem exists_mantissa (cs : List Char) :
    (∃ whole fraction tail, cs = whole ++ '.' :: (fraction ++ tail) ∧ Digits whole ∧
      Digits fraction ∧ ∀ c ∈ tail.head?, isDigit c = false) ∨
    ∃ whole tail, cs = whole ++ tail ∧ Digits whole ∧
      ∀ c ∈ tail.head?, isDigit c = false ∧ c ≠ '.' := by
  have hsplit := (List.takeWhile_append_dropWhile (p := isDigit) (l := cs)).symm
  have hhead := Text.not_head_dropWhile isDigit cs
  generalize cs.dropWhile isDigit = rest at hsplit hhead
  by_cases hpoint : ∃ behind, rest = '.' :: behind
  · obtain ⟨behind, rfl⟩ := hpoint
    refine .inl ⟨_, behind.takeWhile isDigit, behind.dropWhile isDigit, ?_, digits_takeWhile cs,
      digits_takeWhile behind, Text.not_head_dropWhile isDigit behind⟩
    rwa [List.takeWhile_append_dropWhile]
  · refine .inr ⟨_, rest, hsplit, digits_takeWhile cs, fun c hc => ⟨hhead c hc, ?_⟩⟩
    rintro rfl
    obtain ⟨behind, rfl⟩ := List.head?_eq_some_iff.1 hc
    exact hpoint ⟨behind, rfl⟩

theorem map_toRat_read?_eq_some_iff {cs : List Char} {a : ℚ} :
    (Decimal.read? cs).map Decimal.toRat = some a ↔ Magnitude cs a := by
  constructor
  · intro h
    rcases exists_mantissa cs with ⟨whole, fraction, tail, rfl, hwhole, hfraction, htail⟩ |
      ⟨whole, tail, rfl, hwhole, htail⟩
    · rw [read?_point hwhole hfraction htail] at h
      split at h
      next => exact absurd h (by simp)
      next hne =>
        rw [Option.map_map, Option.map_eq_some_iff] at h
        obtain ⟨e, he, rfl⟩ := h
        have hne' : whole ≠ [] ∨ fraction ≠ [] := by
          simpa [Classical.or_iff_not_imp_left] using hne
        have hmagnitude := Magnitude.intro (.point hwhole hfraction hne')
          (readExponent?_eq_some_iff.1 he)
        rw [Function.comp_apply, toRat_point]
        rwa [List.append_assoc] at hmagnitude
    · rw [read?_whole hwhole htail] at h
      split at h
      next => exact absurd h (by simp)
      next hne =>
        rw [Option.map_map, Option.map_eq_some_iff] at h
        obtain ⟨e, he, rfl⟩ := h
        have hmagnitude := Magnitude.intro (.whole hwhole (by simpa using hne))
          (readExponent?_eq_some_iff.1 he)
        rwa [Function.comp_apply, Decimal.toRat, ofDigits_eq_numeral]
  · rintro ⟨hmantissa, hexponent⟩
    have hread := readExponent?_eq_some_iff.2 hexponent
    cases hmantissa with
    | whole hdigits hne =>
      rw [read?_whole hdigits hexponent.head, if_neg (by simpa using hne), hread, Option.map_some,
        Option.map_some, Decimal.toRat, ofDigits_eq_numeral]
    | point hwhole hfraction hne =>
      have htail := fun c hc => (hexponent.head c hc).1
      rw [List.append_assoc, List.cons_append, read?_point hwhole hfraction htail,
        if_neg (by simpa [Classical.or_iff_not_imp_left] using hne), hread, Option.map_some,
        Option.map_some, toRat_point]

theorem Magnitude.head {cs : List Char} {a : ℚ} (h : Magnitude cs a) :
    ∃ c ∈ cs.head?, isDigit c = true ∨ c = '.' := by
  obtain ⟨hmantissa, -⟩ := h
  cases hmantissa with
  | whole hdigits hne =>
    obtain ⟨c, digits, rfl⟩ := List.exists_cons_of_ne_nil hne
    exact ⟨c, rfl, .inl (hdigits c List.mem_cons_self)⟩
  | @point whole fraction hwhole =>
    cases whole with
    | nil => exact ⟨'.', rfl, .inr rfl⟩
    | cons c digits => exact ⟨c, rfl, .inl (hwhole c List.mem_cons_self)⟩

/-! ## Number texts -/

theorem toLower_of_isDigit {c : Char} (h : isDigit c = true) : c.toLower = c := by
  have hle : c.val ≤ '9'.val := by
    simp only [isDigit, Bool.and_eq_true, decide_eq_true_eq] at h
    exact h.2
  have hlt : c.val < 'A'.val := UInt32.lt_of_le_of_lt hle (by decide)
  exact dif_neg fun hupper => absurd hupper.1 (UInt32.not_le.2 hlt)

/-- A decimal is no word. -/
theorem Magnitude.map_toLower_ne {cs word : List Char} {a : ℚ} {letter : Char}
    (h : Magnitude cs a) (hletter : isDigit letter = false) (hpoint : letter ≠ '.') :
    cs.map Char.toLower ≠ letter :: word := by
  obtain ⟨c, hc, hstart⟩ := h.head
  obtain ⟨rest, rfl⟩ := List.head?_eq_some_iff.1 hc
  intro heq
  have hlower : c.toLower = letter := (List.cons.inj heq).1
  rcases hstart with hdigit | rfl
  · rw [toLower_of_isDigit hdigit] at hlower
    exact ne_of_isDigit hdigit hletter hlower
  · exact hpoint (hlower.symm.trans (by decide))

theorem Magnitude.head_ne_sign {cs : List Char} {a : ℚ} (h : Magnitude cs a) :
    ∀ c ∈ cs.head?, c ≠ '-' ∧ c ≠ '+' := by
  obtain ⟨c, hc, hstart⟩ := h.head
  rw [hc]
  rintro _ ⟨⟩
  rcases hstart with hdigit | rfl
  · exact ⟨ne_of_isDigit hdigit (by decide), ne_of_isDigit hdigit (by decide)⟩
  · decide

theorem head_ne_sign_of_map_toLower {cs word : List Char} {letter : Char}
    (h : cs.map Char.toLower = letter :: word) (hminus : letter ≠ '-') (hplus : letter ≠ '+') :
    ∀ c ∈ cs.head?, c ≠ '-' ∧ c ≠ '+' := by
  intro c hc
  obtain ⟨rest, rfl⟩ := List.head?_eq_some_iff.1 hc
  have hlower : c.toLower = letter := (List.cons.inj h).1
  constructor
  · rintro rfl
    exact hminus (hlower.symm.trans (by decide))
  · rintro rfl
    exact hplus (hlower.symm.trans (by decide))

section Parsing

variable {fmt : Format} {text sign rest : List Char} {negative : Bool}

theorem parse?_infinite (hsign : Sign sign negative) (hword : rest.map Char.toLower = "inf".toList ∨
    rest.map Char.toLower = "infinity".toList) :
    Decimal.parse? fmt (sign ++ rest) = some (.infinity negative) := by
  have hhead : ∀ c ∈ rest.head?, c ≠ '-' ∧ c ≠ '+' := by
    rcases hword with hword | hword <;>
      exact head_ne_sign_of_map_toLower hword (by decide) (by decide)
  rw [Decimal.parse?, splitSign_append hsign hhead]
  exact if_pos hword

theorem parse?_nan (hsign : Sign sign negative) (hword : rest.map Char.toLower = "nan".toList) :
    Decimal.parse? fmt (sign ++ rest) = some (.nan negative) := by
  have hhead := head_ne_sign_of_map_toLower hword (by decide) (by decide)
  rw [Decimal.parse?, splitSign_append hsign hhead]
  dsimp only
  rw [hword, if_neg (by decide), if_pos rfl]

theorem parse?_number {a : ℚ} (hfmt : fmt.fractionBits ≤ 2 ^ fmt.exponentBits)
    (hsign : Sign sign negative) (h : Magnitude rest a) :
    ∃ x : Binary fmt, Decimal.parse? fmt (sign ++ rest) = some x ∧
      (Literal.number negative a).Nearest x := by
  obtain ⟨d, hread, rfl⟩ := Option.map_eq_some_iff.1 (map_toRat_read?_eq_some_iff.2 h)
  refine ⟨Decimal.toBinary fmt negative d, ?_,
    .number (Decimal.rounds_toBinary hfmt negative d) (Decimal.negative_toBinary hfmt negative d)⟩
  have hi : ∀ word, rest.map Char.toLower ≠ 'i' :: word := fun _ =>
    h.map_toLower_ne (by decide) (by decide)
  have hinf : ¬ (rest.map Char.toLower = "inf".toList ∨
      rest.map Char.toLower = "infinity".toList) := not_or.2 ⟨hi _, hi _⟩
  have hnan : rest.map Char.toLower ≠ "nan".toList := h.map_toLower_ne (by decide) (by decide)
  rw [Decimal.parse?, splitSign_append hsign h.head_ne_sign]
  dsimp only
  rw [if_neg hinf, if_neg hnan, hread, Option.map_some]

/-- The reader accepts the texts of the grammar and no others, and rounds what they say. -/
theorem parse?_eq_some_iff (hfmt : fmt.fractionBits ≤ 2 ^ fmt.exponentBits) {x : Binary fmt} :
    Decimal.parse? fmt text = some x ↔ ∃ l, Spells text l ∧ l.Nearest x := by
  constructor
  · intro h
    obtain ⟨sign, hsign, htext⟩ := exists_sign text
    rw [Decimal.parse?] at h
    generalize Decimal.splitSign text = split at h hsign htext
    obtain ⟨negative, rest⟩ := split
    dsimp only at h hsign htext
    rw [htext]
    split_ifs at h with hinf hnan
    · obtain rfl := Option.some.inj h
      exact ⟨_, .infinite hsign hinf, .infinite⟩
    · obtain rfl := Option.some.inj h
      exact ⟨_, .nan hsign hnan, .nan⟩
    · obtain ⟨d, hread, rfl⟩ := Option.map_eq_some_iff.1 h
      have hmagnitude : Magnitude rest d.toRat :=
        map_toRat_read?_eq_some_iff.1 (Option.map_eq_some_iff.2 ⟨d, hread, rfl⟩)
      exact ⟨_, .number hsign hmagnitude, .number (Decimal.rounds_toBinary hfmt negative d)
        (Decimal.negative_toBinary hfmt negative d)⟩
  · rintro ⟨l, hspells, hnearest⟩
    cases hspells with
    | infinite hsign hword =>
      rw [hnearest.unique .infinite]
      exact parse?_infinite hsign hword
    | nan hsign hword =>
      rw [hnearest.unique .nan]
      exact parse?_nan hsign hword
    | number hsign hmagnitude =>
      obtain ⟨y, hy, hnearest'⟩ := parse?_number hfmt hsign hmagnitude
      rw [hnearest.unique hnearest']
      exact hy

/-- Nothing is left of a number this small but its sign. -/
example : Decimal.parse? .single "-1e-50".toList = some (.zero true) := by decide

/-- A text of the grammar always has a float. -/
theorem exists_parse?_iff (hfmt : fmt.fractionBits ≤ 2 ^ fmt.exponentBits) :
    (∃ x : Binary fmt, Decimal.parse? fmt text = some x) ↔ ∃ l, Spells text l := by
  constructor
  · rintro ⟨x, hx⟩
    obtain ⟨l, hspells, -⟩ := (parse?_eq_some_iff hfmt).1 hx
    exact ⟨l, hspells⟩
  · rintro ⟨l, hspells⟩
    cases hspells with
    | infinite hsign hword => exact ⟨_, parse?_infinite hsign hword⟩
    | nan hsign hword => exact ⟨_, parse?_nan hsign hword⟩
    | number hsign hmagnitude =>
      obtain ⟨x, hx, -⟩ := parse?_number hfmt hsign hmagnitude
      exact ⟨x, hx⟩

end Parsing

end Literal

end QuantClassifier
