import SceneScript.Json.Number
import SceneScript.Json.Reading
import SceneScript.Proofs.Binary64.Arithmetic
import SceneScript.Proofs.Decimal.Digits
import SceneScript.Proofs.Decimal.Shortest

/-!
# Numbers in JSON

A number is spelled by an optional sign, digits of which the first is no zero in front of others, an
optional fraction and an optional exponent (`JsonValue.IsNumber`). Such a spelling is read to its
end if what follows does not go on with it (`JsonValue.numberFront_append`). Whole numbers and finite
doubles are written so (`JsonValue.isNumber_digits`, `JsonValue.isNumber_text`).
-/

namespace SceneScript.JsonValue

open Decimal

/-! ## Spellings -/

/-- At least one digit, and nothing else. -/
def IsDigits (ds : List Char) : Prop := ds ≠ [] ∧ ∀ c ∈ ds, isDigit c = true

/-- Digits of which the first is no zero in front of others. -/
def IsWhole (ds : List Char) : Prop := IsDigits ds ∧ (ds.head? = some '0' → ds = ['0'])

/-- A point and digits, or nothing. -/
def IsFraction (s : List Char) : Prop := s = [] ∨ ∃ ds, IsDigits ds ∧ s = '.' :: ds

/-- The mark of an exponent with digits behind it and perhaps a minus sign before them, or
nothing. -/
def IsExponent (s : List Char) : Prop :=
  s = [] ∨ ∃ ds, IsDigits ds ∧ (s = 'e' :: ds ∨ s = 'e' :: '-' :: ds)

/-- The spelling of a number that has no sign. -/
inductive IsMagnitude : List Char → Prop
  | parts {whole fraction exponent : List Char} (hwhole : IsWhole whole)
    (hfraction : IsFraction fraction) (hexponent : IsExponent exponent) :
    IsMagnitude (whole ++ fraction ++ exponent)

/-- The spelling of a number. -/
inductive IsNumber : List Char → Prop
  | unsigned {s : List Char} (h : IsMagnitude s) : IsNumber s
  | negative {s : List Char} (h : IsMagnitude s) : IsNumber ('-' :: s)

/-- The text does not begin with something that would go on with a number. -/
def EndsNumber (s : List Char) : Prop :=
  ∀ c ∈ s.head?, isDigit c = false ∧ c ≠ '.' ∧ c ≠ 'e' ∧ c ≠ 'E'

variable {ds whole fraction exponent rest s t : List Char} {n : Nat} {x : Float}

theorem EndsNumber.head?_not_isDigit (h : EndsNumber rest) :
    ∀ c ∈ rest.head?, isDigit c = false := fun c hc => (h c hc).1

/-! ## Reading -/

theorem someDigits_append (hds : IsDigits ds) (hrest : ∀ c ∈ rest.head?, isDigit c = false) :
    someDigits (ds ++ rest) = some (ds, rest) := by
  have hstop : rest.takeWhile isDigit = [] ∧ rest.dropWhile isDigit = rest := by
    cases rest with
    | nil => exact ⟨rfl, rfl⟩
    | cons c rest =>
      have hc := hrest c rfl
      exact ⟨List.takeWhile_cons_of_neg (by simp [hc]), List.dropWhile_cons_of_neg (by simp [hc])⟩
  rw [someDigits, List.takeWhile_append_of_pos hds.2, List.dropWhile_append_of_pos hds.2, hstop.1,
    hstop.2, List.append_nil]
  simp [hds.1]

theorem wholePart_append (hds : IsWhole ds) (hrest : ∀ c ∈ rest.head?, isDigit c = false) :
    wholePart (ds ++ rest) = some (ds, rest) := by
  rw [wholePart, someDigits_append hds.1 hrest]
  refine if_neg fun h => ?_
  simp only [Bool.and_eq_true, beq_iff_eq, decide_eq_true_eq] at h
  rw [hds.2 h.1] at h
  exact absurd h.2 (by decide)

theorem fractionPart_append (hs : IsFraction s)
    (hrest : ∀ c ∈ rest.head?, isDigit c = false ∧ c ≠ '.') :
    fractionPart (s ++ rest) = some (s, rest) := by
  rcases hs with rfl | ⟨ds, hds, rfl⟩
  · rw [List.nil_append]
    unfold fractionPart
    split
    · exact absurd rfl (hrest '.' rfl).2
    · rfl
  · rw [List.cons_append, fractionPart, someDigits_append hds fun c hc => (hrest c hc).1]
    rfl

theorem exponentPart_append (hs : IsExponent s) (hrest : EndsNumber rest) :
    exponentPart (s ++ rest) = some (s, rest) := by
  rcases hs with rfl | ⟨ds, hds, rfl | rfl⟩
  · cases rest with
    | nil => rfl
    | cons c rest =>
      obtain ⟨-, -, he, hE⟩ := hrest c rfl
      simp [exponentPart, he, hE]
  · have hread := someDigits_append hds hrest.head?_not_isDigit
    obtain ⟨d, t, rfl⟩ := List.exists_cons_of_ne_nil hds.1
    have hd : isDigit d = true := hds.2 d List.mem_cons_self
    have hsign : ¬ (d = '+' ∨ d = '-') := by
      rintro (rfl | rfl) <;> exact absurd hd (by decide)
    rw [List.cons_append] at hread
    simp [exponentPart, hsign, hread]
  · have hread := someDigits_append hds hrest.head?_not_isDigit
    simp [exponentPart, hread]

theorem IsFraction.head? (hs : IsFraction s) : ∀ c ∈ s.head?, c = '.' := by
  rcases hs with rfl | ⟨ds, -, rfl⟩
  · exact nofun
  · rintro c ⟨⟩
    rfl

theorem IsExponent.head? (hs : IsExponent s) : ∀ c ∈ s.head?, c = 'e' := by
  rcases hs with rfl | ⟨ds, -, rfl | rfl⟩
  · exact nofun
  · rintro c ⟨⟩
    rfl
  · rintro c ⟨⟩
    rfl

/-- The parts of a number without a sign are read one after the other. -/
theorem numberFront_parts (hwhole : IsWhole whole) (hfraction : IsFraction fraction)
    (hexponent : IsExponent exponent) (hrest : EndsNumber rest) :
    wholePart (whole ++ fraction ++ exponent ++ rest) = some (whole, fraction ++ exponent ++ rest) ∧
      fractionPart (fraction ++ exponent ++ rest) = some (fraction, exponent ++ rest) ∧
      exponentPart (exponent ++ rest) = some (exponent, rest) := by
  have hbehind : ∀ c ∈ (exponent ++ rest).head?, isDigit c = false ∧ c ≠ '.' := by
    intro c hc
    rw [List.head?_append, Option.mem_def, Option.or_eq_some_iff] at hc
    rcases hc with hc | ⟨-, hc⟩
    · rw [hexponent.head? c hc]
      decide
    · exact ⟨(hrest c hc).1, (hrest c hc).2.1⟩
  have hpoint : ∀ c ∈ (fraction ++ exponent ++ rest).head?, isDigit c = false := by
    intro c hc
    rw [List.append_assoc, List.head?_append, Option.mem_def, Option.or_eq_some_iff] at hc
    rcases hc with hc | ⟨-, hc⟩
    · rw [hfraction.head? c hc]
      decide
    · exact (hbehind c hc).1
  refine ⟨?_, ?_, exponentPart_append hexponent hrest⟩
  · rw [List.append_assoc, List.append_assoc, ← List.append_assoc fraction]
    exact wholePart_append hwhole hpoint
  · rw [List.append_assoc]
    exact fractionPart_append hfraction hbehind

/-- A number without a sign begins with a digit. -/
theorem IsMagnitude.head (h : IsMagnitude s) : ∃ c t, s = c :: t ∧ isDigit c = true := by
  cases h with
  | parts hwhole hfraction hexponent =>
    obtain ⟨d, t, rfl⟩ := List.exists_cons_of_ne_nil hwhole.1.1
    exact ⟨d, _, rfl, hwhole.1.2 d List.mem_cons_self⟩

/-- A number begins with a digit or a minus sign. -/
theorem IsNumber.head (h : IsNumber s) : ∃ c t, s = c :: t ∧ (c = '-' ∨ isDigit c = true) := by
  cases h with
  | unsigned h =>
    obtain ⟨c, t, rfl, hc⟩ := h.head
    exact ⟨c, t, rfl, .inr hc⟩
  | negative h => exact ⟨'-', _, rfl, .inl rfl⟩

/-- A number is read to its end. -/
theorem numberFront_append (h : IsNumber s) (hrest : EndsNumber rest) :
    numberFront (s ++ rest) = some (number s, rest) := by
  cases h with
  | unsigned h =>
    obtain ⟨d, t, hcons, hd⟩ := h.head
    cases h with
    | parts hwhole hfraction hexponent =>
      obtain ⟨hw, hf, he⟩ := numberFront_parts hwhole hfraction hexponent hrest
      unfold numberFront
      split
      next sign s hsplit =>
        split at hsplit
        · next s heq =>
          rw [hcons] at heq
          rw [(List.cons.inj heq).1] at hd
          exact absurd hd (by decide)
        · cases hsplit
          simp only [hw, hf, he, Option.bind_eq_bind, Option.bind_some, List.nil_append]
          rfl
  | negative h =>
    cases h with
    | parts hwhole hfraction hexponent =>
      obtain ⟨hw, hf, he⟩ := numberFront_parts hwhole hfraction hexponent hrest
      rw [List.cons_append, numberFront]
      simp only [hw, hf, he, Option.bind_eq_bind, Option.bind_some]
      rfl

/-! ## Writing -/

theorem isDigits_digits (n : Nat) : IsDigits (digits n) :=
  ⟨digits_ne_nil n, fun _ hc => isDigit_of_mem_digits hc⟩

theorem isWhole_digits (n : Nat) : IsWhole (digits n) := by
  refine ⟨isDigits_digits n, fun hzero => ?_⟩
  cases n with
  | zero => rfl
  | succ n => exact absurd hzero (head?_digits_ne_zero (Nat.succ_ne_zero n))

/-- A whole number is a number. -/
theorem isNumber_digits (n : Nat) : IsNumber (digits n) := by
  have h := IsMagnitude.parts (isWhole_digits n) (.inl rfl) (.inl rfl)
  rw [List.append_nil, List.append_nil] at h
  exact .unsigned h

theorem IsDigits.append (hs : IsDigits s) (ht : ∀ c ∈ t, isDigit c = true) : IsDigits (s ++ t) :=
  ⟨List.append_ne_nil_of_left_ne_nil hs.1 t, fun c hc => (List.mem_append.1 hc).elim (hs.2 c) (ht c)⟩

/-- Zeros behind a number's digits put no zero in front. -/
theorem isWhole_append_zeros (hs : IsDigits s) (hhead : s.head? ≠ some '0') (n : Nat) :
    IsWhole (s ++ List.replicate n '0') := by
  refine ⟨hs.append fun c hc => isDigit_of_mem_zeros hc, fun hzero => ?_⟩
  obtain ⟨d, t, rfl⟩ := List.exists_cons_of_ne_nil hs.1
  exact absurd hzero hhead

/-- The first of some digits is a number's whole part. -/
theorem isWhole_take (hs : IsDigits s) (hhead : s.head? ≠ some '0') (hn : 0 < n) :
    IsWhole (s.take n) := by
  obtain ⟨d, t, rfl⟩ := List.exists_cons_of_ne_nil hs.1
  obtain ⟨n, rfl⟩ := Nat.exists_eq_succ_of_ne_zero (Nat.ne_of_gt hn)
  refine ⟨⟨List.cons_ne_nil _ _, fun c hc => hs.2 c (List.mem_of_mem_take hc)⟩, fun hzero => ?_⟩
  exact absurd hzero hhead

/-- An exponent is written with its sign if it is negative. -/
theorem isExponent_signed (k : Int) : IsExponent ('e' :: signed k) := by
  rw [signed]
  split
  · exact .inr ⟨_, isDigits_digits _, .inr rfl⟩
  · exact .inr ⟨_, isDigits_digits _, .inl rfl⟩

/-- One digit before the point, and the others behind it if there are others. -/
theorem exists_isFraction : ∀ s : List Char, IsDigits s → s.head? ≠ some '0' →
    ∃ whole fraction, IsWhole whole ∧ IsFraction fraction ∧ whole ++ fraction =
      match s with
      | first :: second :: rest => first :: '.' :: second :: rest
      | short => short
  | [], hs, _ => absurd rfl hs.1
  | [first], hs, hhead => ⟨[first], [], isWhole_take (n := 1) hs hhead (by decide), .inl rfl, rfl⟩
  | first :: second :: rest, hs, hhead => by
    have hbehind : IsDigits (second :: rest) :=
      ⟨by simp, fun c hc => hs.2 c (List.mem_cons_of_mem _ hc)⟩
    exact ⟨[first], _, isWhole_take (n := 1) hs hhead (by decide), .inr ⟨_, hbehind, rfl⟩, rfl⟩

/-- A positive decimal is a number without a sign. -/
theorem isMagnitude_positive {d : Decimal} (hd : d.coefficient ≠ 0) :
    IsMagnitude (numberLayout.positive d) := by
  have hs := isDigits_digits d.coefficient
  have hhead := head?_digits_ne_zero hd
  unfold Layout.positive
  dsimp only
  generalize digits d.coefficient = s at *
  split
  · split
    · -- zeros and the digits, behind the point
      have hfraction : IsDigits (List.replicate (-(s.length + d.exponent)).toNat '0' ++ s) :=
        ⟨List.append_ne_nil_of_right_ne_nil _ hs.1,
          fun c hc => (List.mem_append.1 hc).elim isDigit_of_mem_zeros (hs.2 c)⟩
      have h := IsMagnitude.parts (isWhole_digits 0) (.inr ⟨_, hfraction, rfl⟩) (.inl rfl)
      rwa [List.append_nil] at h
    · next hpoint =>
      split
      · -- a whole number
        have h := IsMagnitude.parts (isWhole_append_zeros hs hhead d.exponent.toNat)
          (.inr ⟨['0'], (isWhole_digits 0).1, rfl⟩) (.inl rfl)
        rwa [List.append_nil] at h
      · next hexponent =>
        -- the point stands between the digits
        have hbehind : IsDigits (s.drop (s.length + d.exponent).toNat) := by
          refine ⟨?_, fun c hc => hs.2 c (List.mem_of_mem_drop hc)⟩
          rw [Ne, List.drop_eq_nil_iff]
          omega
        have h := IsMagnitude.parts (isWhole_take hs hhead (n := (s.length + d.exponent).toNat)
          (by omega)) (.inr ⟨_, hbehind, rfl⟩) (.inl rfl)
        rwa [List.append_nil] at h
  · obtain ⟨whole, fraction, hwhole, hfraction, heq⟩ := exists_isFraction s hs hhead
    have h := IsMagnitude.parts hwhole hfraction (isExponent_signed (s.length + d.exponent - 1))
    rwa [heq] at h

/-- A finite double is a number. -/
theorem isNumber_text (hx : x.isFinite = true) : IsNumber (numberLayout.text x) := by
  rw [Layout.text, Binary64.isNaN_of_isFinite hx, if_neg Bool.false_ne_true, if_pos hx]
  have hmagnitude : IsMagnitude (if (Magnitude.ofBits x.toBits).significand = 0 then
      '0' :: numberLayout.wholeEnd
      else numberLayout.positive ((Magnitude.ofBits x.toBits).shortest numberLayout.tie)) := by
    split
    · exact .parts (isWhole_digits 0) (.inr ⟨['0'], (isWhole_digits 0).1, rfl⟩) (.inl rfl)
    · next hpos => exact isMagnitude_positive (Magnitude.coefficient_shortest_ne_zero hpos _)
  dsimp only
  split
  · exact .negative hmagnitude
  · exact .unsigned hmagnitude

end SceneScript.JsonValue
