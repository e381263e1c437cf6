import SceneScript.Proofs.Binary64.Truncation
import SceneScript.Proofs.Decimal.Digits
import SceneScript.Proofs.Decimal.Intervals

/-!
# Numbers in plain layout

In plain layout a positive decimal is digits, perhaps with a point among them (`IsPlain`), and such
a text has one value (`IsPlain.value_unique`). The text of a finite double has a value that the
double covers, with a sign in front where the sign bit is set, and the text of any other double is a
word (`exists_magnitudeText`). So the text of a double tells which one it is (`text_injective`).
-/

namespace SceneScript.Decimal

open Binary64

variable {s : List Char} {q r : ℚ} {x y : Float}

/-! ## Zeros -/

section Zeros

variable {ds : List Char} {n : Nat}

/-- Zeros behind digits are worth a power of ten. -/
theorem natOfDigits_append_zeros :
    natOfDigits (ds ++ List.replicate n '0') = 10 ^ n * natOfDigits ds :=
  (Nat.ofDigitChars_append 0).trans Nat.ofDigitChars_replicate_zero

/-- Zeros in front of digits are worth nothing. -/
theorem natOfDigits_zeros_append : natOfDigits (List.replicate n '0' ++ ds) = natOfDigits ds := by
  have hzero : natOfDigits (List.replicate n '0') = 0 := Nat.ofDigitChars_replicate_zero
  calc natOfDigits (List.replicate n '0' ++ ds)
      = Nat.ofDigitChars 10 ds (natOfDigits (List.replicate n '0')) := Nat.ofDigitChars_append 0
    _ = natOfDigits ds := by rw [hzero]; rfl

end Zeros

/-! ## Spellings -/

/-- The plain spelling of a number that is not negative: digits, or digits on both sides of a
point. -/
inductive IsPlain : List Char → ℚ → Prop
  | whole {ds : List Char} (hne : ds ≠ []) (hds : ∀ c ∈ ds, isDigit c = true) :
    IsPlain ds (natOfDigits ds)
  | point {ds fraction : List Char} (hne : ds ≠ []) (hds : ∀ c ∈ ds, isDigit c = true) :
    (∀ c ∈ fraction, isDigit c = true) →
      IsPlain (ds ++ '.' :: fraction) (natOfDigits (ds ++ fraction) / 10 ^ fraction.length)

/-- The value of a plain spelling, from its digits before and behind the point. -/
def plainValue (s : List Char) : ℚ :=
  let fraction := (s.dropWhile isDigit).tail
  natOfDigits (s.takeWhile isDigit ++ fraction) / 10 ^ fraction.length

theorem IsPlain.plainValue_eq (h : IsPlain s q) : plainValue s = q := by
  cases h with
  | whole _ hds =>
    rw [plainValue, ← List.append_nil s, List.takeWhile_append_of_pos hds,
      List.dropWhile_append_of_pos hds]
    simp
  | @point ds fraction _ hds =>
    have hpoint : isDigit '.' = false := by decide
    rw [plainValue, List.takeWhile_append_of_pos hds, List.dropWhile_append_of_pos hds,
      List.takeWhile_cons_of_neg (by simp [hpoint]), List.dropWhile_cons_of_neg (by simp [hpoint])]
    simp

/-- A plain spelling has one value. -/
theorem IsPlain.value_unique (h : IsPlain s q) (h' : IsPlain s r) : q = r :=
  h.plainValue_eq.symm.trans h'.plainValue_eq

theorem IsPlain.isDigit_or_eq_point (h : IsPlain s q) : ∀ c ∈ s, isDigit c = true ∨ c = '.' := by
  cases h with
  | whole _ hds => exact fun c hc => .inl (hds c hc)
  | point _ hds hfraction =>
    refine List.forall_mem_append.2 ⟨fun c hc => .inl (hds c hc), ?_⟩
    exact List.forall_mem_cons.2 ⟨.inr rfl, fun c hc => .inl (hfraction c hc)⟩

/-- A plain spelling begins with a digit. -/
theorem IsPlain.exists_cons (h : IsPlain s q) : ∃ c t, s = c :: t ∧ isDigit c = true := by
  cases h with
  | whole hne hds | point hne hds _ =>
    obtain ⟨c, t, rfl⟩ := List.exists_cons_of_ne_nil hne
    exact ⟨c, _, rfl, hds c List.mem_cons_self⟩

/-- A positive decimal is written in one of three ways, by where its point stands. -/
theorem plain_positive (d : Decimal) :
    Layout.plain.positive d =
      let ds := digits d.coefficient
      let point : Int := ds.length + d.exponent
      if point ≤ 0 then ['0'] ++ '.' :: (List.replicate (-point).toNat '0' ++ ds)
      else if 0 ≤ d.exponent then ds ++ List.replicate d.exponent.toNat '0'
      else ds.take point.toNat ++ '.' :: ds.drop point.toNat := by
  dsimp only [Layout.positive, Layout.plain]
  rw [if_pos rfl, List.append_nil]
  rfl

/-- A positive decimal is written plainly, and as what it stands for. -/
theorem isPlain_positive (d : Decimal) : IsPlain (Layout.plain.positive d) d.value := by
  have hdigits : ∀ c ∈ digits d.coefficient, isDigit c = true :=
    fun c hc => isDigit_of_mem_digits hc
  have hne := digits_ne_nil d.coefficient
  have hcoefficient := natOfDigits_digits d.coefficient
  rw [plain_positive]
  dsimp only
  generalize digits d.coefficient = ds at *
  have hvalue {k : Nat} (hk : d.exponent = -(k : Int)) :
      (natOfDigits ds / 10 ^ k : ℚ) = d.value := by
    rw [value, hcoefficient, hk, zpow_neg, zpow_natCast, div_eq_mul_inv]
  split
  · -- zeros and the digits, behind the point
    generalize hk : (-(ds.length + d.exponent)).toNat = k
    have hzero : ∀ c ∈ ['0'], isDigit c = true := List.forall_mem_singleton.2 (by decide)
    have hplain := IsPlain.point (List.cons_ne_nil _ _) hzero
      (List.forall_mem_append.2 ⟨fun c hc => isDigit_of_mem_zeros (n := k) hc, hdigits⟩)
    have hzeros : natOfDigits (['0'] ++ (List.replicate k '0' ++ ds)) = natOfDigits ds :=
      (natOfDigits_zeros_append (n := 1)).trans natOfDigits_zeros_append
    rwa [hzeros, hvalue (by rw [List.length_append, List.length_replicate]; omega)] at hplain
  · split
    · next hexponent =>
      obtain ⟨k, hk⟩ := Int.eq_ofNat_of_zero_le hexponent
      have hplain := IsPlain.whole (List.append_ne_nil_of_left_ne_nil hne _)
        (List.forall_mem_append.2 ⟨hdigits, fun c hc => isDigit_of_mem_zeros (n := k) hc⟩)
      have hwhole : (natOfDigits (ds ++ List.replicate k '0') : ℚ) = d.value := by
        rw [natOfDigits_append_zeros, value, hcoefficient, hk, zpow_natCast]
        push_cast
        ring
      rwa [hwhole, ← Int.toNat_natCast k, ← hk] at hplain
    · -- the point stands between the digits
      generalize hk : (ds.length + d.exponent).toNat = k
      have hfront : ds.take k ≠ [] := by
        rw [Ne, List.take_eq_nil_iff, not_or]
        exact ⟨by omega, hne⟩
      have hplain := IsPlain.point hfront (fun c hc => hdigits c (List.mem_of_mem_take hc))
        (fun c hc => hdigits c (List.mem_of_mem_drop (i := k) hc))
      rwa [List.take_append_drop, hvalue (by rw [List.length_drop]; omega)] at hplain

/-! ## Doubles -/

/-- The text of a double without its sign: a number that the double covers, or a word. -/
inductive MagnitudeText (x : Float) : List Char → Prop
  | finite {s : List Char} {q : ℚ} (hx : x.isFinite = true) (hs : IsPlain s q)
    (hq : (Magnitude.ofBits x.toBits).Covers q) : MagnitudeText x s
  | infinite (sign : Float.Model.UnpackedFloat.Sign) (hx : x.toModel.unpack = .infinity sign) :
    MagnitudeText x ['i', 'n', 'f']

/-- A double that is a number is written as its magnitude, behind a sign if its sign bit is set. -/
theorem exists_magnitudeText (hx : x.isNaN = false) :
    ∃ s, MagnitudeText x s ∧ Layout.plain.text x = if signBit x then '-' :: s else s := by
  rw [Layout.text, if_neg (Bool.eq_false_iff.1 hx)]
  refine ⟨_, ?_, rfl⟩
  split
  · next hfinite =>
    dsimp only
    split
    · next hzero =>
      have hvalue : (Magnitude.ofBits x.toBits).value = natOfDigits ['0'] := by
        rw [Magnitude.value, hzero, Nat.cast_zero, zero_mul]
        rfl
      refine .finite hfinite (.whole (List.cons_ne_nil _ _) ?_) (hvalue ▸ Magnitude.covers_value _)
      exact List.forall_mem_singleton.2 (by decide)
    · exact .finite hfinite (isPlain_positive _) (Magnitude.covers_shortest _ _)
  · next hinfinite =>
    obtain ⟨sign, hsign⟩ := (isFinite_or_infinity hx).resolve_left hinfinite
    exact .infinite sign hsign

/-- The text of a magnitude begins with a digit or a letter. -/
theorem MagnitudeText.exists_cons (h : MagnitudeText x s) :
    ∃ c t, s = c :: t ∧ (isDigit c = true ∨ c = 'i') := by
  cases h with
  | finite _ hs _ =>
    obtain ⟨c, t, rfl, hc⟩ := hs.exists_cons
    exact ⟨c, t, rfl, .inl hc⟩
  | infinite => exact ⟨_, _, rfl, .inr rfl⟩

/-- Doubles with one sign and one text of their magnitudes are the same. -/
theorem MagnitudeText.unique (hx : MagnitudeText x s) (hy : MagnitudeText y s)
    (hsign : signBit x = signBit y) : x = y := by
  have word_not_plain {q : ℚ} : ¬ IsPlain ['i', 'n', 'f'] q := fun h => by
    obtain ⟨c, t, hcons, hc⟩ := h.exists_cons
    cases hcons
    exact absurd hc (by decide)
  cases hx with
  | finite hfx hsx hqx =>
    cases hy with
    | infinite => exact absurd hsx word_not_plain
    | finite hfy hsy hqy =>
      rw [hsx.value_unique hsy] at hqx
      exact Magnitude.eq_of_ofBits_toBits hsign (Magnitude.eq_of_covers
        (Magnitude.isDouble_ofBits (exponent_lt_of_isFinite hfx))
        (Magnitude.isDouble_ofBits (exponent_lt_of_isFinite hfy)) hqx hqy)
  | infinite sx hix =>
    cases hy with
    | finite _ hsy _ => exact absurd hsy word_not_plain
    | infinite sy hiy =>
      have habs {z : Float} {sz : Float.Model.UnpackedFloat.Sign}
          (hz : z.toModel.unpack = .infinity sz) : |Binary64.value z| = overflow := by
        rw [value_of_infinity hz, abs_signed _ overflow_pos.le]
      have hvalue : Binary64.value x = Binary64.value y := by
        rw [value_eq_of_signBit x, value_eq_of_signBit y, hsign, habs hix, habs hiy]
      refine (eq_or_value_eq_zero (isNaN_of_infinity hix) (isNaN_of_infinity hiy)
        hvalue).resolve_right fun hzero => ?_
      rw [← abs_eq_zero, habs hix] at hzero
      exact overflow_pos.ne' hzero

theorem text_ne_nil (x : Float) : Layout.plain.text x ≠ [] := by
  cases hx : x.isNaN with
  | true =>
    rw [Layout.text, if_pos hx]
    exact List.cons_ne_nil _ _
  | false =>
    obtain ⟨s, hs, htext⟩ := exists_magnitudeText hx
    obtain ⟨c, t, rfl, -⟩ := hs.exists_cons
    rw [htext]
    split <;> exact List.cons_ne_nil _ _

/-- Doubles are written with digits, a point, a sign and the letters of two words. -/
theorem isDigit_or_mem_of_mem_text (x : Float) : ∀ c ∈ Layout.plain.text x,
    isDigit c = true ∨ c ∈ ['-', '.', 'N', 'a', 'i', 'n', 'f'] := by
  have word {w : List Char} (h : ∀ c ∈ w, c ∈ ['-', '.', 'N', 'a', 'i', 'n', 'f']) :
      ∀ c ∈ w, isDigit c = true ∨ c ∈ ['-', '.', 'N', 'a', 'i', 'n', 'f'] :=
    fun c hc => .inr (h c hc)
  cases hx : x.isNaN with
  | true =>
    rw [Layout.text, if_pos hx]
    exact word (by simp)
  | false =>
    obtain ⟨s, hs, htext⟩ := exists_magnitudeText hx
    have hmagnitude : ∀ c ∈ s, isDigit c = true ∨ c ∈ ['-', '.', 'N', 'a', 'i', 'n', 'f'] := by
      cases hs with
      | finite _ hs _ =>
        exact fun c hc => (hs.isDigit_or_eq_point c hc).imp_right (by rintro rfl; decide)
      | infinite => exact word (by simp)
    rw [htext]
    split
    · exact List.forall_mem_cons.2 ⟨.inr (by decide), hmagnitude⟩
    · exact hmagnitude

/-- The text of a number is not that of what is none. -/
theorem text_ne_of_isNaN (hx : x.isNaN = true) (hy : y.isNaN = false) :
    Layout.plain.text x ≠ Layout.plain.text y := by
  obtain ⟨s, hs, htext⟩ := exists_magnitudeText hy
  obtain ⟨c, t, rfl, hc⟩ := hs.exists_cons
  rw [htext, Layout.text, if_pos hx]
  split
  · exact fun h => absurd (List.cons.inj h).1 (by decide)
  · intro h
    rw [← (List.cons.inj h).1] at hc
    exact absurd hc (by decide)

/-- Different doubles have different texts. -/
theorem text_injective : Function.Injective Layout.plain.text := by
  intro x y h
  cases hx : x.isNaN <;> cases hy : y.isNaN
  · obtain ⟨s, hs, hsx⟩ := exists_magnitudeText hx
    obtain ⟨t, ht, hty⟩ := exists_magnitudeText hy
    -- a magnitude begins with no sign
    have unsigned {z : Float} {w w' : List Char} (hw : MagnitudeText z w) : '-' :: w' ≠ w := by
      obtain ⟨c, t, rfl, hc⟩ := hw.exists_cons
      rintro ⟨⟩
      exact absurd hc (by decide)
    rw [hsx, hty] at h
    cases hsignx : signBit x <;> cases hsigny : signBit y <;>
      simp only [hsignx, hsigny, if_true, Bool.false_eq_true, if_false] at h
    · exact hs.unique (h ▸ ht) (hsignx.trans hsigny.symm)
    · exact absurd h.symm (unsigned hs)
    · exact absurd h (unsigned ht)
    · exact hs.unique ((List.cons.inj h).2 ▸ ht) (hsignx.trans hsigny.symm)
  · exact absurd h.symm (text_ne_of_isNaN hy hx)
  · exact absurd h (text_ne_of_isNaN hx hy)
  · rw [Float.isNaN_eq_decide_eq_nan, decide_eq_true_eq] at hx hy
    rw [hx, hy]

end SceneScript.Decimal
