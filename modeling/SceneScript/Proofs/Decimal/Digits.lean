import SceneScript.Decimal.Layout
import SceneScript.Decimal.Reading

/-!
# Digits of whole numbers

A whole number is written with digits and nothing else (`toNat_of_mem_digits`), no zero in front
(`head?_digits_ne_zero`), and its digits have its value (`natOfDigits_digits`).
-/

namespace SceneScript.Decimal

variable {n : Nat} {c : Char}

/-- Whole numbers are written with the characters from `0` to `9`. -/
theorem toNat_of_mem_digits (h : c ∈ digits n) : 48 ≤ c.toNat ∧ c.toNat ≤ 57 := by
  have hd : c.isDigit = true := Nat.isDigit_of_mem_toDigits (by decide) (by decide) h
  simpa [Char.isDigit, UInt32.le_iff_toNat_le] using hd

/-- The characters that whole numbers are written with are digits. -/
theorem isDigit_of_mem_digits (h : c ∈ digits n) : isDigit c = true := by
  obtain ⟨hlow, hhigh⟩ := toNat_of_mem_digits h
  rw [isDigit, Bool.and_eq_true, decide_eq_true_eq, decide_eq_true_eq]
  exact ⟨hlow, hhigh⟩

/-- There is a digit at least. -/
theorem digits_ne_nil (n : Nat) : digits n ≠ [] := Nat.toDigits_ne_nil

/-- No zero stands in front of the digits of a number other than zero. -/
theorem head?_digits_ne_zero (hn : n ≠ 0) : (digits n).head? ≠ some '0' := by
  induction n using Nat.strongRecOn with
  | ind n ih =>
    rw [digits, Nat.toDigits_eq_if (by decide)]
    split
    · simpa using hn
    · next hge =>
      have hrest := ih (n / 10) (by omega) (by omega)
      obtain ⟨d, ds, hcons⟩ := List.exists_cons_of_ne_nil (digits_ne_nil (n / 10))
      rw [hcons] at hrest
      rw [digits] at hcons
      rw [hcons]
      exact hrest

/-- The digits of a whole number have its value. -/
theorem natOfDigits_digits (n : Nat) : natOfDigits (digits n) = n :=
  Nat.ofDigitChars_toDigits (by decide) (by decide)

/-- Zeros are digits. -/
theorem isDigit_of_mem_zeros (h : c ∈ List.replicate n '0') : isDigit c = true := by
  rw [List.eq_of_mem_replicate h]
  decide

end SceneScript.Decimal
