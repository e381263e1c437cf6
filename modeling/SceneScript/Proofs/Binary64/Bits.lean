import Mathlib
import SceneScript.Binary64

/-!
# The bits of doubles

A double keeps the bits that it is made of, unless these are of something that is not a number: all
bits of the exponent are ones and some bit of the fraction is too (`isNaNBits_iff`). All such bits
make the same double, so theirs are forgotten (`toBits_ofBits_cases`). The rank of a double is that
of its bits, so different doubles have different ranks (`rank_injective`).

This module alone imports Mathlib as a whole: that unpacked doubles are packed into their bits again
(`Float.Model.UnpackedFloat.pack_unpack`) is in reach by no smaller part of it.
-/

namespace SceneScript.Binary64

open Float.Model.Format (binary64)
open Float.Model.UnpackedFloat

theorem toNat_unpackExponent (b : BitVec 64) :
    (@unpackExponent binary64 b).toNat = b.toNat / 2 ^ 52 % 2 ^ 11 := by
  rw [unpackExponent_def, BitVec.extractLsb'_toNat, Nat.shiftRight_eq_div_pow]

/-- Bits are not those of a number when their exponent is all ones and their fraction is not
zero. -/
theorem isNaNBits_iff (b : BitVec 64) :
    @isNaNBits binary64 b ↔ 0x7ff0000000000000 < b.toNat % 2 ^ 63 := by
  have hm : (@unpackMantissa binary64 b).toNat = b.toNat % 2 ^ 52 := by
    rw [unpackMantissa_def, BitVec.extractLsb'_toNat, Nat.shiftRight_zero]
  rw [isNaNBits, decide_eq_true_iff, ne_eq, ← BitVec.toNat_inj, ← BitVec.toNat_inj, hm,
    toNat_unpackExponent]
  change b.toNat / 2 ^ 52 % 2 ^ 11 = 2047 ∧ ¬ b.toNat % 2 ^ 52 = 0 ↔ _
  omega

/-- The bits of the exponent of a finite double are not all ones. -/
theorem exponent_lt_of_isFinite {x : Float} (h : x.isFinite = true) :
    x.toBits.toNat / 2 ^ 52 % 2 ^ 11 < 2047 := by
  by_contra hge
  have hexponent : @unpackExponent binary64 x.toBits.toBitVec = -1#11 := by
    rw [← BitVec.toNat_inj, toNat_unpackExponent]
    change x.toBits.toNat / 2 ^ 52 % 2 ^ 11 = 2047
    omega
  change (unpack binary64 x.toBits.toBitVec).isFinite = true at h
  rw [unpack] at h
  dsimp only at h
  rw [if_pos hexponent] at h
  split at h <;> cases h

/-- A double has the bits that it is made of, or neither these nor its own are those of a number. -/
theorem toBits_ofBits_cases (w : UInt64) :
    (Float.ofBits w).toBits = w ∨
      0x7ff0000000000000 < w.toNat % 2 ^ 63 ∧ (Float.ofBits w).toBits = 0x7ff8000000000000 := by
  have hp := @pack_unpack binary64 w.toBitVec (by decide)
  split at hp
  · next hnan => exact .inr ⟨(isNaNBits_iff _).1 hnan, UInt64.toBitVec_inj.1 hp⟩
  · exact .inl (UInt64.toBitVec_inj.1 hp)

/-- The sign bit is the highest one. -/
theorem signBit_iff_le (x : Float) : signBit x = true ↔ 2 ^ 63 ≤ x.toBits.toNat := by
  have hlt := x.toBits.toNat_lt
  rw [signBit, beq_iff_eq, ← UInt64.toNat_inj, UInt64.toNat_shiftRight, Nat.shiftRight_eq_div_pow]
  change x.toBits.toNat / 2 ^ 63 = 1 ↔ _
  omega

/-- The rank of a double tells its bits. -/
theorem rank_eq (x : Float) :
    rank x = if x.toBits.toNat < 2 ^ 63 then (x.toBits.toNat : Int)
      else 2 ^ 63 - 1 - (x.toBits.toNat : Int) := by
  have hlt := x.toBits.toNat_lt
  have hmagnitude : (x.toBits &&& 0x7fffffffffffffff).toNat = x.toBits.toNat % 2 ^ 63 := by
    rw [UInt64.toNat_and]
    exact Nat.and_two_pow_sub_one_eq_mod _ 63
  simp only [rank, hmagnitude, signBit_iff_le]
  rcases lt_or_ge x.toBits.toNat (2 ^ 63) with h | h
  · rw [if_neg h.not_ge, if_pos h]
    omega
  · rw [if_pos h, if_neg h.not_gt]
    omega

/-- Different doubles have different ranks. -/
theorem rank_injective : Function.Injective rank := by
  intro x y h
  have hx := x.toBits.toNat_lt
  have hy := y.toBits.toNat_lt
  rw [rank_eq, rank_eq] at h
  rw [← Float.toBits_inj, ← UInt64.toNat_inj]
  split at h <;> split at h <;> omega

end SceneScript.Binary64
