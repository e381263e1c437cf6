import Mathlib.Algebra.Order.Ring.Int
import Mathlib.Data.Prod.Lex
import SceneScript.Proofs.Binary64.Bits

/-!
# The order of doubles

Doubles are compared by sign first, then by exponent, then by mantissa, and the two zeros are equal.
`standing` is what that comparison looks at, so `≤` is the order of standings between numbers, and
it does not hold where something is not a number (`le_iff`). So `≤` is reflexive and total on
numbers and transitive everywhere, which is all that depth tests need of doubles.
-/

namespace SceneScript.Binary64

open Float.Model (UnpackedFloat)
open Float.Model.UnpackedFloat

/-! ## Numbers apart from their bits -/

/-- What a comparison looks at: where a number stands among infinities, negative numbers, zeros and
positive numbers, then its exponent, then its mantissa. -/
def standing : UnpackedFloat → Int ×ₗ Int ×ₗ Int
  | .notANumber => toLex (0, toLex (0, 0))
  | .infinity .negative => toLex (-2, toLex (0, 0))
  | .finite .negative m e _ => toLex (-1, toLex (-e, -m))
  | .zero _ => toLex (0, toLex (0, 0))
  | .finite .positive m e _ => toLex (1, toLex (e, m))
  | .infinity .positive => toLex (2, toLex (0, 0))

/-- Positive numbers are compared by exponent, then by mantissa. -/
theorem isLE_compare_then (e₁ e₂ : Int) (m₁ m₂ : Nat) :
    ((compare e₁ e₂).then (compare m₁ m₂)).isLE ↔ e₁ < e₂ ∨ e₁ = e₂ ∧ m₁ ≤ m₂ := by
  rw [Ordering.isLE_then_iff_or, compare_lt_iff_lt, compare_eq_iff_eq, Nat.isLE_compare]

/-- Negative numbers are compared the other way round. -/
theorem isGE_compare_then (e₁ e₂ : Int) (m₁ m₂ : Nat) :
    ((compare e₁ e₂).then (compare m₁ m₂)).isGE ↔ e₂ < e₁ ∨ e₁ = e₂ ∧ m₂ ≤ m₁ := by
  rw [← Ordering.isLE_swap, Ordering.swap_then, Int.compare_swap, Nat.compare_swap,
    isLE_compare_then, eq_comm]

/-- Numbers are in the order of their standings. -/
theorem unpacked_le_iff (a b : UnpackedFloat) :
    a.le b ↔ a.isNaN = false ∧ b.isNaN = false ∧ standing a ≤ standing b := by
  unfold UnpackedFloat.le
  rcases a with (_ | _) | _ | _ | ⟨_ | _, m₁, e₁, _⟩ <;>
    rcases b with (_ | _) | _ | _ | ⟨_ | _, m₂, e₂, _⟩ <;>
    simp [UnpackedFloat.compare, UnpackedFloat.isNaN, standing, Prod.Lex.toLex_le_toLex,
      isLE_compare_then, isGE_compare_then] <;>
    rfl

/-! ## Doubles -/

variable {x y z : Float}

/-- Where a double stands. -/
def level (x : Float) : Int ×ₗ Int ×ₗ Int := standing x.toModel.unpack

/-- One double is at most another when both are numbers and their standings are in that order. -/
theorem le_iff : x ≤ y ↔ x.isNaN = false ∧ y.isNaN = false ∧ level x ≤ level y := by
  change decide (x.toModel ≤ y.toModel) = true ↔ _
  rw [decide_eq_true_iff]
  exact unpacked_le_iff _ _

/-- What is at most something is a number. -/
theorem isNaN_left (h : x ≤ y) : x.isNaN = false := (le_iff.1 h).1

/-- What is at least something is a number. -/
theorem isNaN_right (h : x ≤ y) : y.isNaN = false := (le_iff.1 h).2.1

/-- A number is at most itself. -/
theorem le_self (h : x.isNaN = false) : x ≤ x := le_iff.2 ⟨h, h, le_refl _⟩

theorem le_trans (hxy : x ≤ y) (hyz : y ≤ z) : x ≤ z := by
  obtain ⟨hx, -, hxy⟩ := le_iff.1 hxy
  obtain ⟨-, hz, hyz⟩ := le_iff.1 hyz
  exact le_iff.2 ⟨hx, hz, hxy.trans hyz⟩

/-- Of two numbers one is at most the other. -/
theorem le_total (hx : x.isNaN = false) (hy : y.isNaN = false) : x ≤ y ∨ y ≤ x :=
  (Std.le_total (a := level x) (b := level y)).imp (fun h => le_iff.2 ⟨hx, hy, h⟩)
    (fun h => le_iff.2 ⟨hy, hx, h⟩)

end SceneScript.Binary64
