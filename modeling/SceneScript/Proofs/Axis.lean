import SceneScript.Axis

/-!
# The letters of axes

An axis is named by its letter, in either case, and by nothing else (`ofChar?_eq_some_iff`,
`ofChar?_eq_none_iff`). A byte names the axis that its character names.
-/

namespace SceneScript.Axis

/-- The letters that name an axis, in either case. -/
def letters : List (Char × Axis) :=
  [('x', .x), ('X', .x), ('y', .y), ('Y', .y), ('z', .z), ('Z', .z)]

variable {c d : Char} {a : Axis}

/-- Capitals are 32 code points before the small letters. -/
theorem toNat_toLower (c : Char) :
    c.toLower.toNat = if 65 ≤ c.toNat ∧ c.toNat ≤ 90 then c.toNat + 32 else c.toNat := by
  unfold Char.toLower
  split
  · next h =>
    have hc : 65 ≤ c.val.toNat ∧ c.val.toNat ≤ 90 := h
    rw [if_pos (show 65 ≤ c.toNat ∧ c.toNat ≤ 90 from h)]
    change (c.val + 32).toNat = c.val.toNat + 32
    rw [UInt32.toNat_add]
    refine Nat.mod_eq_of_lt ?_
    change c.val.toNat + 32 < _
    omega
  · next h => rw [if_neg (show ¬ (65 ≤ c.toNat ∧ c.toNat ≤ 90) from h)]

/-- A small letter is the lower case of itself and of its capital. -/
theorem toLower_eq_iff (hd : 97 ≤ d.toNat) (hd' : d.toNat ≤ 122) :
    c.toLower = d ↔ c = d ∨ c.toNat + 32 = d.toNat := by
  rw [← Char.toNat_inj, ← Char.toNat_inj, toNat_toLower]
  split <;> omega

/-- A character names an axis when it is one of its letters. -/
theorem ofChar?_eq_some_iff : ofChar? c = some a ↔ (c, a) ∈ letters := by
  have hx : c.toLower = 'x' ↔ c = 'x' ∨ c = 'X' := by
    rw [toLower_eq_iff (by decide) (by decide), ← Char.toNat_inj (c := c) (d := 'X')]
    exact or_congr_right (Nat.add_right_cancel_iff (k := 88))
  have hy : c.toLower = 'y' ↔ c = 'y' ∨ c = 'Y' := by
    rw [toLower_eq_iff (by decide) (by decide), ← Char.toNat_inj (c := c) (d := 'Y')]
    exact or_congr_right (Nat.add_right_cancel_iff (k := 89))
  have hz : c.toLower = 'z' ↔ c = 'z' ∨ c = 'Z' := by
    rw [toLower_eq_iff (by decide) (by decide), ← Char.toNat_inj (c := c) (d := 'Z')]
    exact or_congr_right (Nat.add_right_cancel_iff (k := 90))
  constructor
  · intro h
    unfold ofChar? at h
    split at h
    · next hc =>
      cases h
      rcases hx.1 hc with rfl | rfl <;> decide
    · next hc =>
      cases h
      rcases hy.1 hc with rfl | rfl <;> decide
    · next hc =>
      cases h
      rcases hz.1 hc with rfl | rfl <;> decide
    · cases h
  · intro h
    simp only [letters, List.mem_cons, Prod.mk.injEq, List.not_mem_nil, or_false] at h
    rcases h with ⟨rfl, rfl⟩ | ⟨rfl, rfl⟩ | ⟨rfl, rfl⟩ | ⟨rfl, rfl⟩ | ⟨rfl, rfl⟩ | ⟨rfl, rfl⟩ <;>
      rfl

/-- A character names no axis when it is none of their letters. -/
theorem ofChar?_eq_none_iff : ofChar? c = none ↔ ∀ a, (c, a) ∉ letters := by
  rw [Option.eq_none_iff_forall_ne_some]
  exact forall_congr' fun a => not_congr ofChar?_eq_some_iff

end SceneScript.Axis
