import SceneScript.Decimal.Shortest

/-!
# The shortest decimal of a number is not zero

The shortest decimal of a number was tried and reads back, or has all digits of the number, and then
zeros at its end are moved into the exponent (`Magnitude.exists_shortest_eq`). Zero reads back as no
other number (`Magnitude.readsBack_zero`), and moving zeros makes a zero of no other coefficient. So
the shortest decimal of a positive number has a positive coefficient
(`Magnitude.coefficient_shortest_ne_zero`).
-/

namespace SceneScript.Decimal

variable {x : Magnitude} {d : Decimal} {tie : Tie} {g : Int} {n : Nat}

namespace Magnitude

/-- Zero lies below all reals that round to a positive number. -/
theorem readsBack_zero (hx : x.significand ≠ 0) (g : Int) : x.readsBack ⟨0, g⟩ = false := by
  have hlow : Fraction.compare (.scaled 0 0 g)
      (.scaled (4 * x.significand - if x.narrowBelow then 1 else 2) (x.exponent - 2) 0) = .lt := by
    have hpos : 0 < 4 * x.significand - (if x.narrowBelow then 1 else 2) := by
      split <;> omega
    rw [Fraction.compare, Nat.compare_eq_lt]
    simp only [Fraction.scaled, Nat.zero_mul]
    have htwo (k : Nat) : 0 < Nat.pow 2 k := Nat.pow_pos (by decide)
    have hten (k : Nat) : 0 < Nat.pow 10 k := Nat.pow_pos (by decide)
    exact Nat.mul_pos (Nat.mul_pos (Nat.mul_pos hpos (htwo _)) (hten _))
      (Nat.mul_pos (htwo _) (hten _))
  unfold readsBack
  dsimp only
  rw [hlow]

/-- What reads back as a positive number is not zero. -/
theorem coefficient_ne_zero_of_readsBack (hx : x.significand ≠ 0) (h : x.readsBack d = true) :
    d.coefficient ≠ 0 := by
  obtain ⟨c, g⟩ := d
  rintro rfl
  rw [readsBack_zero hx g] at h
  cases h

/-- One of the two neighbours on a grid is taken only if it reads back. -/
theorem readsBack_of_onGrid (h : x.onGrid tie g = some d) : x.readsBack d = true := by
  unfold onGrid at h
  dsimp only at h
  generalize (Fraction.scaled x.significand x.exponent (-g)).numerator /
    (Fraction.scaled x.significand x.exponent (-g)).denominator = below at h
  split at h
  · cases h
  · next hbelow _ =>
    cases h
    exact hbelow
  · next habove =>
    cases h
    exact habove
  · next hbelow habove =>
    split at h <;> cases h
    · exact hbelow
    · exact habove
    · exact habove
    · rcases Nat.mod_two_eq_zero_or_one below with heven | hodd
      · rwa [heven]
      · rwa [hodd]

/-- The shortest decimal of a number, but for zeros at its end, reads back or has all digits. -/
theorem exists_shortest_eq (x : Magnitude) (tie : Tie) :
    ∃ n d, x.shortest tie = stripZeros n d ∧ (x.readsBack d = true ∨ d = x.exact) := by
  rw [shortest]
  cases hfound : (List.range 17).findSome? fun (n : Nat) => x.onGrid tie (x.decimalScale - (n + 1))
  with
  | none => exact ⟨_, _, rfl, .inr rfl⟩
  | some d =>
    obtain ⟨n, -, hn⟩ := List.exists_of_findSome?_eq_some hfound
    exact ⟨_, _, rfl, .inl (readsBack_of_onGrid hn)⟩

end Magnitude

/-- Moving zeros into the exponent keeps a number from zero. -/
theorem coefficient_stripZeros_ne_zero (hd : d.coefficient ≠ 0) :
    (stripZeros n d).coefficient ≠ 0 := by
  induction n generalizing d with
  | zero => exact hd
  | succ n ih =>
    rw [stripZeros]
    split
    · exact ih (by dsimp only; omega)
    · exact hd

/-- The shortest decimal of a positive number is positive. -/
theorem Magnitude.coefficient_shortest_ne_zero (hx : x.significand ≠ 0) (tie : Tie) :
    (x.shortest tie).coefficient ≠ 0 := by
  obtain ⟨n, d, hshortest, hback | rfl⟩ := x.exists_shortest_eq tie
  · rw [hshortest]
    exact coefficient_stripZeros_ne_zero (coefficient_ne_zero_of_readsBack hx hback)
  · have htwo : 0 < Nat.pow 2 x.exponent.toNat := Nat.pow_pos (by decide)
    have hfive : 0 < Nat.pow 5 (-x.exponent).toNat := Nat.pow_pos (by decide)
    rw [hshortest]
    exact coefficient_stripZeros_ne_zero
      (Nat.ne_of_gt (Nat.mul_pos (Nat.mul_pos (Nat.pos_of_ne_zero hx) htwo) hfive))

end SceneScript.Decimal
