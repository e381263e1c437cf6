import SceneScript.Framebuffer

/-!
# The cells of a framebuffer

Every column and row of a picture has one cell, and every cell belongs to one column and row
(`place?_inj`, `exists_place?`): row `y` from the bottom lies at row `height - 1 - y` of the display
(`place?_spec`), and outside of the picture there is no cell (`place?_eq_none_iff`).

So painting one place is seen there and nowhere else (`cell?_plot`), and what is seen is decided by
the cell alone (`Cell.cover`).
-/

namespace SceneScript

/-- The cell after paint at a depth: the paint shows if it is at least as near. -/
def Cell.cover (c : Cell) (color : Color) (z : Float) : Cell :=
  if c.depth ≤ z then ⟨color, z⟩ else c

namespace Framebuffer

variable {fb : Framebuffer} {x y x' y' : Int}

/-- The column and the row are those of the picture. -/
def InRange (fb : Framebuffer) (x y : Int) : Prop := 0 ≤ x ∧ x < fb.width ∧ 0 ≤ y ∧ y < fb.height

/-! ## Places -/

/-- Within the picture the place is counted row by row from the top. -/
theorem place?_of_inRange (h : fb.InRange x y) :
    ∃ i, fb.place? x y = some i ∧ (i : Nat) = (fb.height - 1 - y.toNat) * fb.width + x.toNat := by
  obtain ⟨hx, hx', hy, hy'⟩ := h
  exact ⟨_, dif_pos ⟨hx, hy, by omega, by omega⟩, rfl⟩

/-- Outside of the picture there is no place. -/
theorem place?_eq_none_iff : fb.place? x y = none ↔ ¬ fb.InRange x y := by
  constructor
  · intro hn h
    obtain ⟨i, hi, -⟩ := place?_of_inRange h
    rw [hi] at hn
    cases hn
  · intro h
    refine dif_neg fun hp => h ?_
    obtain ⟨hx, hy, hx', hy'⟩ := hp
    exact ⟨hx, by omega, hy, by omega⟩

/-- A place is within the picture. -/
theorem inRange_of_place? {i : Fin (fb.width * fb.height)} (h : fb.place? x y = some i) :
    fb.InRange x y := by
  rcases Classical.em (fb.InRange x y) with hr | hr
  · exact hr
  · rw [place?_eq_none_iff.2 hr] at h
    cases h

/-- A place stands in the row of the display that is as far from the top as the row is from the
bottom of the picture, and in its column. -/
theorem place?_spec {i : Fin (fb.width * fb.height)} (h : fb.place? x y = some i) :
    (i : Nat) / fb.width = fb.height - 1 - y.toNat ∧ (i : Nat) % fb.width = x.toNat := by
  have hr := inRange_of_place? h
  obtain ⟨j, hj, hval⟩ := place?_of_inRange hr
  obtain ⟨hx, hx', -, -⟩ := hr
  obtain rfl : i = j := Option.some.inj (h.symm.trans hj)
  have hlt : x.toNat < fb.width := by omega
  rw [hval, Nat.add_comm, Nat.add_mul_div_right _ _ (by omega), Nat.div_eq_of_lt hlt,
    Nat.zero_add, Nat.add_mul_mod_self_right, Nat.mod_eq_of_lt hlt]
  exact ⟨rfl, rfl⟩

/-- Different columns or rows have different places. -/
theorem place?_inj {i : Fin (fb.width * fb.height)} (h : fb.place? x y = some i)
    (h' : fb.place? x' y' = some i) : x = x' ∧ y = y' := by
  obtain ⟨hrow, hcol⟩ := place?_spec h
  obtain ⟨hrow', hcol'⟩ := place?_spec h'
  have ⟨hx, _, hy, hy'⟩ := inRange_of_place? h
  have ⟨hx', _, hz, hz'⟩ := inRange_of_place? h'
  rw [hcol'] at hcol
  rw [hrow'] at hrow
  omega

/-- Every cell has a column and a row. -/
theorem exists_place? (i : Fin (fb.width * fb.height)) :
    ∃ x y, fb.InRange x y ∧ fb.place? x y = some i := by
  have hpos : 0 < fb.width := by
    refine Nat.pos_of_ne_zero fun h => ?_
    have hi := i.isLt
    simp [h] at hi
  have hrow : (i : Nat) / fb.width < fb.height := Nat.div_lt_of_lt_mul i.isLt
  have hcol : (i : Nat) % fb.width < fb.width := Nat.mod_lt _ hpos
  have hval := Nat.div_add_mod (i : Nat) fb.width
  generalize (i : Nat) / fb.width = row at hrow hval
  generalize (i : Nat) % fb.width = col at hcol hval
  have hr : fb.InRange col (fb.height - 1 - row : Nat) := ⟨by omega, by omega, by omega, by omega⟩
  obtain ⟨j, hj, hj'⟩ := place?_of_inRange hr
  refine ⟨_, _, hr, hj.trans (congrArg some (Fin.ext ?_))⟩
  rw [hj', Int.toNat_natCast, Int.toNat_natCast, ← hval, Nat.mul_comm,
    show fb.height - 1 - (fb.height - 1 - row) = row by omega]

/-! ## Single plots -/

/-- Within the picture there is a cell. -/
theorem exists_cell? (h : fb.InRange x y) : ∃ c, fb.cell? x y = some c := by
  obtain ⟨i, hi, -⟩ := place?_of_inRange h
  exact ⟨fb.cells[i], by rw [cell?, hi]; rfl⟩

/-- Outside of the picture there is none. -/
theorem cell?_eq_none (h : ¬ fb.InRange x y) : fb.cell? x y = none := by
  rw [cell?, place?_eq_none_iff.2 h]
  rfl

/-- What a column and a row show is one of the cells. -/
theorem mem_of_cell? {c : Cell} (h : fb.cell? x y = some c) : c ∈ fb.cells := by
  obtain ⟨i, -, rfl⟩ := Option.map_eq_some_iff.1 h
  exact Vector.getElem_mem i.isLt

/-- Outside of the picture nothing is painted. -/
theorem plot_eq_of_not_inRange (h : ¬ fb.InRange x y) (color : Color) (depth : Float) :
    fb.plot color x y depth = (fb, false) := by
  rw [plot, place?_eq_none_iff.2 h]

/-- A plot says whether the cell was at most as near. -/
theorem plot_snd {c : Cell} (h : fb.cell? x y = some c) (color : Color) (depth : Float) :
    (fb.plot color x y depth).2 = decide (c.depth ≤ quantize depth) := by
  obtain ⟨i, hi, rfl⟩ := Option.map_eq_some_iff.1 h
  rw [plot, hi]
  by_cases hz : fb.cells[i].depth ≤ quantize depth
  · simp only [hz, if_true, decide_true]
  · simp only [hz, if_false, decide_false]

/-- A plot is seen at its own column and row, and nowhere else. -/
theorem cell?_plot (fb : Framebuffer) (color : Color) (x y : Int) (depth : Float) (x' y' : Int) :
    (fb.plot color x y depth).1.cell? x' y' =
      if x = x' ∧ y = y' then (fb.cell? x' y').map (·.cover color (quantize depth))
      else fb.cell? x' y' := by
  cases hi : fb.place? x y with
  | none =>
    have hn := place?_eq_none_iff.1 hi
    rw [plot_eq_of_not_inRange hn]
    split
    · next h =>
      obtain ⟨rfl, rfl⟩ := h
      rw [cell?_eq_none hn]
      rfl
    · rfl
  | some i =>
    rw [plot, hi]
    dsimp only
    by_cases hz : fb.cells[i].depth ≤ quantize depth
    · rw [if_pos hz]
      change (fb.place? x' y').map ((fb.cells.set i ⟨color, quantize depth⟩)[·]) = _
      split
      · next h =>
        obtain ⟨rfl, rfl⟩ := h
        rw [cell?, hi]
        simp [Cell.cover, show fb.cells[(i : Nat)].depth ≤ quantize depth from hz]
      · next h =>
        rw [cell?]
        cases hj : fb.place? x' y' with
        | none => rfl
        | some j =>
          have hne : (i : Nat) ≠ j := fun he => h (place?_inj hi (Fin.ext he ▸ hj))
          exact congrArg some (Vector.getElem_set_ne i.isLt j.isLt hne)
    · rw [if_neg hz]
      split
      · next h =>
        obtain ⟨rfl, rfl⟩ := h
        rw [cell?, hi]
        exact congrArg some (if_neg hz).symm
      · rfl

end Framebuffer

end SceneScript
