import Mathlib.Algebra.Group.Nat.Even
import Mathlib.Data.List.Nodup
import Mathlib.Tactic.Linarith
import Mathlib.Tactic.Ring
import SceneScript.Proofs.Raster.Stepping

/-!
# Lines the other way round

A line from its finish to its start is near the same ideal line, but the two pens need not paint the
same cells. How far a pen is off the line after a step decides where it is along the shorter way, up
to the places where the line passes midway between two cells (`Stroke.IsMidway`). There a pen has
always taken the step already (`Stroke.IsAhead`), and two pens that come from different ends differ
by that step.

So the cells of a line are told by one formula for all slopes and directions (`Stroke.cells_eq`,
`Stroke.sideways`), and those of the line the other way round by the same one up to that step
(`Stroke.sideways_reverse`). The cells are the same just if the line passes midway between two cells
nowhere (`Stroke.cells_reverse_iff`), and whether it does is a matter of divisibility by two
(`Stroke.exists_isMidway_iff`).
-/

namespace SceneScript.Stroke

variable {α : Type} {s : Stroke α} {p p' : Pen α} {n n' i j i' j' k k' : Nat}

/-! ## Cells by the steps that lead to them -/

/-- How far the line goes along its shorter way. -/
def shorter (s : Stroke α) : Nat := (min s.across s.up).toNat

/-- The cell that is `n` steps along the longer way and `k` steps along the shorter way from the
start. -/
def cellAt (s : Stroke α) (n k : Nat) : Int × Int :=
  let (i, j) := if s.up ≤ s.across then (n, k) else (k, n)
  (s.start.x + i * (s.finish.x - s.start.x).sign, s.start.y + j * (s.finish.y - s.start.y).sign)

/-- How far along the shorter way the pen is after `n` steps: as far as the line, to the nearest
cell, and to the farther one of two that are equally near. -/
def sideways (s : Stroke α) (n : Nat) : Nat := (2 * (n * s.shorter) + s.length) / (2 * s.length)

/-- The cells of a line, from its start to its finish. -/
def cells [Scalar α] (s : Stroke α) : List (Int × Int) := s.fragments.map fun f => (f.x, f.y)

/-- The longer and the shorter way are those across and up, or up and across. -/
theorem ways (s : Stroke α) :
    s.up ≤ s.across ∧ (s.length : Int) = s.across ∧ (s.shorter : Int) = s.up ∨
      s.across < s.up ∧ (s.length : Int) = s.up ∧ (s.shorter : Int) = s.across := by
  have ha := s.across_nonneg
  have hb := s.up_nonneg
  have hlength := s.length_eq
  unfold shorter
  omega

/-- Along the shorter way a line goes at most as far as along the longer one. -/
theorem shorter_le (s : Stroke α) : s.shorter ≤ s.length := by
  rcases s.ways with h | h <;> omega

/-! ## Ties -/

/-- Midway between two cells the pen is on the farther one. -/
structure IsAhead (s : Stroke α) (i j : Nat) : Prop where
  across : s.up ≤ s.across → -s.across < 2 * (j * s.across - i * s.up)
  up : s.across < s.up → 2 * (j * s.across - i * s.up) < s.up

theorem isAhead_start (h : 0 < s.length) : s.IsAhead 0 0 where
  across hab := by
    have := s.length_eq
    omega
  up hab := by
    have := s.across_nonneg
    omega

section Pens

variable [Scalar α]

/-- A step keeps the pen ahead at ties: the error after the step is what is compared to half a cell,
and a tie is no reason against the step. -/
theorem IsAhead.step (ha : s.IsAhead i j) (h : s.IsOn n i j p) (h' : s.IsOn n' i' j' (s.step p)) :
    s.IsAhead i' j' := by
  have herror := h.error
  have herror' := h'.error
  simp only [Stroke.step] at herror'
  refine ⟨fun hab => ?_, fun hab => ?_⟩
  · have := ha.across hab
    omega
  · have := ha.up hab
    omega

/-- Up to the finish the pen stays on the line, and ahead at ties. -/
theorem exists_isOn_isAhead (hlen : 0 < s.length) (hn : n ≤ s.length) :
    ∃ i j, s.IsOn n i j (s.penAfter n) ∧ s.IsAhead i j := by
  induction n with
  | zero => exact ⟨0, 0, s.isOn_pen, isAhead_start hlen⟩
  | succ n ih =>
    obtain ⟨i, j, h, hahead⟩ := ih (by omega)
    obtain ⟨i', j', h', -⟩ := h.step (by omega)
    rw [penAfter_succ]
    exact ⟨i', j', h', hahead.step h h'⟩

/-- A whole number that is within half a unit of a quotient, and above it at half a unit, is that
quotient to nearest. -/
theorem eq_nearest {a b n k : Nat} (hlow : -(a : Int) < 2 * (k * a - n * b))
    (hhigh : 2 * (k * a - n * b : Int) ≤ a) : k = (2 * (n * b) + a) / (2 * a) := by
  refine (Nat.div_eq_of_lt_le ?_ ?_).symm
  · rw [← Int.ofNat_le]
    push_cast
    linarith
  · rw [← Int.ofNat_lt]
    push_cast
    linarith

/-- After `n` steps the pen is on the cell that the formula gives. -/
theorem cellAt_sideways (hn : n ≤ s.length) :
    ((s.penAfter n).tip.x, (s.penAfter n).tip.y) = s.cellAt n (s.sideways n) := by
  rcases s.length.eq_zero_or_pos with hlen | hlen
  · obtain rfl : n = 0 := by omega
    simp [penAfter, pen, cellAt, sideways, hlen]
  · obtain ⟨i, j, h, hahead⟩ := exists_isOn_isAhead hlen hn
    obtain ⟨hlow, hhigh⟩ := abs_le.1 h.near
    rw [h.x, h.y, cellAt]
    rcases s.ways with ⟨hab, ha, hb⟩ | ⟨hab, ha, hb⟩
    · obtain rfl := h.across hab
      have hahead := hahead.across hab
      rw [← ha, ← hb] at hahead hhigh
      rw [max_eq_left (by omega)] at hhigh
      rw [if_pos hab, eq_nearest hahead hhigh, sideways]
    · obtain rfl := h.up hab.le
      have hahead := hahead.up hab
      rw [← ha, ← hb] at hahead hlow
      rw [max_eq_right (by omega)] at hlow
      rw [if_neg (not_le.2 hab), eq_nearest (a := s.length) (b := s.shorter) (n := j) (k := i)
        (by linarith) (by linarith), sideways]

/-- The cells of a line are told by the formula. -/
theorem cells_eq (s : Stroke α) :
    s.cells = (List.range (s.length + 1)).map fun n => s.cellAt n (s.sideways n) := by
  rw [cells, fragments_eq, List.map_map]
  refine List.map_congr_left fun n hn => ?_
  exact cellAt_sideways (Nat.lt_succ_iff.1 (List.mem_range.1 hn))

theorem mem_cells {c : Int × Int} :
    c ∈ s.cells ↔ ∃ n ≤ s.length, c = s.cellAt n (s.sideways n) := by
  rw [cells_eq, List.mem_map]
  simp only [List.mem_range, Nat.lt_succ_iff, eq_comm]

end Pens

/-! ## The other way round -/

/-- The line from the finish to the start. -/
def reverse (s : Stroke α) : Stroke α := ⟨s.finish, s.start⟩

@[simp] theorem across_reverse (s : Stroke α) : s.reverse.across = s.across := by
  rw [across, across, ← Int.natAbs_neg, neg_sub]
  rfl

@[simp] theorem up_reverse (s : Stroke α) : s.reverse.up = s.up := by
  rw [up, up, ← Int.natAbs_neg, neg_sub]
  rfl

@[simp] theorem length_reverse (s : Stroke α) : s.reverse.length = s.length := by
  rw [length, length, across_reverse, up_reverse]

@[simp] theorem shorter_reverse (s : Stroke α) : s.reverse.shorter = s.shorter := by
  rw [shorter, shorter, across_reverse, up_reverse]

@[simp] theorem sideways_reverse_eq (s : Stroke α) (n : Nat) :
    s.reverse.sideways n = s.sideways n := by
  rw [sideways, sideways, length_reverse, shorter_reverse]

/-- Steps back from an end are as many fewer steps from the other one. -/
theorem steps_back {a b d : Int} {m : Nat} (hd : d = (b - a).natAbs) :
    b + m * (a - b).sign = a + (d - m) * (b - a).sign := by
  have hback : (a - b).sign = -(b - a).sign := by rw [← Int.sign_neg, neg_sub]
  have hway : (b - a).sign * (b - a).natAbs = b - a := Int.sign_mul_natAbs _
  rw [hback, sub_mul, hd, mul_comm _ (b - a).sign, hway]
  ring

/-- A cell is told by the steps from either end. -/
theorem cellAt_reverse (hn : n ≤ s.length) (hk : k ≤ s.shorter) :
    s.reverse.cellAt n k = s.cellAt (s.length - n) (s.shorter - k) := by
  rw [cellAt, cellAt, across_reverse, up_reverse]
  rcases s.ways with ⟨hab, ha, hb⟩ | ⟨hab, ha, hb⟩
  · rw [if_pos hab, if_pos hab]
    dsimp only [reverse]
    rw [steps_back ha, steps_back hb, Int.ofNat_sub hn, Int.ofNat_sub hk]
  · rw [if_neg (not_le.2 hab), if_neg (not_le.2 hab)]
    dsimp only [reverse]
    rw [steps_back ha, steps_back hb, Int.ofNat_sub hn, Int.ofNat_sub hk]

/-- Along the shorter way the pen does not pass the finish. -/
theorem sideways_le (hn : n ≤ s.length) : s.sideways n ≤ s.shorter := by
  rcases s.length.eq_zero_or_pos with hlen | hlen
  · simp [sideways, hlen]
  · have hle : n * s.shorter ≤ s.length * s.shorter := Nat.mul_le_mul_right _ hn
    rw [sideways, ← Nat.lt_succ_iff, Nat.div_lt_iff_lt_mul (by omega)]
    calc 2 * (n * s.shorter) + s.length < 2 * (s.length * s.shorter) + 2 * s.length := by omega
      _ = s.shorter.succ * (2 * s.length) := by
        rw [Nat.succ_eq_add_one]
        ring

theorem mem_cells_reverse [Scalar α] {c : Int × Int} :
    c ∈ s.reverse.cells ↔
      ∃ n ≤ s.length, c = s.cellAt n (s.shorter - s.sideways (s.length - n)) := by
  rw [mem_cells, length_reverse]
  constructor
  · rintro ⟨n, hn, rfl⟩
    refine ⟨s.length - n, Nat.sub_le _ _, ?_⟩
    rw [sideways_reverse_eq, cellAt_reverse hn (sideways_le hn), Nat.sub_sub_self hn]
  · rintro ⟨n, hn, rfl⟩
    refine ⟨s.length - n, Nat.sub_le _ _, ?_⟩
    rw [sideways_reverse_eq, cellAt_reverse (Nat.sub_le _ _) (sideways_le (Nat.sub_le _ _)),
      Nat.sub_sub_self hn]

/-! ## Where the two ways differ -/

/-- After `n` steps the line passes midway between two cells. -/
def IsMidway (s : Stroke α) (n : Nat) : Prop :=
  0 < s.length ∧ ∃ k, 2 * (n * s.shorter) = (2 * k + 1) * s.length

/-- How far the pen is off the line, which is less than half a cell to the one side and at most half
a cell to the other. -/
theorem sideways_bounds (hlen : 0 < s.length) (n : Nat) :
    2 * (s.sideways n * s.length) ≤ 2 * (n * s.shorter) + s.length ∧
      2 * (n * s.shorter) < 2 * (s.sideways n * s.length) + s.length := by
  have hlow := Nat.div_mul_le_self (2 * (n * s.shorter) + s.length) (2 * s.length)
  have hhigh := Nat.lt_div_mul_add (a := 2 * (n * s.shorter) + s.length)
    (show 0 < 2 * s.length by omega)
  rw [← sideways, Nat.mul_left_comm (s.sideways n)] at hlow hhigh
  omega

/-- Midway between two cells the pen is half a cell ahead. -/
theorem isMidway_iff (hlen : 0 < s.length) :
    s.IsMidway n ↔ 2 * (s.sideways n * s.length) = 2 * (n * s.shorter) + s.length := by
  constructor
  · rintro ⟨-, k, hk⟩
    have hside : s.sideways n = k + 1 := by
      rw [sideways, hk, show (2 * k + 1) * s.length + s.length = (k + 1) * (2 * s.length) by ring,
        Nat.mul_div_cancel _ (by omega)]
    rw [hside, hk]
    ring
  · intro h
    have hpos : s.sideways n ≠ 0 := by
      intro h0
      rw [h0] at h
      omega
    obtain ⟨k, hk⟩ := Nat.exists_eq_succ_of_ne_zero hpos
    refine ⟨hlen, k, ?_⟩
    rw [hk, Nat.succ_eq_add_one, Nat.add_one_mul k] at h
    rw [Nat.add_one_mul (2 * k), Nat.mul_assoc]
    omega

/-- After the steps that lead to one place the pens from the two ends are equally far along the
shorter way, unless the line passes midway between two cells: then each is half a cell ahead. -/
theorem sideways_reverse (hn : n ≤ s.length) :
    ¬ s.IsMidway n ∧ s.sideways n = s.shorter - s.sideways (s.length - n) ∨
      s.IsMidway n ∧ s.sideways n = s.shorter - s.sideways (s.length - n) + 1 := by
  rcases s.length.eq_zero_or_pos with hlen | hlen
  · refine .inl ⟨fun h => ?_, ?_⟩
    · exact absurd h.1 (by omega)
    · have := s.shorter_le
      simp only [sideways, hlen, Nat.mul_zero, Nat.div_zero]
      omega
  · rw [isMidway_iff hlen]
    obtain ⟨hlow, hhigh⟩ := sideways_bounds hlen n
    obtain ⟨hlow', hhigh'⟩ := sideways_bounds hlen (s.length - n)
    have hle : s.sideways (s.length - n) ≤ s.shorter := sideways_le (Nat.sub_le _ _)
    have hback : (s.shorter - s.sideways (s.length - n)) * s.length =
        s.length * s.shorter - s.sideways (s.length - n) * s.length := by
      rw [Nat.sub_mul, Nat.mul_comm s.shorter]
    have hmul : s.sideways (s.length - n) * s.length ≤ s.length * s.shorter := by
      rw [Nat.mul_comm s.length]
      exact Nat.mul_le_mul_right _ hle
    have hrest : n * s.shorter ≤ s.length * s.shorter := Nat.mul_le_mul_right _ hn
    rw [Nat.sub_mul] at hlow' hhigh'
    generalize s.shorter - s.sideways (s.length - n) = back at *
    -- the two are less than half a cell apart on the one side, and at most a whole cell on the other
    rcases Nat.lt_trichotomy (s.sideways n) back with h | h | h
    · have := Nat.mul_le_mul_right s.length (Nat.succ_le_of_lt h)
      rw [Nat.succ_mul] at this
      omega
    · rw [h] at hlow hhigh ⊢
      omega
    · have hone : s.sideways n = back + 1 := by
        by_contra hne
        have := Nat.mul_le_mul_right s.length (show back + 2 ≤ s.sideways n by omega)
        rw [Nat.add_mul] at this
        omega
      refine .inr ⟨?_, hone⟩
      rw [hone, Nat.add_one_mul back] at hlow hhigh ⊢
      omega

/-- The line passes midway between two cells only if it has a shorter way to go. -/
theorem IsMidway.shorter_pos (h : s.IsMidway n) : 0 < s.shorter := by
  obtain ⟨hlen, k, hk⟩ := h
  refine Nat.pos_of_ne_zero fun h0 => ?_
  rw [h0, Nat.mul_zero, Nat.mul_zero, eq_comm, Nat.mul_eq_zero] at hk
  omega

/-- Different steps lead to different cells. -/
theorem cellAt_inj (hlen : 0 < s.length) (h : s.cellAt n k = s.cellAt n' k') :
    n = n' ∧ (0 < s.shorter → k = k') := by
  have steps {a b d : Int} {m m' : Nat} (hd : d = (b - a).natAbs) (hpos : 0 < d)
      (h : a + m * (b - a).sign = a + m' * (b - a).sign) : m = m' := by
    have hne : (b - a).sign ≠ 0 := by
      rw [Ne, Int.sign_eq_zero_iff_zero]
      omega
    exact Int.ofNat_inj.1 (Int.eq_of_mul_eq_mul_right hne (Int.add_left_cancel h))
  rw [cellAt, cellAt] at h
  rcases s.ways with ⟨hab, ha, hb⟩ | ⟨hab, ha, hb⟩
  · rw [if_pos hab, if_pos hab, Prod.mk.injEq] at h
    exact ⟨steps ha (by omega) h.1, fun hpos => steps hb (by omega) h.2⟩
  · rw [if_neg (not_le.2 hab), if_neg (not_le.2 hab), Prod.mk.injEq] at h
    exact ⟨steps ha (by omega) h.2, fun hpos => steps hb (by omega) h.1⟩

/-- No cell of a line is painted twice. -/
theorem nodup_cells [Scalar α] (s : Stroke α) : s.cells.Nodup := by
  rw [cells_eq]
  rcases s.length.eq_zero_or_pos with hlen | hlen
  · rw [hlen]
    exact List.nodup_singleton _
  · refine List.Nodup.map_on (fun n _ n' _ h => ?_) List.nodup_range
    exact (cellAt_inj hlen h).1

/-- A line passes midway between two cells somewhere just if the longer way, in units of what is
common to both ways, is even. -/
theorem exists_isMidway_iff (s : Stroke α) :
    (∃ n ≤ s.length, s.IsMidway n) ↔
      0 < s.length ∧ Even (s.length / Nat.gcd s.length s.shorter) := by
  constructor
  · rintro ⟨n, -, hlen, k, hk⟩
    have hpos := Nat.gcd_pos_of_pos_left s.shorter hlen
    obtain ⟨a, ha⟩ := Nat.gcd_dvd_left s.length s.shorter
    obtain ⟨b, hb⟩ := Nat.gcd_dvd_right s.length s.shorter
    refine ⟨hlen, ?_⟩
    generalize Nat.gcd s.length s.shorter = g at *
    have hparts : 2 * (n * b) = (2 * k + 1) * a := by
      rw [ha, hb] at hk
      refine Nat.eq_of_mul_eq_mul_left hpos ?_
      linarith
    rw [ha, Nat.mul_div_cancel_left _ hpos]
    have heven : Even ((2 * k + 1) * a) := hparts ▸ even_two_mul _
    exact (Nat.even_mul.1 heven).resolve_left (by simp)
  · rintro ⟨hlen, heven⟩
    have hpos := Nat.gcd_pos_of_pos_left s.shorter hlen
    have hcoprime := Nat.coprime_div_gcd_div_gcd hpos
    have ha := Nat.div_mul_cancel (Nat.gcd_dvd_left s.length s.shorter)
    have hb := Nat.div_mul_cancel (Nat.gcd_dvd_right s.length s.shorter)
    generalize Nat.gcd s.length s.shorter = g at *
    obtain ⟨n, hn⟩ := heven
    -- the two ways have nothing in common, so not both are even
    obtain ⟨k, hk⟩ : Odd (s.shorter / g) := by
      rw [← Nat.not_even_iff_odd]
      intro h
      have := Nat.dvd_gcd (even_iff_two_dvd.1 (hn ▸ Even.add_self n)) (even_iff_two_dvd.1 h)
      rw [hcoprime] at this
      omega
    rw [hn] at ha
    rw [hk] at hb
    refine ⟨n, ?_, hlen, k, ?_⟩
    · rw [← ha]
      nlinarith
    · rw [← ha, ← hb]
      ring

/-- How far a cell is off the line, in parts of the longer way. -/
theorem offset_cellAt (h : 0 < s.shorter) (n k : Nat) :
    |((s.cellAt n k).2 - s.start.y) * (s.finish.x - s.start.x) -
        ((s.cellAt n k).1 - s.start.x) * (s.finish.y - s.start.y)| =
      |(k * s.length - n * s.shorter : Int)| := by
  have hle := s.shorter_le
  have way {d : Int} (a : Int) (ha : a = d.natAbs) (hpos : 0 < a) : |d.sign| = 1 ∧ d = d.sign * a :=
    ⟨Int.abs_sign_of_ne_zero (by omega), by rw [ha]; exact (Int.sign_mul_natAbs d).symm⟩
  rw [cellAt]
  rcases s.ways with ⟨hab, ha, hb⟩ | ⟨hab, ha, hb⟩
  · obtain ⟨hx, hdx⟩ := way s.length ha (by omega)
    obtain ⟨hy, hdy⟩ := way s.shorter hb (by omega)
    rw [if_pos hab]
    dsimp only
    generalize (s.finish.x - s.start.x).sign = sx at *
    generalize (s.finish.y - s.start.y).sign = sy at *
    rw [hdx, hdy, show (s.start.y + k * sy - s.start.y) * (sx * s.length) -
      (s.start.x + n * sx - s.start.x) * (sy * s.shorter) =
        sx * sy * (k * s.length - n * s.shorter) by ring, abs_mul, abs_mul, hx, hy, one_mul, one_mul]
  · obtain ⟨hx, hdx⟩ := way s.shorter hb (by omega)
    obtain ⟨hy, hdy⟩ := way s.length ha (by omega)
    rw [if_neg (not_le.2 hab)]
    dsimp only
    generalize (s.finish.x - s.start.x).sign = sx at *
    generalize (s.finish.y - s.start.y).sign = sy at *
    rw [hdx, hdy, show (s.start.y + n * sy - s.start.y) * (sx * s.shorter) -
      (s.start.x + k * sx - s.start.x) * (sy * s.length) =
        -(sx * sy * (k * s.length - n * s.shorter)) by ring, abs_neg, abs_mul, abs_mul, hx, hy,
        one_mul, one_mul]

variable [Scalar α] {c : Int × Int}

/-- A line has the same cells the other way round just if it nowhere passes midway between two
cells. -/
theorem cells_reverse_iff (s : Stroke α) :
    (∀ c, c ∈ s.cells ↔ c ∈ s.reverse.cells) ↔ ¬ ∃ n ≤ s.length, s.IsMidway n := by
  constructor
  · rintro h ⟨n, hn, hmid⟩
    obtain ⟨n', -, hc⟩ := mem_cells_reverse.1 ((h _).1 (mem_cells.2 ⟨n, hn, rfl⟩))
    obtain ⟨rfl, hside⟩ := cellAt_inj hmid.1 hc
    rcases sideways_reverse hn with ⟨hnot, -⟩ | ⟨-, hone⟩
    · exact hnot hmid
    · have := hside hmid.shorter_pos
      omega
  · intro h c
    have hsame : ∀ n ≤ s.length, s.sideways n = s.shorter - s.sideways (s.length - n) := by
      intro n hn
      exact ((sideways_reverse hn).resolve_right fun hmid => h ⟨n, hn, hmid.1⟩).2
    rw [mem_cells, mem_cells_reverse]
    refine exists_congr fun n => and_congr_right fun hn => ?_
    rw [hsame n hn]

/-- A cell of a line in one direction only is exactly half a cell off the line. -/
theorem offset_of_not_iff (h : ¬ (c ∈ s.cells ↔ c ∈ s.reverse.cells)) :
    2 * |(c.2 - s.start.y) * (s.finish.x - s.start.x) -
      (c.1 - s.start.x) * (s.finish.y - s.start.y)| = s.length := by
  -- the steps to the cell from the start, and how far ahead the pen is there that paints it
  obtain ⟨n, k, rfl, hmid, hk⟩ : ∃ n k, c = s.cellAt n k ∧ s.IsMidway n ∧
      (k = s.sideways n ∨ k + 1 = s.sideways n) := by
    rw [not_iff, mem_cells, mem_cells_reverse] at h
    rcases Classical.em (∃ n ≤ s.length, c = s.cellAt n (s.sideways n)) with hc | hc
    · obtain ⟨n, hn, rfl⟩ := hc
      refine ⟨n, _, rfl, ?_, .inl rfl⟩
      rcases sideways_reverse hn with ⟨-, hsame⟩ | ⟨hmid, -⟩
      · exact absurd (h.2 ⟨n, hn, by rw [hsame]⟩) fun hnot => hnot ⟨n, hn, rfl⟩
      · exact hmid
    · obtain ⟨n, hn, rfl⟩ := h.1 hc
      refine ⟨n, _, rfl, ?_, .inr ?_⟩ <;>
        rcases sideways_reverse hn with ⟨-, hsame⟩ | ⟨hmid, hone⟩
      · exact absurd ⟨n, hn, by rw [hsame]⟩ hc
      · exact hmid
      · exact absurd ⟨n, hn, by rw [hsame]⟩ hc
      · exact hone.symm
  have hhalf := (isMidway_iff hmid.1).1 hmid
  rw [offset_cellAt hmid.shorter_pos]
  rcases hk with rfl | hk
  · rw [abs_of_nonneg] <;> omega
  · rw [← hk, Nat.add_one_mul k] at hhalf
    rw [abs_of_nonpos] <;> omega

end SceneScript.Stroke
