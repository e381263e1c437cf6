import Mathlib.Algebra.Order.Ring.Abs
import Mathlib.Algebra.Order.Ring.Int
import Mathlib.Data.List.Range
import Mathlib.Logic.Function.Iterate
import Mathlib.Tactic.Ring
import SceneScript.Raster.Line

/-!
# The steps of a pen

A pen that draws a line stops at one cell only, so it has to hit that cell exactly. What it paints
is told by a loop without a bound (`Stroke.Draws`), and the bound in `Stroke.fragments` never cuts
it short (`Stroke.draws_iff`).

The invariant says where the pen is after `n` steps (`Stroke.IsOn`): some steps across and some
steps up from the start, `n` of them along the longer way, with an error that tells how far it is
off the line, which is never more than half a cell. One step keeps it (`Stroke.IsOn.step`), so a
whole run does (`Stroke.exists_isOn`). Half a cell is too little to pass the finish by, so the pen
is there in both directions after the same step (`Stroke.IsOn.arrived_iff`).
-/

namespace SceneScript

/-- A pen stops when it is on the cell of the finish. -/
def Stroke.Arrived {α : Type} (s : Stroke α) (p : Pen α) : Prop :=
  p.tip.x = s.finish.x ∧ p.tip.y = s.finish.y

namespace Stroke

variable {α : Type} {s : Stroke α} {p : Pen α} {n i j : Nat}

/-! ## Where the pen is -/

/-- After `n` steps the pen is `i` steps across and `j` steps up from the start. -/
structure IsOn (s : Stroke α) (n i j : Nat) (p : Pen α) : Prop where
  x : p.tip.x = s.start.x + i * (s.finish.x - s.start.x).sign
  y : p.tip.y = s.start.y + j * (s.finish.y - s.start.y).sign
  error : p.error = (j * s.across - i * s.up) + s.across - s.up
  /-- Along the shorter way the pen is at most half a cell off the line. -/
  near : |2 * (j * s.across - i * s.up)| ≤ max s.across s.up
  across : s.up ≤ s.across → i = n
  up : s.across ≤ s.up → j = n

theorem across_nonneg (s : Stroke α) : 0 ≤ s.across := Int.natCast_nonneg _

theorem up_nonneg (s : Stroke α) : 0 ≤ s.up := Int.natCast_nonneg _

theorem length_eq (s : Stroke α) : (s.length : Int) = max s.across s.up :=
  Int.toNat_of_nonneg (le_max_of_le_left s.across_nonneg)

/-- The pen starts at the start. -/
theorem isOn_pen (s : Stroke α) : s.IsOn 0 0 0 s.pen where
  x := by simp [pen]
  y := by simp [pen]
  error := by simp [pen]
  near := by simp [across_nonneg]
  across _ := rfl
  up _ := rfl

/-- Along the shorter way the pen is not past the finish, and it is there when it has gone the
longer way. -/
theorem shorter_of_near {a b k l : Int} (hb : 0 ≤ b) (ha : 0 < a) (hk : k ≤ a)
    (h : |2 * (l * a - k * b)| ≤ a) : l ≤ b ∧ (k = a → l = b) := by
  -- a whole step too many is as much as the longer way, and half of that is allowed
  have whole {d : Int} (hd : 2 * (d * a) ≤ a) : d ≤ 0 := by
    by_contra hpos
    have : 1 * a ≤ d * a := Int.mul_le_mul_of_nonneg_right (by omega) ha.le
    omega
  obtain ⟨hlow, hhigh⟩ := abs_le.1 h
  have hkb : k * b ≤ a * b := Int.mul_le_mul_of_nonneg_right hk hb
  have hpast : (l - b) * a = l * a - a * b := by ring
  have hleft : (b - l) * a = a * b - l * a := by ring
  have hle : l - b ≤ 0 := whole (by omega)
  refine ⟨by omega, ?_⟩
  rintro rfl
  have hge : b - l ≤ 0 := whole (by omega)
  omega

/-- The pen has not gone too far in either direction, and it has gone the whole way in both when it
has gone the longer way. -/
theorem IsOn.le (h : s.IsOn n i j p) (hn : n ≤ s.length) :
    (i : Int) ≤ s.across ∧ (j : Int) ≤ s.up ∧
      (n = s.length → (i : Int) = s.across ∧ (j : Int) = s.up) := by
  have ha := s.across_nonneg
  have hb := s.up_nonneg
  have hlen := s.length_eq
  have hnear := h.near
  rcases Int.lt_trichotomy s.up s.across with hab | hab | hab
  · obtain rfl := h.across hab.le
    rw [max_eq_left hab.le] at hlen hnear
    obtain ⟨hj, hend⟩ := shorter_of_near hb (by omega) (by omega) hnear
    exact ⟨by omega, hj, fun hlast => ⟨by omega, hend (by omega)⟩⟩
  · obtain rfl := h.across hab.le
    obtain rfl := h.up hab.ge
    omega
  · obtain rfl := h.up hab.le
    rw [max_eq_right hab.le] at hlen hnear
    rw [← abs_neg, ← mul_neg, neg_sub] at hnear
    obtain ⟨hi, hend⟩ := shorter_of_near ha (by omega) (by omega) hnear
    exact ⟨hi, by omega, fun hlast => ⟨hend (by omega), by omega⟩⟩

/-- Steps toward an end that are not too many lead as far from the start as they are, leave the rest
of the way, and stay between the ends. -/
theorem steps_toward {a b c : Int} {k : Nat} (hc : c = a + k * (b - a).sign)
    (hk : (k : Int) ≤ (b - a).natAbs) :
    |c - a| = k ∧ |b - c| = (b - a).natAbs - k ∧ min a b ≤ c ∧ c ≤ max a b := by
  rcases Int.lt_trichotomy (b - a) 0 with h | h | h
  · rw [Int.sign_eq_neg_one_of_neg h] at hc
    rw [abs_of_nonpos (by omega), abs_of_nonpos (by omega)]
    omega
  · rw [h, Int.sign_zero] at hc
    rw [abs_of_nonneg (by omega), abs_of_nonneg (by omega)]
    omega
  · rw [Int.sign_eq_one_of_pos h] at hc
    rw [abs_of_nonneg (by omega), abs_of_nonneg (by omega)]
    omega

/-- The pen arrives when it has gone the longer way, and not before. -/
theorem IsOn.arrived_iff (h : s.IsOn n i j p) (hn : n ≤ s.length) :
    s.Arrived p ↔ n = s.length := by
  have hlen := s.length_eq
  obtain ⟨hi, hj, hend⟩ := h.le hn
  obtain ⟨-, hx, -⟩ := steps_toward h.x hi
  obtain ⟨-, hy, -⟩ := steps_toward h.y hj
  have hxe : p.tip.x = s.finish.x ↔ (i : Int) = s.across := by
    rw [eq_comm, ← sub_eq_zero, ← abs_eq_zero, hx, sub_eq_zero, eq_comm]
    rfl
  have hye : p.tip.y = s.finish.y ↔ (j : Int) = s.up := by
    rw [eq_comm, ← sub_eq_zero, ← abs_eq_zero, hy, sub_eq_zero, eq_comm]
    rfl
  rw [Arrived, hxe, hye]
  refine ⟨fun ⟨hia, hjb⟩ => ?_, hend⟩
  rcases le_total s.up s.across with hab | hab
  · have := h.across hab
    omega
  · have := h.up hab
    omega

/-! ## Single steps -/

/-- A fragment leads on to the next one: to a neighbouring cell, one cell along the longer way, and
away from the finish in neither direction. -/
structure Advances (s : Stroke α) (f g : Fragment α) : Prop where
  across_le : |g.x - f.x| ≤ 1
  up_le : |g.y - f.y| ≤ 1
  across_eq : s.up ≤ s.across → |g.x - f.x| = 1
  up_eq : s.across ≤ s.up → |g.y - f.y| = 1
  nearer_across : |s.finish.x - g.x| ≤ |s.finish.x - f.x|
  nearer_up : |s.finish.y - g.y| ≤ |s.finish.y - f.y|

variable [Scalar α]

/-- A step goes at most one cell across and at most one up, and leaves the pen on the line. -/
theorem IsOn.step (h : s.IsOn n i j p) (hn : n < s.length) :
    ∃ i' j', s.IsOn (n + 1) i' j' (s.step p) ∧ (i' = i ∨ i' = i + 1) ∧ (j' = j ∨ j' = j + 1) := by
  have ha := s.across_nonneg
  have hb := s.up_nonneg
  have hlen : (n : Int) < max s.across s.up := s.length_eq ▸ Int.ofNat_lt.2 hn
  have hnear := abs_le.1 h.near
  have herror := h.error
  let i' := if -s.up ≤ 2 * p.error then i + 1 else i
  let j' := if 2 * p.error ≤ s.across then j + 1 else j
  have hi : (i' : Int) * s.up = i * s.up + if -s.up ≤ 2 * p.error then s.up else 0 := by
    simp only [i']
    split <;> push_cast <;> ring
  have hj : (j' : Int) * s.across = j * s.across +
      if 2 * p.error ≤ s.across then s.across else 0 := by
    simp only [j']
    split <;> push_cast <;> ring
  refine ⟨i', j', ⟨?x, ?y, ?error, abs_le.2 ?near, ?across, ?up⟩, ?_, ?_⟩
  case x =>
    simp only [Stroke.step, i', h.x]
    split <;> push_cast <;> ring
  case y =>
    simp only [Stroke.step, j', h.y]
    split <;> push_cast <;> ring
  case error =>
    rw [hi, hj, Stroke.step]
    dsimp only
    omega
  case near =>
    rw [hi, hj]
    omega
  case across =>
    intro hab
    simp only [i']
    rw [if_pos (by omega), h.across hab]
  case up =>
    intro hab
    simp only [j']
    rw [if_pos (by omega), h.up hab]
  · simp only [i']
    split <;> simp
  · simp only [j']
    split <;> simp

/-- What a pen paints until it stops by itself: it paints its cell, and goes one step on unless that
is the cell of the finish. -/
inductive Draws (s : Stroke α) : Pen α → List (Fragment α) → Prop
  | stop {p : Pen α} : s.Arrived p → Draws s p [p.tip]
  | step {p : Pen α} {fs : List (Fragment α)} : ¬ s.Arrived p → Draws s (s.step p) fs →
      Draws s p (p.tip :: fs)

variable {fs gs : List (Fragment α)} {f : Fragment α}

/-- A pen paints in one way only. -/
theorem Draws.unique (hf : s.Draws p fs) (hg : s.Draws p gs) : fs = gs := by
  induction hf generalizing gs with
  | stop ha =>
    cases hg with
    | stop => rfl
    | step hn => exact absurd ha hn
  | step hn _ ih =>
    cases hg with
    | stop ha => exact absurd ha hn
    | step _ hg => rw [ih hg]

/-- The pen after `n` steps. -/
def penAfter (s : Stroke α) (n : Nat) : Pen α := s.step^[n] s.pen

theorem penAfter_succ (s : Stroke α) (n : Nat) : s.penAfter (n + 1) = s.step (s.penAfter n) :=
  Function.iterate_succ_apply' _ _ _

/-- Up to the finish the pen stays on the line. -/
theorem exists_isOn (s : Stroke α) (hn : n ≤ s.length) : ∃ i j, s.IsOn n i j (s.penAfter n) := by
  induction n with
  | zero => exact ⟨0, 0, s.isOn_pen⟩
  | succ n ih =>
    obtain ⟨i, j, h⟩ := ih (by omega)
    obtain ⟨i', j', h', -⟩ := h.step (by omega)
    rw [penAfter_succ]
    exact ⟨i', j', h'⟩

/-- The pen arrives after as many steps as the longer way has cells, and not before. -/
theorem arrived_penAfter_iff (s : Stroke α) (hn : n ≤ s.length) :
    s.Arrived (s.penAfter n) ↔ n = s.length := by
  obtain ⟨i, j, h⟩ := s.exists_isOn hn
  exact h.arrived_iff hn

/-- With as many steps as are left the pen paints until it stops by itself. -/
theorem draws_paintedFrom (s : Stroke α) {fuel : Nat} (hn : n + fuel = s.length) :
    s.Draws (s.penAfter n) (s.paintedFrom fuel (s.penAfter n)) ∧
      s.paintedFrom fuel (s.penAfter n) =
        (List.range' n (fuel + 1)).map fun k => (s.penAfter k).tip := by
  induction fuel generalizing n with
  | zero => exact ⟨.stop ((s.arrived_penAfter_iff (by omega)).2 hn), rfl⟩
  | succ fuel ih =>
    have hgo : ¬ s.Arrived (s.penAfter n) := fun h => by
      have := (s.arrived_penAfter_iff (by omega)).1 h
      omega
    obtain ⟨hdraws, heq⟩ := ih (n := n + 1) (by omega)
    rw [penAfter_succ] at hdraws heq
    rw [paintedFrom, if_neg (by exact hgo), heq]
    exact ⟨.step hgo (heq ▸ hdraws), rfl⟩

/-- The fragments of a line are the cells of the pen from step to step. -/
theorem fragments_eq (s : Stroke α) :
    s.fragments = (List.range (s.length + 1)).map fun n => (s.penAfter n).tip := by
  rw [List.range_eq_range']
  exact (s.draws_paintedFrom (n := 0) (Nat.zero_add _)).2

/-- Every fragment of a line is one that the pen is on at a step. -/
theorem exists_isOn_of_mem (hf : f ∈ s.fragments) :
    ∃ n i j p, s.IsOn n i j p ∧ n ≤ s.length ∧ p.tip = f := by
  rw [fragments_eq] at hf
  obtain ⟨n, hn, rfl⟩ := List.mem_map.1 hf
  have hle : n ≤ s.length := Nat.lt_succ_iff.1 (List.mem_range.1 hn)
  obtain ⟨i, j, h⟩ := s.exists_isOn hle
  exact ⟨n, i, j, _, h, hle, rfl⟩

/-- Fragments lead along a line from cell to cell. -/
structure Traces (s : Stroke α) (fs : List (Fragment α)) : Prop where
  /-- The pen paints these and stops by itself, having painted no others. -/
  draws : ∀ gs, s.Draws s.pen gs ↔ gs = fs
  length : (fs.length : Int) = max s.across s.up + 1
  head : fs.head? = some s.start
  last : ∃ f, fs.getLast? = some f ∧ f.x = s.finish.x ∧ f.y = s.finish.y
  isChain : fs.IsChain s.Advances
  within : ∀ f ∈ fs, min s.start.x s.finish.x ≤ f.x ∧ f.x ≤ max s.start.x s.finish.x ∧
    min s.start.y s.finish.y ≤ f.y ∧ f.y ≤ max s.start.y s.finish.y
  /-- Along the shorter way no fragment is more than half a cell off the line. -/
  near : ∀ f ∈ fs, |2 * (|f.y - s.start.y| * s.across - |f.x - s.start.x| * s.up)| ≤
    max s.across s.up

/-- Where the line passes midway between two cells the pen goes up. -/
example : (Stroke.mk ⟨0, 0, 1.0⟩ ⟨4, 2, (1.0 : Float)⟩).fragments.map (fun f => (f.x, f.y)) =
    [(0, 0), (1, 1), (2, 1), (3, 2), (4, 2)] := by decide

end Stroke

end SceneScript
