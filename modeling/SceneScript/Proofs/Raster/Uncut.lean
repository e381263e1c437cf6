import SceneScript.Proofs.Binary64.Whole
import SceneScript.Proofs.Framebuffer.Places
import SceneScript.Raster.Line

/-!
# Segments that no side cuts

In rounded arithmetic the crossing with a side is found only nearly. For a segment that lies inside
the rectangle this does not matter: rounding keeps the order, so each crossing still comes before
the start or behind the finish (`Span.cutBy_whole`), and clipping leaves the segment as it is
(`Edge.clip_eq_self`). Between the middles of two cells the fragments are then those of the line
from the one cell to the other (`Framebuffer.IsMiddle.fragments_eq`).
-/

namespace SceneScript

open Binary64
open Float.Model.UnpackedFloat

/-! ## Arithmetic in order -/

namespace Binary64

open Float.Model (UnpackedFloat)
open Float.Model.Format (binary64)

variable {x y z c : Float} {s : Sign}

/-- An infinity less something finite is that infinity. -/
theorem unpack_sub_of_infinity (hx : x.toModel.unpack = .infinity s) (hy : y.isFinite) :
    (x - y).toModel.unpack = .infinity s := by
  change y.toModel.unpack.isFinite at hy
  change (Float.Model.pack
    (UnpackedFloat.sub binary64 x.toModel.unpack y.toModel.unpack)).unpack = _
  rw [hx]
  cases hu : y.toModel.unpack with
  | notANumber | infinity s' =>
    rw [hu] at hy
    contradiction
  | zero s' | finite s' m e hm => exact unpack_pack (u := .infinity _) trivial

/-- An infinity over a negative number is the other infinity. -/
theorem unpack_div_of_infinity (hx : x.toModel.unpack = .infinity s) (hc : c.isFinite)
    (hneg : value c < 0) : (x / c).toModel.unpack = .infinity (-s) := by
  have hdc : IsDouble c.toModel.unpack := isDouble_unpack _
  change c.toModel.unpack.isFinite at hc
  change unpackedValue c.toModel.unpack < 0 at hneg
  change (Float.Model.pack
    (UnpackedFloat.div binary64 x.toModel.unpack c.toModel.unpack)).unpack = _
  rw [hx]
  rcases hu : c.toModel.unpack with s' | _ | s' | ⟨_ | _, m, e, hm⟩ <;> rw [hu] at hc hneg hdc
  · contradiction
  · contradiction
  · exact absurd hneg (lt_irrefl 0)
  · cases s <;> exact unpack_pack (u := .infinity _) trivial
  · exact absurd hneg hdc.bounds.1.le.not_gt

/-- Subtracting a finite number keeps the order. -/
theorem sub_mono (hx : x.isFinite) (hy : y.isFinite) (h : x ≤ z) : x - y ≤ z - y := by
  obtain ⟨hxn, hzn, hle⟩ := le_iff_value.1 h
  have hxy := rounds_sub hx hy
  rcases isFinite_or_infinity hzn with hz | ⟨s, hs⟩
  · have hzy := rounds_sub hz hy
    refine le_iff_value.2 ⟨hxy.isNaN, hzy.isNaN, ?_⟩
    rcases hle.lt_or_eq with hlt | heq
    · exact hxy.value_mono hzy (sub_lt_sub_right hlt _)
    · rcases eq_or_value_eq_zero hxn hzn heq with rfl | hzero
      · exact le_rfl
      · -- both are zero, so the differences are exact
        rw [hzero, zero_sub] at hxy
        rw [← heq, hzero, zero_sub] at hzy
        have hneg : IsRepresentable (-value y) := (isRepresentable_value y).neg
        rw [hxy.value_eq hneg, hzy.value_eq hneg]
  · have hsub := unpack_sub_of_infinity hs hy
    refine le_iff_value.2 ⟨hxy.isNaN, isNaN_of_infinity hsub, ?_⟩
    rw [value_of_infinity hsub]
    cases s with
    | positive => exact (abs_le.1 (isRepresentable_value _).1).2
    | negative =>
      rw [value_of_infinity hs] at hle
      exact absurd hle (abs_lt.1 (abs_value_lt hx)).1.not_ge

end Binary64

/-! ## Sides that do not cut -/

namespace Span

variable {side : Side Float} {rate room x y : Float}

/-- The order of doubles as scalars is that of their values. -/
theorem scalar_lt_iff :
    Scalar.lt x y = true ↔ x.isNaN = false ∧ y.isNaN = false ∧ value x < value y :=
  decide_eq_true_iff.trans lt_iff_value

theorem scalar_le_iff :
    Scalar.le x y = true ↔ x.isNaN = false ∧ y.isNaN = false ∧ value x ≤ value y :=
  decide_eq_true_iff.trans le_iff_value

/-- A crossing does not come behind the start if the segment comes in there, and not before the
finish if it goes out. -/
theorem crossing_cases (hrate : rate.isFinite) (hne : value rate ≠ 0) (hroom : 0 ≤ value room)
    (hle : rate ≤ room) :
    value rate < 0 ∧ value (room / rate) ≤ 0 ∨ 0 < value rate ∧ 1 ≤ value (room / rate) := by
  obtain ⟨-, hnan, -⟩ := le_iff_value.1 hle
  rcases lt_or_gt_of_ne hne with hneg | hpos
  · refine .inl ⟨hneg, ?_⟩
    rcases isFinite_or_infinity hnan with hfin | ⟨s, hs⟩
    · exact (rounds_div hfin hrate hne).value_le isRepresentable_zero
        (div_nonpos_of_nonneg_of_nonpos hroom hneg.le)
    · have hover := overflow_pos
      have hdiv := unpack_div_of_infinity hs hrate hneg
      rw [value_of_infinity hs] at hroom
      rw [value_of_infinity hdiv]
      cases s with
      | positive => exact neg_nonpos.2 hover.le
      | negative => exact absurd hroom (neg_neg_of_pos hover).not_ge
  · refine .inr ⟨hpos, ?_⟩
    have hself : value (rate / rate) = 1 := by
      have h := rounds_div hrate hrate hne
      rw [div_self hne] at h
      exact h.value_eq isRepresentable_one
    obtain ⟨-, -, hdiv⟩ := le_iff_value.1 ((scales_div hrate hpos).mono (inv_pos.2 hpos) hle)
    rwa [hself] at hdiv

theorem value_scalar_zero : value (@OfNat.ofNat Float 0 Scalar.literal) = 0 :=
  value_ofInt (by norm_num)

theorem value_scalar_one : value (@OfNat.ofNat Float 1 Scalar.literal) = 1 := by
  have h := value_ofInt (m := 1) (by norm_num)
  rwa [Nat.cast_one] at h

/-- A side does not cut a segment that starts inside of it and goes no farther than to it. -/
theorem cutBy_whole (hrate : rate.isFinite) (hroom : 0 ≤ value room) (hle : rate ≤ room) :
    cutBy side rate room whole = some whole := by
  have hrateNan : rate.isNaN = false := isNaN_left hle
  rw [cutBy]
  split
  · refine if_neg fun h => ?_
    have := (scalar_lt_iff.1 h).2.2
    rw [value_scalar_zero] at this
    exact absurd hroom this.not_ge
  · next hsame =>
    have hne : value rate ≠ 0 := by
      intro h0
      have hnan : (@OfNat.ofNat Float 0 Scalar.literal).isNaN = false := (rounds_ofInt 0).isNaN
      have heq : value rate = value (@OfNat.ofNat Float 0 Scalar.literal) := by
        rw [h0, value_scalar_zero]
      refine hsame ?_
      rw [Scalar.same, Bool.and_eq_true]
      exact ⟨scalar_le_iff.2 ⟨hrateNan, hnan, heq.le⟩, scalar_le_iff.2 ⟨hnan, hrateNan, heq.ge⟩⟩
    -- no comparison holds that would move an end or leave nothing
    have hnot {x y : Float} (h : value y ≤ value x) : ¬ @LT.lt Float Scalar.instLT x y := fun hlt =>
      absurd h (scalar_lt_iff.1 hlt).2.2.not_ge
    dsimp only
    rcases crossing_cases hrate hne hroom hle with ⟨hneg, hcross⟩ | ⟨hpos, hcross⟩
    · have hin : @LT.lt Float Scalar.instLT rate (@OfNat.ofNat Float 0 Scalar.literal) :=
        scalar_lt_iff.2 ⟨hrateNan, (rounds_ofInt 0).isNaN, by rwa [value_scalar_zero]⟩
      rw [if_pos hin, if_neg (hnot ?_), if_neg (hnot ?_)]
      · exact hcross.trans value_scalar_zero.ge
      · refine hcross.trans (zero_le_one.trans ?_)
        exact value_scalar_one.ge
    · rw [if_neg (hnot ?_), if_neg (hnot ?_), if_neg (hnot ?_)]
      · exact value_scalar_one.le.trans hcross
      · exact value_scalar_zero.le.trans (zero_le_one.trans hcross)
      · rw [value_scalar_zero]
        exact hpos.le

end Span

/-! ## Segments inside -/

/-- A point of the rectangle `[0, maxX] × [0, maxY]`. -/
structure Vec3.IsInside (maxX maxY : Float) (p : Vec3 Float) : Prop where
  isFinite_x : p.x.isFinite
  isFinite_y : p.y.isFinite
  x_nonneg : 0 ≤ value p.x
  x_le : p.x ≤ maxX
  y_nonneg : 0 ≤ value p.y
  y_le : p.y ≤ maxY

namespace Edge

variable {maxX maxY : Float} {e : Edge (Vec3 Float)}

/-- The two sides that bound a coordinate do not cut a segment between two points inside. -/
theorem cutBy_between {a b bound : Float} (ha : a.isFinite) (hb : b.isFinite) (ha0 : 0 ≤ value a)
    (hb0 : 0 ≤ value b) (hale : a ≤ bound) (hble : b ≤ bound) :
    (∀ low, Span.cutBy low (-(b - a)) a Span.whole = some Span.whole) ∧
      ∀ high, Span.cutBy high (b - a) (bound - a) Span.whole = some Span.whole := by
  have hsub := rounds_sub hb ha
  have hlow : -value a ≤ value (b - a) :=
    hsub.le_value (isRepresentable_value a).neg (by linarith)
  have hhigh : value (b - a) ≤ value b := hsub.value_le (isRepresentable_value b) (by linarith)
  have hfinite : (b - a).isFinite := by
    refine isFinite_of_abs_lt hsub.isNaN (abs_lt.2 ?_)
    have hafin := (abs_lt.1 (abs_value_lt ha)).2
    have hbfin := (abs_lt.1 (abs_value_lt hb)).2
    exact ⟨by linarith, by linarith⟩
  have hneg : (-(b - a)).isFinite := by
    refine isFinite_of_abs_lt ((isNaN_neg _).trans hsub.isNaN) ?_
    rw [value_neg, abs_neg]
    exact abs_value_lt hfinite
  have hroom : 0 ≤ value (bound - a) := by
    have := (le_iff_value.1 (sub_mono ha ha hale)).2.2
    rwa [value_sub_self ha] at this
  refine ⟨fun _ => Span.cutBy_whole hneg ha0 (le_iff_value.2 ⟨?_, isNaN_left hale, ?_⟩),
    fun _ => Span.cutBy_whole hfinite hroom (sub_mono hb ha hble)⟩
  · rw [isNaN_neg]
    exact hsub.isNaN
  · rw [value_neg]
    linarith

/-- Clipping leaves a segment inside of the rectangle as it is. -/
theorem clip_eq_self (hstart : e.start.IsInside maxX maxY) (hfinish : e.finish.IsInside maxX maxY) :
    e.clip maxX maxY = some e := by
  have hinside : Span.inside e maxX maxY = some Span.whole := by
    obtain ⟨hleft, hright⟩ := cutBy_between hstart.isFinite_x hfinish.isFinite_x hstart.x_nonneg
      hfinish.x_nonneg hstart.x_le hfinish.x_le
    obtain ⟨hbottom, htop⟩ := cutBy_between hstart.isFinite_y hfinish.isFinite_y hstart.y_nonneg
      hfinish.y_nonneg hstart.y_le hfinish.y_le
    have hx : (e.finish - e.start).x = e.finish.x - e.start.x := rfl
    have hy : (e.finish - e.start).y = e.finish.y - e.start.y := rfl
    simp only [Span.inside, hx, hy, hleft, hright, hbottom, htop, Option.bind_eq_bind,
      Option.bind_some]
  rw [clip, hinside]
  rfl

end Edge

/-! ## Middles of cells -/

/-- The point lies in the middle of a cell of the picture: its coordinates are the column and the
row, which drawing counts in 64 bits with a sign. -/
structure Framebuffer.IsMiddle (fb : Framebuffer) (x y : Int) (p : Vec3 Float) : Prop where
  isFinite_x : p.x.isFinite
  isFinite_y : p.y.isFinite
  value_x : value p.x = x
  value_y : value p.y = y
  inRange : fb.InRange x y
  x_le : x ≤ maxInt
  y_le : y ≤ maxInt

namespace Framebuffer.IsMiddle

variable {fb : Framebuffer} {x y x' y' : Int} {p q : Vec3 Float}

/-- Columns and rows that doubles count are the coordinates of the middles of their cells. -/
theorem ofInt {m n : Nat} (h : fb.InRange m n) (hm : m < 2 ^ 53) (hn : n < 2 ^ 53) (z : Float) :
    fb.IsMiddle m n ⟨Binary64.ofInt m, Binary64.ofInt n, z⟩ := by
  have le_maxInt {k : Nat} (hk : k < 2 ^ 53) : (k : Int) ≤ maxInt := by
    rw [maxInt]
    omega
  exact {
    isFinite_x := isFinite_ofInt (le_maxInt hm)
    isFinite_y := isFinite_ofInt (le_maxInt hn)
    value_x := by rw [value_ofInt hm, Int.cast_natCast]
    value_y := by rw [value_ofInt hn, Int.cast_natCast]
    inRange := h
    x_le := le_maxInt hm
    y_le := le_maxInt hn }

/-- The nearest cell to its middle is the cell. -/
theorem fragment (h : fb.IsMiddle x y p) : p.fragment = ⟨x, y, p.z⟩ := by
  have cell {a : Float} {n : Int} (ha : a.isFinite) (hn : value a = n) (h0 : 0 ≤ n)
      (hle : n ≤ maxInt) : toInt (round a) = n := by
    exact toInt_of_value (value_round (isNaN_of_isFinite ha) hn).2 h0 hle
  obtain ⟨hx, -, hy, -⟩ := h.inRange
  rw [Vec3.fragment, Fragment.mk.injEq]
  exact ⟨cell h.isFinite_x h.value_x hx h.x_le, cell h.isFinite_y h.value_y hy h.y_le, rfl⟩

/-- The middles of cells lie between those of the outermost ones. -/
theorem isInside (h : fb.IsMiddle x y p) :
    p.IsInside (Scalar.ofInt (fb.width - 1)) (Scalar.ofInt (fb.height - 1)) := by
  have le_bound {a : Float} {n : Int} {size : Nat} (ha : a.isFinite) (hn : value a = n)
      (h0 : 0 ≤ n) (hlt : n < size) : a ≤ Scalar.ofInt (size - 1) := by
    obtain ⟨m, rfl⟩ : ∃ m : Nat, size = m + 1 := Nat.exists_eq_succ_of_ne_zero (by omega)
    have hround := rounds_ofInt m
    have hle : value a ≤ m := by
      rw [hn]
      exact_mod_cast Int.lt_add_one_iff.1 (by exact_mod_cast hlt)
    rw [Nat.cast_succ, add_sub_cancel_right]
    exact le_iff_value.2 ⟨isNaN_of_isFinite ha, hround.isNaN,
      hround.le_value (isRepresentable_value a) hle⟩
  obtain ⟨hx, hx', hy, hy'⟩ := h.inRange
  exact {
    isFinite_x := h.isFinite_x
    isFinite_y := h.isFinite_y
    x_nonneg := by
      rw [h.value_x]
      exact Int.cast_nonneg hx
    x_le := le_bound h.isFinite_x h.value_x hx hx'
    y_nonneg := by
      rw [h.value_y]
      exact Int.cast_nonneg hy
    y_le := le_bound h.isFinite_y h.value_y hy hy' }

theorem isPlaced (h : fb.IsMiddle x y p) : p.isPlaced = true := by
  rw [Vec3.isPlaced, Bool.and_eq_true]
  exact ⟨h.isFinite_x, h.isFinite_y⟩

/-- Between the middles of two cells the fragments are those of the line from cell to cell. -/
theorem fragments_eq (hp : fb.IsMiddle x y p) (hq : fb.IsMiddle x' y' q) :
    (Edge.mk p q).fragments fb.width fb.height =
      (Stroke.mk ⟨x, y, p.z⟩ ⟨x', y', q.z⟩).fragments := by
  obtain ⟨hx, hx', hy, hy'⟩ := hp.inRange
  have hclip : (Edge.mk p q).clip (Scalar.ofInt (fb.width - 1)) (Scalar.ofInt (fb.height - 1)) =
      some ⟨p, q⟩ := Edge.clip_eq_self hp.isInside hq.isInside
  have hwidth : fb.width ≠ 0 := by omega
  have hheight : fb.height ≠ 0 := by omega
  rw [Edge.fragments, hclip]
  simp only [hwidth, hheight, hp.isPlaced, hq.isPlaced, decide_false, Bool.or_self, Bool.and_self,
    Bool.not_true, Bool.false_eq_true, if_false]
  rw [hp.fragment, hq.fragment]

end Framebuffer.IsMiddle

end SceneScript
