import Mathlib.Order.Bounds.Basic
import Mathlib.Order.Interval.Set.Basic
import Mathlib.Tactic.Linarith
import Mathlib.Tactic.Ring
import SceneScript.Proofs.Framebuffer.Places
import SceneScript.Proofs.Raster.Exact
import SceneScript.Proofs.Raster.Stepping

/-!
# Clipped segments

In exact arithmetic what is left of a segment is what lies in the rectangle, no more and no less.
The parameters of the points within (`Edge.shown`) are those that no side cuts off, and what one
side leaves of an interval is an interval again, or nothing (`Span.Leaves.cut`). The invariant of
the four cuts is which parameters are left, and that each end is an end of the segment or stands on
the side that cut it (`Cut.Stands`). So at the end the interval is just the parameters within
(`Span.leaves_inside`), and neither setting a coordinate to its side nor bringing it into the
rectangle moves a point (`Cut.point_eq`).

The ends of what is left lie in the rectangle, so the cells nearest to them are in the picture
(`Framebuffer.inRange_fragment`), and with them all cells of the line between
(`Stroke.inRange_of_mem`).
-/

namespace SceneScript

theorem Vec3.eq_of_coordinates {p q : Vec3 ℚ} (hx : p.x = q.x) (hy : p.y = q.y) (hz : p.z = q.z) :
    p = q := by
  cases p
  cases q
  simp_all

/-! ## Points of a segment -/

namespace Edge

/-- The point of a segment at a parameter. -/
def pointAt (e : Edge (Vec3 ℚ)) (t : ℚ) : Vec3 ℚ := e.start + (e.finish - e.start).scale t

/-- The parameters of the points of a segment that lie in the rectangle `[0, maxX] × [0, maxY]`. -/
def shown (e : Edge (Vec3 ℚ)) (maxX maxY : ℚ) : Set ℚ :=
  {t | (0 ≤ t ∧ t ≤ 1) ∧ (0 ≤ (e.pointAt t).x ∧ (e.pointAt t).x ≤ maxX) ∧
    0 ≤ (e.pointAt t).y ∧ (e.pointAt t).y ≤ maxY}

theorem pointAt_x (e : Edge (Vec3 ℚ)) (t : ℚ) :
    (e.pointAt t).x = e.start.x + (e.finish.x - e.start.x) * t := rfl

theorem pointAt_y (e : Edge (Vec3 ℚ)) (t : ℚ) :
    (e.pointAt t).y = e.start.y + (e.finish.y - e.start.y) * t := rfl

theorem pointAt_z (e : Edge (Vec3 ℚ)) (t : ℚ) :
    (e.pointAt t).z = e.start.z + (e.finish.z - e.start.z) * t := rfl

/-- The sides cut off the parameters at which the segment is past them. -/
theorem shown_eq (e : Edge (Vec3 ℚ)) (maxX maxY : ℚ) : e.shown maxX maxY = Set.Icc 0 1 ∩
    {t | -(e.finish.x - e.start.x) * t ≤ e.start.x} ∩
    {t | (e.finish.x - e.start.x) * t ≤ maxX - e.start.x} ∩
    {t | -(e.finish.y - e.start.y) * t ≤ e.start.y} ∩
    {t | (e.finish.y - e.start.y) * t ≤ maxY - e.start.y} := by
  refine Set.ext fun t => ?_
  simp only [shown, pointAt_x, pointAt_y, Set.mem_inter_iff, Set.mem_ofPred_eq, Set.mem_Icc]
  constructor
  · rintro ⟨ht, ⟨hleft, hright⟩, hbottom, htop⟩
    exact ⟨⟨⟨⟨ht, by linarith⟩, by linarith⟩, by linarith⟩, by linarith⟩
  · rintro ⟨⟨⟨⟨ht, hleft⟩, hright⟩, hbottom⟩, htop⟩
    exact ⟨ht, ⟨by linarith, by linarith⟩, by linarith, by linarith⟩

theorem pointAt_zero (e : Edge (Vec3 ℚ)) : e.pointAt 0 = e.start := by
  refine Vec3.eq_of_coordinates ?_ ?_ ?_
  · rw [pointAt_x, mul_zero, add_zero]
  · rw [pointAt_y, mul_zero, add_zero]
  · rw [pointAt_z, mul_zero, add_zero]

theorem pointAt_one (e : Edge (Vec3 ℚ)) : e.pointAt 1 = e.finish := by
  refine Vec3.eq_of_coordinates ?_ ?_ ?_
  · rw [pointAt_x, mul_one, add_sub_cancel]
  · rw [pointAt_y, mul_one, add_sub_cancel]
  · rw [pointAt_z, mul_one, add_sub_cancel]

end Edge

/-! ## Cuts -/

theorem Side.pin_across {bound : ℚ} {p : Vec3 ℚ} (h : p.x = bound) :
    (Side.mk .across bound).pin p = p := by
  subst h
  rfl

theorem Side.pin_up {bound : ℚ} {p : Vec3 ℚ} (h : p.y = bound) : (Side.mk .up bound).pin p = p := by
  subst h
  rfl

/-- A cut is at an end of a segment, or it stands on the side that made it. -/
def Cut.Stands (e : Edge (Vec3 ℚ)) (ending : ℚ) (c : Cut ℚ) : Prop :=
  match c.side with
  | none => c.parameter = ending
  | some side => side.pin (e.pointAt c.parameter) = e.pointAt c.parameter

namespace Span

variable {e : Edge (Vec3 ℚ)} {ts : Set ℚ} {o : Option (Span ℚ)} {s : Span ℚ} {side : Side ℚ}
  {rate room : ℚ}

/-- What is left of a segment has just these parameters. -/
inductive Leaves (e : Edge (Vec3 ℚ)) (ts : Set ℚ) : Option (Span ℚ) → Prop
  | nothing : ts = ∅ → Leaves e ts none
  | part {s : Span ℚ} : s.enter.parameter ≤ s.leave.parameter →
      ts = Set.Icc s.enter.parameter s.leave.parameter → s.enter.Stands e 0 → s.leave.Stands e 1 →
      Leaves e ts (some s)

/-- The whole segment has the parameters from `0` to `1`. -/
theorem leaves_whole (e : Edge (Vec3 ℚ)) : Leaves e (Set.Icc 0 1) (some whole) := by
  have hzero : (whole : Span ℚ).enter.parameter = 0 := Exact.literal_zero
  have hone : (whole : Span ℚ).leave.parameter = 1 := Exact.literal_one
  refine .part ?_ ?_ hzero hone
  · rw [hzero, hone]
    exact zero_le_one
  · rw [hzero, hone]

/-- Cutting in exact arithmetic. -/
theorem cutBy_eq (side : Side ℚ) (rate room : ℚ) (s : Span ℚ) : cutBy side rate room s =
    if rate = 0 then
      if room < 0 then none else some s
    else if rate < 0 then
      if s.leave.parameter < room / rate then none
      else if s.enter.parameter < room / rate then
        some { s with enter := ⟨room / rate, some side⟩ }
      else some s
    else if room / rate < s.enter.parameter then none
    else if room / rate < s.leave.parameter then
      some { s with leave := ⟨room / rate, some side⟩ }
    else some s := by
  simp only [cutBy, Exact.literal_zero, Exact.same_iff, Exact.lt_iff]

/-- A segment along a side is past it as a whole or not at all. -/
theorem leaves_cutBy_along (h : Leaves e ts (some s)) :
    Leaves e (ts ∩ {t | 0 * t ≤ room}) (cutBy side 0 room s) := by
  obtain - | ⟨hle, rfl, henter, hleave⟩ := h
  rw [cutBy_eq, if_pos rfl]
  simp only [zero_mul]
  split
  · next hroom =>
    refine .nothing (Set.eq_empty_of_forall_notMem ?_)
    rintro t ⟨-, hcut⟩
    exact absurd hcut (not_le.2 hroom)
  · next hroom =>
    refine .part hle ?_ henter hleave
    exact Set.inter_eq_left.2 fun t _ => not_lt.1 hroom

/-- Of a segment that comes in past a side the parameters from there on are left. -/
theorem leaves_cutBy_in (h : Leaves e ts (some s)) (hrate : rate < 0)
    (hside : side.pin (e.pointAt (room / rate)) = e.pointAt (room / rate)) :
    Leaves e (ts ∩ {t | rate * t ≤ room}) (cutBy side rate room s) := by
  obtain - | ⟨hle, rfl, henter, hleave⟩ := h
  have hin (t : ℚ) : rate * t ≤ room ↔ room / rate ≤ t := by
    rw [div_le_iff_of_neg hrate, mul_comm]
  rw [cutBy_eq, if_neg hrate.ne, if_pos hrate]
  simp only [hin]
  split
  · next hlt =>
    refine .nothing (Set.eq_empty_of_forall_notMem ?_)
    rintro t ⟨ht, hcut⟩
    exact absurd (hcut.trans ht.2) (not_le.2 hlt)
  next hlt =>
  split
  · next hmore =>
    refine .part (not_lt.1 hlt) (Set.ext fun t => ?_) hside hleave
    exact ⟨fun ⟨ht, hcut⟩ => ⟨hcut, ht.2⟩, fun ht => ⟨⟨hmore.le.trans ht.1, ht.2⟩, ht.1⟩⟩
  · next hmore =>
    refine .part hle ?_ henter hleave
    exact Set.inter_eq_left.2 fun t ht => (not_lt.1 hmore).trans ht.1

/-- Of a segment that goes out past a side the parameters up to there are left. -/
theorem leaves_cutBy_out (h : Leaves e ts (some s)) (hrate : 0 < rate)
    (hside : side.pin (e.pointAt (room / rate)) = e.pointAt (room / rate)) :
    Leaves e (ts ∩ {t | rate * t ≤ room}) (cutBy side rate room s) := by
  obtain - | ⟨hle, rfl, henter, hleave⟩ := h
  have hin (t : ℚ) : rate * t ≤ room ↔ t ≤ room / rate := by
    rw [le_div_iff₀' hrate]
  rw [cutBy_eq, if_neg hrate.ne', if_neg (not_lt.2 hrate.le)]
  simp only [hin]
  split
  · next hlt =>
    refine .nothing (Set.eq_empty_of_forall_notMem ?_)
    rintro t ⟨ht, hcut⟩
    exact absurd (ht.1.trans hcut) (not_le.2 hlt)
  next hlt =>
  split
  · next hless =>
    refine .part (not_lt.1 hlt) (Set.ext fun t => ?_) henter hside
    exact ⟨fun ⟨ht, hcut⟩ => ⟨ht.1, hcut⟩, fun ht => ⟨⟨ht.1, ht.2.trans hless.le⟩, ht.2⟩⟩
  · next hless =>
    refine .part hle ?_ henter hleave
    exact Set.inter_eq_left.2 fun t ht => ht.2.trans (not_lt.1 hless)

/-- A side leaves the parameters at which the segment is not past it. -/
theorem Leaves.cut (h : Leaves e ts o)
    (hside : ∀ t, rate * t = room → side.pin (e.pointAt t) = e.pointAt t) :
    Leaves e (ts ∩ {t | rate * t ≤ room}) (o.bind (cutBy side rate room)) := by
  cases o with
  | none =>
    obtain ⟨rfl⟩ := h
    exact .nothing (Set.empty_inter _)
  | some s =>
    rcases lt_trichotomy rate 0 with hrate | rfl | hrate
    · exact leaves_cutBy_in h hrate (hside _ (mul_div_cancel₀ _ hrate.ne))
    · exact leaves_cutBy_along h
    · exact leaves_cutBy_out h hrate (hside _ (mul_div_cancel₀ _ hrate.ne'))

/-- The part inside is what the four sides leave of the whole segment. -/
theorem inside_eq (e : Edge (Vec3 ℚ)) (maxX maxY : ℚ) : inside e maxX maxY =
    ((((some whole).bind (cutBy ⟨.across, 0⟩ (-(e.finish.x - e.start.x)) e.start.x)).bind
      (cutBy ⟨.across, maxX⟩ (e.finish.x - e.start.x) (maxX - e.start.x))).bind
      (cutBy ⟨.up, 0⟩ (-(e.finish.y - e.start.y)) e.start.y)).bind
      (cutBy ⟨.up, maxY⟩ (e.finish.y - e.start.y) (maxY - e.start.y)) := by
  have hzero : @OfNat.ofNat ℚ 0 Scalar.literal = 0 := Exact.literal_zero
  simp only [Option.bind_assoc, Option.bind_some]
  rw [← hzero]
  rfl

/-- What is left of a segment is what lies in the rectangle. -/
theorem leaves_inside (e : Edge (Vec3 ℚ)) (maxX maxY : ℚ) :
    Leaves e (e.shown maxX maxY) (inside e maxX maxY) := by
  rw [inside_eq, Edge.shown_eq]
  refine ((((leaves_whole e).cut ?left).cut ?right).cut ?bottom).cut ?top
  case left =>
    intro t ht
    exact Side.pin_across (by rw [Edge.pointAt_x]; linarith)
  case right =>
    intro t ht
    exact Side.pin_across (by rw [Edge.pointAt_x]; linarith)
  case bottom =>
    intro t ht
    exact Side.pin_up (by rw [Edge.pointAt_y]; linarith)
  case top =>
    intro t ht
    exact Side.pin_up (by rw [Edge.pointAt_y]; linarith)

end Span

/-- A cut in the rectangle is at its point of the segment, with nothing moved. -/
theorem Cut.point_eq {e : Edge (Vec3 ℚ)} {maxX maxY ending : ℚ} {c : Cut ℚ}
    (h : c.Stands e ending) (hshown : c.parameter ∈ e.shown maxX maxY) :
    c.point e maxX maxY (e.pointAt ending) = e.pointAt c.parameter := by
  obtain ⟨-, ⟨hx, hx'⟩, hy, hy'⟩ := hshown
  obtain ⟨t, - | side⟩ := c
  · have ht : t = ending := h
    rw [ht]
    rfl
  · have hpin : side.pin (e.start + (e.finish - e.start).scale t) = e.pointAt t := h
    rw [Cut.point]
    dsimp only
    rw [hpin, Exact.literal_zero, Exact.clamp_eq (hx.trans hx'), Exact.clamp_eq (hy.trans hy'),
      min_eq_right hx', max_eq_right hx, min_eq_right hy', max_eq_right hy]

/-! ## The cells of what is left -/

/-- A point in the rectangle between the middles of the outermost cells has its cell in the
picture. -/
theorem Framebuffer.inRange_fragment {fb : Framebuffer} {p : Vec3 ℚ}
    (hx : 0 ≤ p.x ∧ p.x ≤ (fb.width - 1 : Int)) (hy : 0 ≤ p.y ∧ p.y ≤ (fb.height - 1 : Int)) :
    fb.InRange p.fragment.x p.fragment.y := by
  have cell {a : ℚ} {n : Int} (ha : 0 ≤ a ∧ a ≤ n) : 0 ≤ Exact.nearest a ∧ Exact.nearest a ≤ n := by
    have hlow := Exact.nearest_mono ha.1
    have hhigh := Exact.nearest_mono ha.2
    rw [Exact.nearest_intCast] at hhigh
    rw [← Int.cast_zero, Exact.nearest_intCast] at hlow
    exact ⟨hlow, hhigh⟩
  have hpx : p.fragment.x = Exact.nearest p.x := Exact.toInt_intCast _
  have hpy : p.fragment.y = Exact.nearest p.y := Exact.toInt_intCast _
  obtain ⟨hx, hx'⟩ := cell hx
  obtain ⟨hy, hy'⟩ := cell hy
  rw [hpx, hpy]
  exact ⟨hx, by omega, hy, by omega⟩

section Strokes

variable {α : Type} [Scalar α] {s : Stroke α} {fb : Framebuffer}

/-- A line between cells of the picture stays in the picture. -/
theorem Stroke.inRange_of_mem (hstart : fb.InRange s.start.x s.start.y)
    (hfinish : fb.InRange s.finish.x s.finish.y) {f : Fragment α} (hf : f ∈ s.fragments) :
    fb.InRange f.x f.y := by
  obtain ⟨n, i, j, p, h, hn, rfl⟩ := exists_isOn_of_mem hf
  obtain ⟨hi, hj, -⟩ := h.le hn
  obtain ⟨-, -, hx, hx'⟩ := steps_toward h.x hi
  obtain ⟨-, -, hy, hy'⟩ := steps_toward h.y hj
  obtain ⟨hsx, hsx', hsy, hsy'⟩ := hstart
  obtain ⟨hfx, hfx', hfy, hfy'⟩ := hfinish
  exact ⟨by omega, by omega, by omega, by omega⟩

/-- A line between cells of the picture has no more cells than a side of the picture. -/
theorem Stroke.length_fragments_le (hstart : fb.InRange s.start.x s.start.y)
    (hfinish : fb.InRange s.finish.x s.finish.y) :
    s.fragments.length ≤ max fb.width fb.height := by
  have hlen := s.length_eq
  obtain ⟨hsx, hsx', hsy, hsy'⟩ := hstart
  obtain ⟨hfx, hfx', hfy, hfy'⟩ := hfinish
  rw [fragments_eq, List.length_map, List.length_range]
  unfold across up at hlen
  omega

end Strokes

namespace Edge

/-- Clipping leaves nothing of a segment that has nothing in the rectangle, and else the part
between the first and the last point in it. -/
theorem clip_cases (e : Edge (Vec3 ℚ)) (maxX maxY : ℚ) :
    e.shown maxX maxY = ∅ ∧ e.clip maxX maxY = none ∨ ∃ t t', IsLeast (e.shown maxX maxY) t ∧
      IsGreatest (e.shown maxX maxY) t' ∧ e.clip maxX maxY = some ⟨e.pointAt t, e.pointAt t'⟩ := by
  have h := Span.leaves_inside e maxX maxY
  rw [clip]
  generalize Span.inside e maxX maxY = o at h
  cases h with
  | nothing hempty => exact .inl ⟨hempty, rfl⟩
  | @part s hle hIcc henter hleave =>
    have hleast : IsLeast (e.shown maxX maxY) s.enter.parameter := hIcc ▸ isLeast_Icc hle
    have hgreatest : IsGreatest (e.shown maxX maxY) s.leave.parameter := hIcc ▸ isGreatest_Icc hle
    have hstart := Cut.point_eq henter hleast.1
    have hfinish := Cut.point_eq hleave hgreatest.1
    rw [pointAt_zero] at hstart
    rw [pointAt_one] at hfinish
    refine .inr ⟨_, _, hleast, hgreatest, ?_⟩
    rw [Option.map_some, hstart, hfinish]

/-- The fragments of a segment are none, or the cells of a line between two cells of the picture. -/
theorem fragments_cases (e : Edge (Vec3 ℚ)) (fb : Framebuffer) :
    e.fragments fb.width fb.height = [] ∨ ∃ s : Stroke ℚ, fb.InRange s.start.x s.start.y ∧
      fb.InRange s.finish.x s.finish.y ∧ e.fragments fb.width fb.height = s.fragments := by
  rw [fragments]
  split
  · exact .inl rfl
  · rcases e.clip_cases (fb.width - 1 : Int) (fb.height - 1 : Int) with ⟨-, hclip⟩ |
      ⟨t, t', ⟨⟨-, hx, hy⟩, -⟩, ⟨⟨-, hx', hy'⟩, -⟩, hclip⟩
    · rw [Exact.ofInt_eq, Exact.ofInt_eq, hclip]
      exact .inl rfl
    · rw [Exact.ofInt_eq, Exact.ofInt_eq, hclip]
      exact .inr ⟨_, fb.inRange_fragment hx hy, fb.inRange_fragment hx' hy', rfl⟩

/-- Clipping leaves nothing just if no point of the segment lies in the rectangle, and else it
leaves the part between the first and the last point that does. So all that is drawn of a segment is
in the picture, and it has no more cells than the longer side of the picture. -/
theorem clip_exact_and_draws_inside (e : Edge (Vec3 ℚ)) :
    (∀ maxX maxY, (e.clip maxX maxY = none ↔ e.shown maxX maxY = ∅) ∧
      ∀ c, e.clip maxX maxY = some c ↔ ∃ t t', IsLeast (e.shown maxX maxY) t ∧
        IsGreatest (e.shown maxX maxY) t' ∧ c = ⟨e.pointAt t, e.pointAt t'⟩) ∧
    ∀ fb : Framebuffer, (∀ f ∈ e.fragments fb.width fb.height, fb.InRange f.x f.y) ∧
      (e.fragments fb.width fb.height).length ≤ max fb.width fb.height := by
  refine ⟨fun maxX maxY => ?_, fun fb => ?_⟩
  · rcases e.clip_cases maxX maxY with ⟨hempty, hclip⟩ | ⟨t, t', ht, ht', hclip⟩
    · rw [hclip, hempty]
      exact ⟨iff_of_true rfl rfl, fun c => iff_of_false nofun fun ⟨_, _, ht, _⟩ => ht.1⟩
    · rw [hclip]
      refine ⟨iff_of_false nofun (Set.nonempty_iff_ne_empty.1 ⟨t, ht.1⟩), fun c => ?_⟩
      rw [Option.some_inj]
      constructor
      · rintro rfl
        exact ⟨t, t', ht, ht', rfl⟩
      · rintro ⟨u, u', hu, hu', rfl⟩
        rw [ht.unique hu, ht'.unique hu']
  · rcases e.fragments_cases fb with hnone | ⟨s, hstart, hfinish, hs⟩
    · rw [hnone]
      exact ⟨nofun, Nat.zero_le _⟩
    · rw [hs]
      exact ⟨fun f hf => s.inRange_of_mem hstart hfinish hf, s.length_fragments_le hstart hfinish⟩

/-- A segment that touches the rectangle in a corner is cut to that corner. -/
example : (Edge.mk ⟨-1, 1, 0⟩ ⟨1, -1, 6⟩ : Edge (Vec3 ℚ)).clip 4 4 =
    some ⟨⟨0, 0, 3⟩, ⟨0, 0, 3⟩⟩ := by decide +kernel

end Edge

end SceneScript
