import Mathlib.Data.Set.Card
import SceneScript.Proofs.Framebuffer.Drawing
import SceneScript.Proofs.Framebuffer.Overwriting
import SceneScript.Proofs.Raster.Clipping
import SceneScript.Proofs.Raster.Reversal
import SceneScript.Proofs.Raster.Uncut

/-!
# Lines from either end

A line of one depth is painted on every cell that it has, if the picture showed nothing before
(`painted_clear`): its depths are all of one value (`Stroke.value_depth`), and none of them is
refused. So which cells are painted is a matter of the cells alone. From its two ends a line has the
same cells unless it passes midway between two of them, and there the pens from the two ends choose
differently.
-/

namespace SceneScript

open Binary64

/-! ## Depths along a line -/

namespace Stroke

variable {s : Stroke Float}

/-- The depth of a line does not change from step to step if it is the same at both ends. -/
theorem value_slope (hstart : s.start.depth.isFinite) (hfinish : s.finish.depth.isFinite)
    (hz : value s.start.depth = value s.finish.depth) (hlen : (s.length : Int) ≤ maxInt) :
    s.slope.isFinite ∧ value s.slope = 0 := by
  have finite {x : Float} (hx : x.isNaN = false) (h0 : value x = 0) : x.isFinite ∧ value x = 0 := by
    refine ⟨isFinite_of_abs_lt hx ?_, h0⟩
    rw [h0, abs_zero]
    exact overflow_pos
  rw [slope]
  split
  · exact finite (rounds_ofInt 0).isNaN Span.value_scalar_zero
  · next hne =>
    have hsub := rounds_sub hfinish hstart
    rw [← hz, sub_self] at hsub
    obtain ⟨hsubfin, hsub⟩ := finite hsub.isNaN (hsub.value_eq isRepresentable_zero)
    have hone : (1 : ℚ) ≤ value (ofInt s.length) :=
      (rounds_ofInt s.length).le_value isRepresentable_one (mod_cast Nat.pos_of_ne_zero hne)
    have hdiv := rounds_div hsubfin (isFinite_ofInt hlen) (by linarith)
    rw [hsub, zero_div] at hdiv
    exact finite hdiv.isNaN (hdiv.value_eq isRepresentable_zero)

/-- All depths along a line are of one value if those of its ends are. -/
theorem value_depth (hstart : s.start.depth.isFinite) (hfinish : s.finish.depth.isFinite)
    (hz : value s.start.depth = value s.finish.depth) (hlen : (s.length : Int) ≤ maxInt)
    {f : Fragment Float} (hf : f ∈ s.fragments) :
    f.depth.isFinite ∧ value f.depth = value s.start.depth := by
  obtain ⟨hslope, hslope0⟩ := value_slope hstart hfinish hz hlen
  have hpen (n : Nat) : (s.penAfter n).tip.depth.isFinite ∧
      value (s.penAfter n).tip.depth = value s.start.depth := by
    induction n with
    | zero => exact ⟨hstart, rfl⟩
    | succ n ih =>
      obtain ⟨hfin, hvalue⟩ := ih
      have hadd := rounds_add hfin hslope
      rw [hslope0, add_zero] at hadd
      have heq := hadd.value_eq (isRepresentable_value _)
      rw [penAfter_succ]
      exact ⟨isFinite_of_abs_lt hadd.isNaN (heq ▸ abs_value_lt hfin), heq.trans hvalue⟩
  rw [fragments_eq] at hf
  obtain ⟨n, -, rfl⟩ := List.mem_map.1 hf
  exact hpen n

end Stroke

namespace Framebuffer

variable {fb : Framebuffer} {x y : Int} {color : Color} {p : Plot} {ps before : List Plot}

/-! ## Painted cells -/

/-- The cells on which plots are painted, one after the other: those where the call says so. -/
def painted (fb : Framebuffer) (ps : List Plot) : Set (Int × Int) :=
  { c | ∃ before p after, ps = before ++ p :: after ∧ (p.x, p.y) = c ∧
    ((fb.plotAll before).plot p.color p.x p.y p.depth).2 = true }

/-- The picture shows a color on some cells, and its background on all others. -/
def ShowsOn (fb : Framebuffer) (color : Color) (cells : Set (Int × Int)) : Prop :=
  ∀ x y c, fb.cell? x y = some c →
    ((x, y) ∈ cells → c.color = color) ∧ ((x, y) ∉ cells → c.color = fb.background)

/-- The cells of a picture that shows nothing. -/
theorem cell?_clear (h : fb.InRange x y) : fb.clear.cell? x y = some ⟨fb.background, far⟩ := by
  obtain ⟨c, hc⟩ : ∃ c, fb.clear.cell? x y = some c := exists_cell? h
  have hmem := mem_of_cell? hc
  rw [clear_eq_new] at hmem
  obtain ⟨-, rfl⟩ := Vector.mem_replicate.1 hmem
  exact hc

/-- Of plots of one depth none is nearer than another one. -/
theorem le_level {v : ℚ} (hz : ∀ p ∈ ps, p.depth.isFinite ∧ value p.depth = v) (hp : p ∈ ps)
    (hsub : before ⊆ ps) :
    ∀ d ∈ depthsAt x y ⟨color, far⟩ before, d ≤ p.level := by
  obtain ⟨hfin, hvalue⟩ := hz p hp
  have hnan := isNaN_of_isFinite hfin
  intro d hd
  rcases List.mem_cons.1 hd with rfl | hd
  · exact far_le (isNaN_quantize hnan)
  · obtain ⟨r, hr, rfl⟩ := List.mem_map.1 (List.mem_of_mem_filter hd)
    obtain ⟨hrfin, hrvalue⟩ := hz r (hsub (List.mem_of_mem_filter hr))
    exact quantize_mono (le_iff_value.2
      ⟨isNaN_of_isFinite hrfin, hnan, (hrvalue.trans hvalue.symm).le⟩)

/-- Plots of one depth on a picture that shows nothing are all painted. -/
theorem painted_clear {v : ℚ} (hrange : ∀ p ∈ ps, fb.InRange p.x p.y)
    (hz : ∀ p ∈ ps, p.depth.isFinite ∧ value p.depth = v) :
    fb.clear.painted ps = { c | ∃ p ∈ ps, (p.x, p.y) = c } := by
  ext c
  constructor
  · rintro ⟨before, p, after, rfl, hc, -⟩
    exact ⟨p, by simp, hc⟩
  · rintro ⟨p, hp, hc⟩
    obtain ⟨before, after, rfl⟩ := List.append_of_mem hp
    obtain ⟨c', hc', hist⟩ := history_plotAll (cell?_clear (hrange p hp))
      (show far.isNaN = false by decide) before
    refine ⟨before, p, after, rfl, hc, ?_⟩
    rw [plot_snd hc', decide_eq_true_eq, hist.depth_le_iff]
    exact ⟨isNaN_quantize (isNaN_of_isFinite (hz p hp).1),
      le_level hz hp (List.subset_append_left before _)⟩

/-- What is painted in one color on a picture that shows nothing is what it shows then. -/
theorem showsOn_painted {v : ℚ} (hrange : ∀ p ∈ ps, fb.InRange p.x p.y)
    (hz : ∀ p ∈ ps, p.depth.isFinite ∧ value p.depth = v) (hcolor : ∀ p ∈ ps, p.color = color) :
    (fb.clear.plotAll ps).ShowsOn color (fb.clear.painted ps) := by
  intro x y c hc
  have hr : fb.InRange x y := by
    by_contra hn
    have hnone : (fb.clear.plotAll ps).cell? x y = none := cell?_eq_none (mt inRange_plotAll.1 hn)
    rw [hnone] at hc
    cases hc
  obtain ⟨c', hc', hist⟩ := history_plotAll (cell?_clear hr) (show far.isNaN = false by decide) ps
  obtain rfl := Option.some.inj (hc.symm.trans hc')
  rw [hist.color, background_plotAll, painted_clear hrange hz]
  constructor
  · rintro ⟨p, hp, hxy⟩
    have hat : p.isAt x y = true := by simpa [Plot.isAt] using hxy
    have hfront : p ∈ ps.filter fun p =>
        p.isAt x y && decide (∀ d ∈ depthsAt x y ⟨fb.background, far⟩ ps, d ≤ p.level) := by
      refine List.mem_filter.2 ⟨hp, ?_⟩
      rw [hat, Bool.true_and, decide_eq_true_eq]
      exact le_level hz hp (List.Subset.refl ps)
    obtain ⟨q, hq⟩ := Option.ne_none_iff_exists'.1
      (mt List.getLast?_eq_none_iff.1 (List.ne_nil_of_mem hfront))
    rw [foremost?, hq]
    exact hcolor q (List.mem_of_mem_filter (List.mem_of_getLast? hq))
  · intro hnot
    have hnone : foremost? x y ⟨fb.background, far⟩ ps = none := by
      rw [foremost?, List.getLast?_eq_none_iff, List.filter_eq_nil_iff]
      intro p hp hfront
      have hat := (Bool.and_eq_true_iff.1 hfront).1
      exact hnot ⟨p, hp, by simpa [Plot.isAt] using hat⟩
    rw [hnone]
    rfl

/-! ## Lines between middles of cells -/

/-- The cells that an edge is painted on. -/
def paintedBy (fb : Framebuffer) (color : Color) (e : Edge (Vec3 Float)) : Set (Int × Int) :=
  fb.painted (e.plots color fb.width fb.height)

section Middles

variable {x' y' : Int} {p q : Vec3 Float} {r : Plot}

/-- The plots of a line between middles of two cells at one depth lie in the picture, at that depth
and in one color. -/
theorem IsMiddle.plot_cases (hp : fb.IsMiddle x y p) (hq : fb.IsMiddle x' y' q)
    (hpz : p.z.isFinite) (hqz : q.z.isFinite) (hz : value p.z = value q.z)
    (hr : r ∈ (Edge.mk p q).plots color fb.width fb.height) :
    fb.InRange r.x r.y ∧ (r.depth.isFinite ∧ value r.depth = value p.z) ∧ r.color = color := by
  let s : Stroke Float := ⟨⟨x, y, p.z⟩, ⟨x', y', q.z⟩⟩
  rw [Edge.plots, hp.fragments_eq hq] at hr
  obtain ⟨f, hf, rfl⟩ := List.mem_map.1 hr
  have hlen : (s.length : Int) ≤ maxInt := by
    obtain ⟨hx, -, hy, -⟩ := hp.inRange
    obtain ⟨hx', -, hy', -⟩ := hq.inRange
    have hxmax := hp.x_le
    have hymax := hp.y_le
    have hxmax' := hq.x_le
    have hymax' := hq.y_le
    rw [s.length_eq, Stroke.across, Stroke.up]
    dsimp only [s]
    omega
  exact ⟨Stroke.inRange_of_mem (s := s) hp.inRange hq.inRange hf,
    Stroke.value_depth (s := s) hpz hqz hz hlen hf, rfl⟩

/-- Such a line is painted on its cells, each of which is in front of a picture that showed
nothing. -/
theorem IsMiddle.paintedBy_eq (hp : fb.IsMiddle x y p) (hq : fb.IsMiddle x' y' q)
    (hpz : p.z.isFinite) (hqz : q.z.isFinite) (hz : value p.z = value q.z) (color : Color) :
    fb.clear.paintedBy color ⟨p, q⟩ =
      { c | c ∈ (Stroke.mk ⟨x, y, p.z⟩ ⟨x', y', q.z⟩).cells } := by
  have hplots {r : Plot} (hr : r ∈ (Edge.mk p q).plots color fb.width fb.height) :=
    hp.plot_cases hq hpz hqz hz hr
  have hpainted := painted_clear (fun r hr => (hplots hr).1) (fun r hr => (hplots hr).2.1)
  rw [paintedBy]
  refine hpainted.trans (Set.ext fun c => ?_)
  rw [Edge.plots, hp.fragments_eq hq, Stroke.cells]
  simp only [Set.mem_ofPred_eq, List.mem_map, exists_exists_and_eq_and, Fragment.plot]

theorem IsMiddle.showsOn_paintedBy (hp : fb.IsMiddle x y p) (hq : fb.IsMiddle x' y' q)
    (hpz : p.z.isFinite) (hqz : q.z.isFinite) (hz : value p.z = value q.z) (color : Color) :
    (fb.clear.drawEdge color ⟨p, q⟩).ShowsOn color (fb.clear.paintedBy color ⟨p, q⟩) := by
  have hplots {r : Plot} (hr : r ∈ (Edge.mk p q).plots color fb.width fb.height) :=
    hp.plot_cases hq hpz hqz hz hr
  have hshows := showsOn_painted (fun r hr => (hplots hr).1) (fun r hr => (hplots hr).2.1)
    (fun r hr => (hplots hr).2.2)
  rwa [drawEdge, paint_eq_plotAll]

/-- A line at one depth, drawn from either of its ends on a picture that shows nothing. Each of the
two pictures shows the color on the cells that the line is painted on there, and the background on
all others. These are as many cells from the one end as from the other, one for each step of the
longer way. They are the same cells just if the line does not leave its cell, or if its longer way
is an odd multiple of what is common to both ways. And a cell that is painted from one end alone is
exactly half a cell off the ideal line. -/
theorem lines_from_either_end (hp : fb.IsMiddle x y p) (hq : fb.IsMiddle x' y' q)
    (hpz : p.z.isFinite) (hqz : q.z.isFinite) (hz : value p.z = value q.z) (color : Color) :
    let forth := fb.clear.paintedBy color ⟨p, q⟩
    let back := fb.clear.paintedBy color ⟨q, p⟩
    let dx := (x' - x).natAbs
    let dy := (y' - y).natAbs
    (fb.clear.drawEdge color ⟨p, q⟩).ShowsOn color forth ∧
      (fb.clear.drawEdge color ⟨q, p⟩).ShowsOn color back ∧
      forth.ncard = max dx dy + 1 ∧ back.ncard = max dx dy + 1 ∧
      (forth = back ↔ (x = x' ∧ y = y') ∨ Odd (max dx dy / Nat.gcd dx dy)) ∧
      ∀ c, ¬ (c ∈ forth ↔ c ∈ back) →
        2 * |(c.2 - y) * (x' - x) - (c.1 - x) * (y' - y)| = (max dx dy : Nat) := by
  intro forth back dx dy
  let s : Stroke Float := ⟨⟨x, y, p.z⟩, ⟨x', y', q.z⟩⟩
  have hforth : forth = { c | c ∈ s.cells } := hp.paintedBy_eq hq hpz hqz hz color
  have hback : back = { c | c ∈ s.reverse.cells } := hq.paintedBy_eq hp hqz hpz hz.symm color
  have hlength : s.length = max dx dy := by
    rw [← Int.ofNat_inj, s.length_eq]
    exact (Nat.cast_max ..).symm
  have hshorter : s.shorter = min dx dy := by
    change (min ((x' - x).natAbs : Int) (y' - y).natAbs).toNat = min (x' - x).natAbs (y' - y).natAbs
    omega
  have hcommon : Nat.gcd s.length s.shorter = Nat.gcd dx dy := by
    rw [hlength, hshorter]
    rcases Nat.le_total dx dy with h | h
    · rw [max_eq_right h, min_eq_left h, Nat.gcd_comm]
    · rw [max_eq_left h, min_eq_right h]
  have hcard (s : Stroke Float) : { c | c ∈ s.cells }.ncard = s.length + 1 := by
    have hset : { c | c ∈ s.cells } = (s.cells.toFinset : Set (Int × Int)) := by simp
    rw [hset, Set.ncard_coe_finset, List.toFinset_card_of_nodup s.nodup_cells, s.cells_eq,
      List.length_map, List.length_range]
  refine ⟨hp.showsOn_paintedBy hq hpz hqz hz color, hq.showsOn_paintedBy hp hqz hpz hz.symm color,
    ?_, ?_, ?_, fun c hc => ?_⟩
  · rw [hforth, hcard, hlength]
  · rw [hback, hcard, Stroke.length_reverse, hlength]
  · have hsame : forth = back ↔ ∀ c, c ∈ s.cells ↔ c ∈ s.reverse.cells := by
      rw [hforth, hback, Set.ext_iff]
      rfl
    rw [hsame, Stroke.cells_reverse_iff, Stroke.exists_isMidway_iff, hcommon, hlength, not_and_or,
      Nat.not_even_iff_odd]
    refine or_congr_left ?_
    simp only [dx, dy]
    omega
  · rw [hforth, hback] at hc
    rw [← hlength]
    exact Stroke.offset_of_not_iff (s := s) (c := c) hc

/-- A line over thirteen columns and six rows has the same cells from either end. -/
theorem lines_from_either_end_odd :
    let fb := new 20 20 (.gray 0)
    let p : Vec3 Float := ⟨ofInt 2, ofInt 3, 0.0⟩
    let q : Vec3 Float := ⟨ofInt 15, ofInt 9, 0.0⟩
    fb.IsMiddle 2 3 p ∧ fb.IsMiddle 15 9 q ∧ p.z.isFinite ∧ q.z.isFinite ∧ value p.z = value q.z ∧
      fb.clear.paintedBy ⟨0, 255, 255⟩ ⟨p, q⟩ = fb.clear.paintedBy ⟨0, 255, 255⟩ ⟨q, p⟩ := by
  intro fb p q
  have hp : fb.IsMiddle 2 3 p := .ofInt ⟨by decide, by decide, by decide, by decide⟩ (by norm_num)
    (by norm_num) _
  have hq : fb.IsMiddle 15 9 q := .ofInt ⟨by decide, by decide, by decide, by decide⟩ (by norm_num)
    (by norm_num) _
  have hz : (0.0 : Float).isFinite := by decide
  obtain ⟨-, -, -, -, hsame, -⟩ := lines_from_either_end hp hq hz hz rfl ⟨0, 255, 255⟩
  exact ⟨hp, hq, hz, hz, rfl, hsame.2 (.inr (by decide))⟩

/-- A line over four columns and two rows passes midway between cells, and from its other end it is
not painted on the same ones. -/
theorem line_differs_by_direction :
    let fb := new 5 3 (.gray 127)
    let color : Color := ⟨0, 255, 255⟩
    let p : Vec3 Float := ⟨ofInt 0, ofInt 0, 0.0⟩
    let q : Vec3 Float := ⟨ofInt 4, ofInt 2, 0.0⟩
    fb.IsMiddle 0 0 p ∧ fb.IsMiddle 4 2 q ∧ p.z.isFinite ∧ q.z = p.z ∧
      (fb.clear.drawEdge color ⟨p, q⟩).cell? 3 2 = some ⟨color, 0.0⟩ ∧
      (fb.clear.drawEdge color ⟨q, p⟩).cell? 3 2 = some ⟨fb.background, far⟩ ∧
      fb.clear.paintedBy color ⟨p, q⟩ ≠ fb.clear.paintedBy color ⟨q, p⟩ := by
  intro fb color p q
  have hp : fb.IsMiddle 0 0 p := .ofInt ⟨by decide, by decide, by decide, by decide⟩ (by norm_num)
    (by norm_num) _
  have hq : fb.IsMiddle 4 2 q := .ofInt ⟨by decide, by decide, by decide, by decide⟩ (by norm_num)
    (by norm_num) _
  have hz : (0.0 : Float).isFinite := by decide
  have hforth : (fb.clear.drawEdge color ⟨p, q⟩).cell? 3 2 = some ⟨color, 0.0⟩ := by decide +kernel
  have hback : (fb.clear.drawEdge color ⟨q, p⟩).cell? 3 2 = some ⟨fb.background, far⟩ := by
    decide +kernel
  refine ⟨hp, hq, hz, rfl, hforth, hback, fun hsame => ?_⟩
  -- the cell is painted from the one end, and shows the background from the other
  have hnot : (3, 2) ∉ fb.clear.paintedBy color ⟨p, q⟩ := by
    rw [hsame]
    intro hmem
    have hink := (hq.showsOn_paintedBy hp hz hz rfl color 3 2 _ hback).1 hmem
    exact absurd hink (by decide)
  have hpaper := (hp.showsOn_paintedBy hq hz hz rfl color 3 2 _ hforth).2 hnot
  rw [drawEdge, paint_eq_plotAll, background_plotAll] at hpaper
  exact absurd hpaper (by decide)

end Middles

end Framebuffer

end SceneScript
