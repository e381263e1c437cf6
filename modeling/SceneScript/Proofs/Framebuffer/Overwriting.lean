import SceneScript.Proofs.Binary64.Truncation
import SceneScript.Proofs.Framebuffer.Depth

/-!
# Plots over what is already there

A depth is stored as a whole number of steps, divided back: a double that lies near the quotient but
need not be it. So a plot at the very depth that is stored can be refused, when the product with the
number of steps in a unit falls short of the whole number that it came from.

Every greater double is no such case. It is at least the quotient, since the stored depth is the
double nearest to that (`le_quantize_of_quantize_lt`), and multiplication, cutting and division all
keep the order (`quantize_mono`). The depths of a picture are all such quotients, or those of cells
that show nothing (`IsStepped`), whatever was plotted and cleared (`IsStepped.changeAll`).
-/

namespace SceneScript.Framebuffer

open Binary64
open Float.Model.Format (binary64)
open Float.Model.UnpackedFloat

variable {w z z' : Float}

/-! ## Depths in steps -/

theorem value_depthSteps : value depthSteps = 1000 := by
  have hbits : depthSteps.toBits = 0x408f400000000000 := by decide
  rw [value_of_toBits hbits]
  change signed .positive ((1000 * 2 ^ 43 : Nat) * 2 ^ (-43 : Int)) = _
  rw [signed, zpow_neg]
  norm_num

theorem value_depthSteps_pos : 0 < value depthSteps := by
  rw [value_depthSteps]
  norm_num

theorem isFinite_depthSteps : depthSteps.isFinite := by
  decide

theorem scales_steps : Scales (· * depthSteps) (value depthSteps) :=
  scales_mul isFinite_depthSteps value_depthSteps_pos

theorem scales_units : Scales (· / depthSteps) (value depthSteps)⁻¹ :=
  scales_div isFinite_depthSteps value_depthSteps_pos

/-- The steps of a depth, as a whole number. -/
def steps (z : Float) : Float := truncate (z * depthSteps)

theorem quantize_eq (z : Float) : quantize z = steps z / depthSteps := rfl

theorem isNaN_steps (hz : z.isNaN = false) : (steps z).isNaN = false :=
  isNaN_truncate (scales_steps.isNaN hz)

theorem isNaN_quantize (hz : z.isNaN = false) : (quantize z).isNaN = false :=
  scales_units.isNaN (isNaN_steps hz)

/-- What is not a number has no steps. -/
theorem isNaN_of_isNaN_quantize (hz : (quantize z).isNaN = false) : z.isNaN = false := by
  by_contra hnan
  rw [Bool.not_eq_false, Float.isNaN_eq_decide_eq_nan, decide_eq_true_eq] at hnan
  rw [hnan] at hz
  revert hz
  decide

/-- Counting steps keeps the order. -/
theorem quantize_mono (h : z ≤ z') : quantize z ≤ quantize z' :=
  scales_units.mono (inv_pos.2 value_depthSteps_pos)
    (truncate_mono (scales_steps.mono value_depthSteps_pos h))

/-- A depth greater than that of a whole number of steps makes that many steps. -/
theorem steps_le_mul (hw : w.isNaN = false) (hfin : (steps w).isFinite) (h : quantize w < z) :
    steps w ≤ z * depthSteps := by
  obtain ⟨-, hz, hlt⟩ := lt_iff_value.1 h
  refine le_iff_value.2 ⟨isNaN_steps hw, scales_steps.isNaN hz, ?_⟩
  have hround : Rounds (quantize w) (value (steps w) * (value depthSteps)⁻¹) :=
    scales_units.rounds (steps w) hfin
  -- no double lies between the quotient and the double nearest to it
  have hquotient : value (steps w) * (value depthSteps)⁻¹ ≤ value z := by
    by_contra hbelow
    exact hlt.not_ge (hround.le_value (isRepresentable_value z) (not_le.1 hbelow).le)
  rw [← div_eq_mul_inv, div_le_iff₀ value_depthSteps_pos] at hquotient
  rcases isFinite_or_infinity hz with hzfin | ⟨_ | _, hzs⟩
  · exact (scales_steps.rounds z hzfin).le_value (isRepresentable_value _) hquotient
  · rw [value_of_infinity hzs] at hlt
    exact absurd hlt (abs_le.1 (isRepresentable_value (quantize w)).1).1.not_gt
  · rw [value_of_infinity (scales_steps.infinity z _ hzs)]
    exact (abs_le.1 (isRepresentable_value (steps w)).1).2

/-- A depth greater than one that is stored is not cut below it. -/
theorem le_quantize_of_quantize_lt (hw : w.isNaN = false) (h : quantize w < z) :
    quantize w ≤ quantize z := by
  obtain ⟨-, hz, hlt⟩ := lt_iff_value.1 h
  rcases isFinite_or_infinity (isNaN_steps hw) with hfin | ⟨_ | _, hs⟩
  · have hle := truncate_mono (steps_le_mul hw hfin h)
    -- whole numbers of steps have nothing to be cut off
    have hwhole : steps w ≤ truncate (steps w) :=
      le_iff_value.2 ⟨isNaN_steps hw, isNaN_truncate (isNaN_steps hw),
        (value_truncate_truncate (scales_steps.isNaN hw)).ge⟩
    exact scales_units.mono (inv_pos.2 value_depthSteps_pos) (le_trans hwhole hle)
  · refine le_iff_value.2 ⟨isNaN_quantize hw, isNaN_quantize hz, ?_⟩
    rw [quantize_eq w, value_of_infinity (scales_units.infinity _ _ hs)]
    exact (abs_le.1 (isRepresentable_value (quantize z)).1).1
  · rw [quantize_eq w, value_of_infinity (scales_units.infinity _ _ hs)] at hlt
    exact absurd hlt (abs_le.1 (isRepresentable_value z).1).2.not_gt

/-! ## Changes -/

/-- One call that changes a picture. -/
inductive Change where
  | plot (p : Plot)
  | clearColor
  | clearDepth
  | clear
deriving Repr, DecidableEq

/-- The picture after a call. -/
def change (fb : Framebuffer) : Change → Framebuffer
  | .plot p => (fb.plot p.color p.x p.y p.depth).1
  | .clearColor => fb.clearColor
  | .clearDepth => fb.clearDepth
  | .clear => fb.clear

/-- The picture after calls one after the other. -/
def changeAll (fb : Framebuffer) (cs : List Change) : Framebuffer := cs.foldl change fb

variable {fb : Framebuffer} {x y : Int} {color color' : Color} {c : Cell}

/-- Every cell is as far as one that shows nothing, or has the depth of a whole number of steps. -/
def IsStepped (fb : Framebuffer) : Prop :=
  ∀ c ∈ fb.cells, c.depth = far ∨ ∃ w : Float, w.isNaN = false ∧ c.depth = quantize w

theorem isStepped_new (width height : Nat) (background : Color) :
    (new width height background).IsStepped := by
  intro c hc
  obtain ⟨-, rfl⟩ := Vector.mem_replicate.1 hc
  exact .inl rfl

/-- A plot stores a whole number of steps or leaves the picture as it is. -/
theorem IsStepped.plot (h : fb.IsStepped) (color : Color) (x y : Int) (z : Float) :
    (fb.plot color x y z).1.IsStepped := by
  rw [Framebuffer.plot]
  split
  · exact h
  · dsimp only
    split
    · next i _ hle =>
      intro c hc
      have hc : c ∈ fb.cells.set i ⟨color, quantize z⟩ := hc
      rcases Vector.mem_or_eq_of_mem_set hc with hc | rfl
      · exact h c hc
      · exact .inr ⟨z, isNaN_of_isNaN_quantize (isNaN_right hle), rfl⟩
    · exact h

theorem IsStepped.clearColor (h : fb.IsStepped) : fb.clearColor.IsStepped := by
  intro c hc
  obtain ⟨c', hc', rfl⟩ := Vector.mem_map.1 hc
  exact h c' hc'

theorem isStepped_clearDepth (fb : Framebuffer) : fb.clearDepth.IsStepped := by
  intro c hc
  obtain ⟨c, -, rfl⟩ := Vector.mem_map.1 hc
  exact .inl rfl

/-- One call keeps depths whole numbers of steps. -/
theorem IsStepped.change (h : fb.IsStepped) (call : Change) : (fb.change call).IsStepped := by
  cases call with
  | plot p => exact h.plot _ _ _ _
  | clearColor => exact h.clearColor
  | clearDepth | clear => exact isStepped_clearDepth _

/-- Any calls keep depths whole numbers of steps. -/
theorem IsStepped.changeAll (h : fb.IsStepped) (cs : List Change) :
    (fb.changeAll cs).IsStepped := by
  induction cs generalizing fb with
  | nil => exact h
  | cons call cs ih => exact ih (h.change call)

theorem inRange_change (call : Change) : (fb.change call).InRange x y ↔ fb.InRange x y := by
  cases call with
  | plot p => rw [InRange, change, width_plot, height_plot, InRange]
  | clearColor | clearDepth | clear => rfl

/-- A picture keeps its columns and rows. -/
theorem inRange_changeAll (cs : List Change) : (fb.changeAll cs).InRange x y ↔ fb.InRange x y := by
  induction cs generalizing fb with
  | nil => rfl
  | cons call cs ih => exact ih.trans (inRange_change call)

/-! ## Overwriting -/

/-- A plot lands: it says so, and its cell shows its color at its depth in steps. -/
def Lands (fb : Framebuffer) (color : Color) (x y : Int) (z : Float) : Prop :=
  (fb.plot color x y z).2 = true ∧
    (fb.plot color x y z).1.cell? x y = some ⟨color, quantize z⟩

/-- A plot lands just when what its cell shows is at most as near as its depth in steps, and else it
is refused. -/
theorem lands_iff (hc : fb.cell? x y = some c) : fb.Lands color x y z ↔ c.depth ≤ quantize z := by
  rw [Lands, plot_snd hc, decide_eq_true_eq, and_iff_left_of_imp]
  intro hle
  rw [cell?_plot, if_pos ⟨rfl, rfl⟩, hc, Option.map_some, Cell.cover, if_pos hle]

/-- A plot that does not land changes nothing. -/
theorem plot_eq_of_not_lands (hc : fb.cell? x y = some c) (h : ¬ fb.Lands color x y z) :
    fb.plot color x y z = (fb, false) := by
  rw [lands_iff hc] at h
  obtain ⟨i, hi, rfl⟩ := Option.map_eq_some_iff.1 hc
  rw [plot, hi]
  exact if_neg h

/-- Nothing is farther than a cell that shows nothing. -/
theorem far_le (hz : z.isNaN = false) : far ≤ z := by
  have hfar : far.toModel.unpack = .infinity .negative := rfl
  refine le_iff_value.2 ⟨isNaN_of_infinity hfar, hz, ?_⟩
  rw [value_of_infinity hfar]
  exact (abs_le.1 (isRepresentable_value z).1).1

/-- A stored depth is at most as near as any greater double, cut to steps. -/
theorem IsStepped.le_quantize (h : fb.IsStepped) (hc : fb.cell? x y = some c) (hlt : c.depth < z) :
    c.depth ≤ quantize z := by
  rcases h c (mem_of_cell? hc) with hfar | ⟨w, hw, hdepth⟩
  · rw [hfar]
    exact far_le (isNaN_quantize (lt_iff_value.1 hlt).2.1)
  · rw [hdepth] at hlt ⊢
    exact le_quantize_of_quantize_lt hw hlt

/-- At or above the stored depth a plot lands when it is above, or when the stored depth outlasts
being cut to steps once more. -/
theorem IsStepped.lands_iff (h : fb.IsStepped) (hc : fb.cell? x y = some c) (hle : c.depth ≤ z) :
    fb.Lands color x y z ↔ c.depth < z ∨ c.depth ≤ quantize c.depth := by
  rw [Framebuffer.lands_iff hc]
  constructor
  · intro hlands
    refine (lt_or_le_of_le hle).imp_right fun hge => ?_
    exact le_trans hlands (quantize_mono hge)
  · rintro (hlt | hself)
    · exact h.le_quantize hc hlt
    · exact le_trans hself (quantize_mono hle)

/-- A plot that is as near as the one that landed lands on it. -/
theorem Lands.lands (h : fb.Lands color x y z) (hle : z ≤ z') :
    (fb.plot color x y z).1.Lands color' x y z' :=
  (lands_iff h.2).2 (quantize_mono hle)

/-- Which plots land on a picture that was painted and cleared in any way. At or above the depth
that a cell has, a plot that is above lands. One that is as near as the cell lands if the depth that
is stored there, cut to steps once more, is no farther, and else it changes nothing. And a plot that
is as near as the one just landed, by the depths that both were given, lands on it. -/
theorem nearer_plots_land (width height : Nat) (background : Color) (calls : List Change)
    {x y : Int} (h : (new width height background).InRange x y) :
    let fb := (new width height background).changeAll calls
    ∃ c, fb.cell? x y = some c ∧
      (∀ color z, c.depth ≤ z →
        (fb.Lands color x y z ↔ c.depth < z ∨ c.depth ≤ quantize c.depth) ∧
        (¬ fb.Lands color x y z → fb.plot color x y z = (fb, false))) ∧
      (∀ color z, fb.Lands color x y z →
        ∀ color' z', z ≤ z' → (fb.plot color x y z).1.Lands color' x y z') := by
  intro fb
  obtain ⟨c, hc⟩ := exists_cell? ((inRange_changeAll calls).2 h)
  have hstepped : fb.IsStepped := (isStepped_new width height background).changeAll calls
  exact ⟨c, hc, fun color z hle => ⟨hstepped.lands_iff hc hle, plot_eq_of_not_lands hc⟩,
    fun color z hlands color' z' hle => hlands.lands hle⟩

/-- A cell at one step above a unit is painted by the next step. -/
theorem nearer_plots_land_next_step :
    (new 1 1 (.gray 127)).InRange 0 0 ∧
      ((new 1 1 (.gray 127)).changeAll [.clear, .plot ⟨.gray 1, 0, 0, 1.0015⟩]).Lands
        (.gray 2) 0 0 1.002 := by
  have hrange : (new 1 1 (.gray 127)).InRange 0 0 := ⟨by decide, by decide, by decide, by decide⟩
  obtain ⟨c, hc, hland, -⟩ := nearer_plots_land 1 1 (.gray 127)
    [.clear, .plot ⟨.gray 1, 0, 0, 1.0015⟩] hrange
  obtain rfl : ⟨.gray 1, 1.001⟩ = c := Option.some.inj (by rw [← hc]; decide +kernel)
  have hlt : (1.001 : Float) < 1.002 := by decide +kernel
  have hle : (1.001 : Float) ≤ 1.002 := by decide +kernel
  exact ⟨hrange, (hland (.gray 2) 1.002 hle).1.2 (.inl hlt)⟩

/-- A plot at the very depth that is stored can be refused: `1.001 * 1000` is cut to `1000`. -/
theorem plot_at_stored_depth_refused :
    let fb := (new 1 1 (.gray 127)).changeAll [.plot ⟨⟨255, 0, 0⟩, 0, 0, 1.0015⟩]
    fb.cell? 0 0 = some ⟨⟨255, 0, 0⟩, 1.001⟩ ∧ (1.001 : Float) ≤ 1.001 ∧
      fb.plot ⟨0, 0, 255⟩ 0 0 1.001 = (fb, false) := by
  decide +kernel

end SceneScript.Framebuffer
