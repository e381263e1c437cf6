import Mathlib.Data.List.Induction
import SceneScript.Proofs.Binary64.Order
import SceneScript.Proofs.Framebuffer.Places

/-!
# What a history of plots leaves behind

Plots at other places do not matter to a cell, so what it shows after any history is decided by the
plots at its own place (`cell?_plotAll_filter`). Their depths are compared in steps, with the one
that the cell had at first (`depthsAt`). The cell ends at the greatest of these, and shows the last
plot that was at least as near as all of them, earlier or later, or what it showed at first if there
is none (`History`, `history_plotAll`). A depth that is not a number is in no order to others, and
such a plot is lost.

The invariant goes along the history plot by plot (`History.cover`). A plot that is painted is at
least as near as all before it, so it takes over. One that is not painted is farther than the
greatest depth, so it cannot take over later either, and whoever was in front stays there.
-/

namespace SceneScript

open Binary64

/-- One call to paint a cell. -/
structure Plot where
  color : Color
  x : Int
  y : Int
  depth : Float
deriving Repr, DecidableEq

namespace Plot

/-- The plot goes to the column and the row. -/
def isAt (x y : Int) (p : Plot) : Bool := p.x = x && p.y = y

/-- The depth that is compared, in whole steps. -/
def level (p : Plot) : Float := Framebuffer.quantize p.depth

end Plot

namespace Framebuffer

/-- Plot one after the other. -/
def plotAll (fb : Framebuffer) (ps : List Plot) : Framebuffer :=
  ps.foldl (fun fb p => (fb.plot p.color p.x p.y p.depth).1) fb

/-- No cell has a depth that is not a number. -/
def IsNumeric (fb : Framebuffer) : Prop := ∀ c ∈ fb.cells, c.depth.isNaN = false

/-- The depths that compete for a cell: the one it had at first and those plotted there, as far as
they are numbers. -/
def depthsAt (x y : Int) (c : Cell) (ps : List Plot) : List Float :=
  c.depth :: ((ps.filter (·.isAt x y)).map Plot.level).filter (!·.isNaN)

/-- The last plot at a place that is at least as near as everything that competes for it. -/
def foremost? (x y : Int) (c : Cell) (ps : List Plot) : Option Plot :=
  (ps.filter fun p => p.isAt x y && decide (∀ d ∈ depthsAt x y c ps, d ≤ p.level)).getLast?

/-! ## One cell -/

/-- What has become of a cell: its depth is the greatest of those that competed, and it shows the
plot in front. -/
structure History (x y : Int) (c : Cell) (ps : List Plot) (c' : Cell) : Prop where
  mem : c'.depth ∈ depthsAt x y c ps
  le : ∀ d ∈ depthsAt x y c ps, d ≤ c'.depth
  color : c'.color = ((foremost? x y c ps).map Plot.color).getD c.color

variable {x y : Int} {c c' : Cell} {ps : List Plot} {p : Plot}

/-- A cell that nothing was plotted at shows what it showed at first. -/
theorem History.nil (hc : c.depth.isNaN = false) : History x y c [] c where
  mem := List.mem_singleton_self _
  le d hd := by
    rw [List.mem_singleton.1 hd]
    exact le_self hc
  color := rfl

/-- A further plot at the place competes if its depth is a number. -/
theorem depthsAt_concat (hp : p.isAt x y = true) :
    depthsAt x y c (ps ++ [p]) =
      depthsAt x y c ps ++ if p.level.isNaN then [] else [p.level] := by
  rw [depthsAt, List.filter_append, List.filter_cons_of_pos hp, List.map_append, List.filter_append,
    depthsAt, List.cons_append]
  congr 2
  change List.filter _ [p.level] = _
  rw [List.filter_cons, List.filter_nil]
  cases p.level.isNaN <;> rfl

/-- The plot in front after one more plot. -/
theorem foremost?_concat_of_le (hp : p.isAt x y = true)
    (h : ∀ d ∈ depthsAt x y c (ps ++ [p]), d ≤ p.level) : foremost? x y c (ps ++ [p]) = some p := by
  rw [foremost?, List.filter_append, List.filter_cons_of_pos (by simpa [hp] using h)]
  simp

/-- A plot at the place that is not as near as some other has no part in who is in front. -/
theorem foremost?_concat_of_not_le {z : Float} (hp : p.isAt x y = true)
    (hz : z ∈ depthsAt x y c ps) (hle : ∀ d ∈ depthsAt x y c (ps ++ [p]), d ≤ z)
    (hpz : ¬ z ≤ p.level) : foremost? x y c (ps ++ [p]) = foremost? x y c ps := by
  have hsub : ∀ d ∈ depthsAt x y c ps, d ∈ depthsAt x y c (ps ++ [p]) := by
    intro d hd
    rw [depthsAt_concat hp]
    exact List.mem_append_left _ hd
  have hfar : ¬ ∀ d ∈ depthsAt x y c (ps ++ [p]), d ≤ p.level := fun h => hpz (h z (hsub z hz))
  rw [foremost?, List.filter_append, List.filter_cons_of_neg (by simpa [hp] using hfar),
    List.filter_nil, List.append_nil, foremost?]
  congr 1
  refine List.filter_congr fun q _ => congrArg (q.isAt x y && ·) (decide_eq_decide.2 ?_)
  exact ⟨fun h d hd => h d (hsub d hd), fun h d hd => le_trans (hle d hd) (h z hz)⟩

/-- One more plot there, and the cell is as the whole history says. -/
theorem History.cover (h : History x y c ps c') (hp : p.isAt x y = true) :
    History x y c (ps ++ [p]) (c'.cover p.color p.level) := by
  unfold Cell.cover
  by_cases hz : c'.depth ≤ p.level
  · rw [if_pos hz]
    have hn := isNaN_right hz
    have hd : depthsAt x y c (ps ++ [p]) = depthsAt x y c ps ++ [p.level] := by
      rw [depthsAt_concat hp, hn]
      rfl
    have hle : ∀ d ∈ depthsAt x y c (ps ++ [p]), d ≤ p.level := by
      intro d hmem
      rw [hd] at hmem
      rcases List.mem_append.1 hmem with hmem | hmem
      · exact le_trans (h.le d hmem) hz
      · rw [List.mem_singleton.1 hmem]
        exact le_self hn
    refine ⟨?_, hle, ?_⟩
    · rw [hd]
      exact List.mem_append_right _ (List.mem_singleton_self _)
    · rw [foremost?_concat_of_le hp hle]
      rfl
  · rw [if_neg hz]
    -- the plot is farther than the greatest depth, or its depth is not a number and in no order
    have hle : ∀ d ∈ depthsAt x y c (ps ++ [p]), d ≤ c'.depth := by
      intro d hmem
      rw [depthsAt_concat hp] at hmem
      rcases List.mem_append.1 hmem with hmem | hmem
      · exact h.le d hmem
      · cases hn : p.level.isNaN with
        | true =>
          rw [hn, if_pos rfl] at hmem
          cases hmem
        | false =>
          rw [hn, if_neg Bool.false_ne_true] at hmem
          obtain rfl := List.mem_singleton.1 hmem
          have hc := isNaN_left (h.le _ h.mem)
          exact (le_total hc hn).resolve_left hz
    refine ⟨?_, hle, ?_⟩
    · rw [depthsAt_concat hp]
      exact List.mem_append_left _ h.mem
    · rw [foremost?_concat_of_not_le hp h.mem hle hz]
      exact h.color

/-- What competes for a cell is plotted there. -/
theorem depthsAt_concat_of_not_isAt (hp : p.isAt x y = false) :
    depthsAt x y c (ps ++ [p]) = depthsAt x y c ps := by
  rw [depthsAt, List.filter_append, List.filter_cons_of_neg (by simp [hp]), List.filter_nil,
    List.append_nil, depthsAt]

/-- One more plot somewhere else, and the cell is as it was. -/
theorem History.elsewhere (h : History x y c ps c') (hp : p.isAt x y = false) :
    History x y c (ps ++ [p]) c' where
  mem := by
    rw [depthsAt_concat_of_not_isAt hp]
    exact h.mem
  le := by
    rw [depthsAt_concat_of_not_isAt hp]
    exact h.le
  color := by
    rw [foremost?, depthsAt_concat_of_not_isAt hp, List.filter_append,
      List.filter_cons_of_neg (by simp [hp]), List.filter_nil, List.append_nil]
    exact h.color

/-- Further paint goes over the cell if it is at least as near as everything before. -/
theorem History.depth_le_iff (h : History x y c ps c') (z : Float) :
    c'.depth ≤ z ↔ z.isNaN = false ∧ ∀ d ∈ depthsAt x y c ps, d ≤ z := by
  constructor
  · intro hz
    exact ⟨isNaN_right hz, fun d hd => le_trans (h.le d hd) hz⟩
  · rintro ⟨-, hz⟩
    exact hz _ h.mem

/-! ## The whole picture -/

variable {fb : Framebuffer}

theorem plotAll_concat (fb : Framebuffer) (ps : List Plot) (p : Plot) :
    fb.plotAll (ps ++ [p]) = ((fb.plotAll ps).plot p.color p.x p.y p.depth).1 :=
  List.foldl_append

@[simp] theorem width_plotAll (fb : Framebuffer) (ps : List Plot) :
    (fb.plotAll ps).width = fb.width := by
  induction ps generalizing fb with
  | nil => rfl
  | cons p ps ih => exact (ih _).trans (width_plot ..)

@[simp] theorem height_plotAll (fb : Framebuffer) (ps : List Plot) :
    (fb.plotAll ps).height = fb.height := by
  induction ps generalizing fb with
  | nil => rfl
  | cons p ps ih => exact (ih _).trans (height_plot ..)

@[simp] theorem background_plotAll (fb : Framebuffer) (ps : List Plot) :
    (fb.plotAll ps).background = fb.background := by
  induction ps generalizing fb with
  | nil => rfl
  | cons p ps ih => exact (ih _).trans (background_plot ..)

/-- A picture has the same columns and rows after any history. -/
theorem inRange_plotAll : (fb.plotAll ps).InRange x y ↔ fb.InRange x y := by
  simp only [InRange, width_plotAll, height_plotAll]

/-- One more plot is seen at its own place. -/
theorem cell?_plotAll_concat (fb : Framebuffer) (ps : List Plot) (p : Plot) (x y : Int) :
    (fb.plotAll (ps ++ [p])).cell? x y =
      if p.isAt x y then ((fb.plotAll ps).cell? x y).map (·.cover p.color p.level)
      else (fb.plotAll ps).cell? x y := by
  rw [plotAll_concat, cell?_plot]
  simp only [Plot.isAt, Plot.level, Bool.and_eq_true, decide_eq_true_eq]

/-- What a cell shows is decided by the plots at its place alone. -/
theorem cell?_plotAll_filter (fb : Framebuffer) (ps : List Plot) (x y : Int) :
    (fb.plotAll ps).cell? x y = (fb.plotAll (ps.filter (·.isAt x y))).cell? x y := by
  induction ps using List.reverseRecOn with
  | nil => rfl
  | append_singleton ps p ih =>
    rw [cell?_plotAll_concat, List.filter_append]
    cases hp : p.isAt x y with
    | true =>
      rw [List.filter_cons_of_pos hp, List.filter_nil, cell?_plotAll_concat, hp, ih]
    | false =>
      rw [List.filter_cons_of_neg (by simp [hp]), List.filter_nil, List.append_nil, ← ih]
      rfl

/-- After any history a cell is as the history says. -/
theorem history_plotAll (h : fb.cell? x y = some c) (hc : c.depth.isNaN = false)
    (ps : List Plot) : ∃ c', (fb.plotAll ps).cell? x y = some c' ∧ History x y c ps c' := by
  induction ps using List.reverseRecOn with
  | nil => exact ⟨c, h, .nil hc⟩
  | append_singleton ps p ih =>
    obtain ⟨c', hc', hist⟩ := ih
    rw [cell?_plotAll_concat, hc']
    cases hp : p.isAt x y with
    | true => exact ⟨_, rfl, hist.cover hp⟩
    | false => exact ⟨c', rfl, hist.elsewhere hp⟩

/-- A picture that shows nothing has numbers for depths. -/
theorem isNumeric_new (width height : Nat) (background : Color) :
    (new width height background).IsNumeric := by
  intro c hc
  obtain ⟨-, rfl⟩ := Vector.mem_replicate.1 hc
  change far.isNaN = false
  decide

/-- What a picture shows after any history of plots. At a column and a row of the picture the cell
is as the history says; a further plot is painted just when its depth is a number that is at least
as near as all that competed before; and plots at other places change nothing there. Elsewhere no
plot changes anything. And the cells are those of the display: column by column, row `y` from the
bottom in row `height - 1 - y` from the top, each cell for one column and row. -/
theorem plotAll_depth_buffer (fb : Framebuffer) (hfb : fb.IsNumeric) (ps : List Plot) :
    (∀ x y, fb.InRange x y → ∃ c c', fb.cell? x y = some c ∧
      (fb.plotAll ps).cell? x y = some c' ∧ History x y c ps c' ∧
      (∀ color depth, ((fb.plotAll ps).plot color x y depth).2 = true ↔
        (quantize depth).isNaN = false ∧ ∀ d ∈ depthsAt x y c ps, d ≤ quantize depth) ∧
      (fb.plotAll ps).cell? x y = (fb.plotAll (ps.filter (·.isAt x y))).cell? x y) ∧
    (∀ x y, ¬ fb.InRange x y → ∀ color depth,
      (fb.plotAll ps).plot color x y depth = (fb.plotAll ps, false)) ∧
    (∀ x y, fb.InRange x y → ∃ i, fb.place? x y = some i ∧ fb.cell? x y = some (fb.cells.get i) ∧
      ((i / fb.width : Nat) : Int) = fb.height - 1 - y ∧ ((i % fb.width : Nat) : Int) = x) ∧
    (∀ x y x' y' i, fb.place? x y = some i → fb.place? x' y' = some i → x = x' ∧ y = y') ∧
    (∀ i, ∃ x y, fb.InRange x y ∧ fb.place? x y = some i) := by
  refine ⟨?_, ?_, ?_, fun x y x' y' i => place?_inj, exists_place?⟩
  · intro x y hr
    obtain ⟨c, hc⟩ := exists_cell? hr
    obtain ⟨c', hc', hist⟩ := history_plotAll hc (hfb c (mem_of_cell? hc)) ps
    refine ⟨c, c', hc, hc', hist, fun color depth => ?_, cell?_plotAll_filter fb ps x y⟩
    rw [plot_snd hc', decide_eq_true_eq]
    exact hist.depth_le_iff _
  · intro x y hr color depth
    exact plot_eq_of_not_inRange (mt inRange_plotAll.1 hr) color depth
  · intro x y hr
    obtain ⟨i, hi, -⟩ := place?_of_inRange hr
    obtain ⟨hrow, hcol⟩ := place?_spec hi
    obtain ⟨hx, -, hy, hy'⟩ := hr
    refine ⟨i, hi, by rw [cell?, hi]; rfl, ?_, ?_⟩
    · rw [hrow]
      omega
    · rw [hcol]
      omega

/-- Of two plots in one step the later one shows, a farther one does not, and one without a depth is
lost. -/
theorem plotAll_depth_buffer_ties :
    (new 2 2 (.gray 127)).IsNumeric ∧
      (((new 2 2 (.gray 127)).plotAll
        [⟨.gray 1, 0, 1, 2.0⟩, ⟨.gray 2, 0, 1, 2.0004⟩, ⟨.gray 3, 0, 1, 1.0⟩,
          ⟨.gray 4, 0, 1, 0.0 / 0.0⟩, ⟨.gray 5, -1, 7, 9.0⟩]).cell? 0 1).map Cell.color =
        some (.gray 2) := by
  refine ⟨isNumeric_new _ _ _, ?_⟩
  obtain ⟨c, c', hc, hc', hist, -⟩ :=
    (plotAll_depth_buffer _ (isNumeric_new 2 2 (.gray 127)) _).1 0 1
      ⟨by decide, by decide, by decide, by decide⟩
  obtain rfl : ⟨.gray 127, far⟩ = c := Option.some.inj (by rw [← hc]; decide)
  rw [hc', Option.map_some, hist.color]
  decide +kernel

end Framebuffer

end SceneScript
