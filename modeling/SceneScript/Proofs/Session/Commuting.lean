import SceneScript.Proofs.Session.Invariant

/-!
# Drawings in either order

What a drawing plots does not depend on what is drawn already, so two drawings leave the same plots
in either order, those of the one behind those of the other (`AtRest.after_pair`). The depths that
compete for a cell are then the same, so the cell ends equally near. It also ends in the same color
if all the plots that lead there are of one drawing, since a drawing keeps its own plots in order.
They are of both only where the nearest plots of the two drawings are equally near, and nothing was
nearer before (`Tie`, `foremost?_swap`).
-/

namespace SceneScript

open Binary64

namespace Framebuffer

variable {x y : Int} {c c₁ c₂ : Cell} {ds ds' : List Float} {ps qs : List Plot} {p : Plot}

/-- The depths that plots bring to a place, as far as they are numbers. -/
def levelsAt (x y : Int) (ps : List Plot) : List Float :=
  ((ps.filter (·.isAt x y)).map Plot.level).filter (!·.isNaN)

/-- The depth is the greatest that plots bring to a place. -/
structure IsNearest (x y : Int) (ps : List Plot) (z : Float) : Prop where
  mem : z ∈ levelsAt x y ps
  le : ∀ d ∈ levelsAt x y ps, d ≤ z

/-- Two histories come equally near at a place, and at least as near as the cell that is there. -/
def Tie (x y : Int) (c : Cell) (ps qs : List Plot) : Prop :=
  ∃ z z', IsNearest x y ps z ∧ IsNearest x y qs z' ∧ z ≤ z' ∧ z' ≤ z ∧ c.depth ≤ z

/-- The plots at a place that are at least as near as all of some depths. -/
def leaders (x y : Int) (ds : List Float) (ps : List Plot) : List Plot :=
  ps.filter fun p => p.isAt x y && decide (∀ d ∈ ds, d ≤ p.level)

/-! ## What competes for a cell -/

/-- What competes for a cell is what it had and what either history brings there. -/
theorem mem_depthsAt_append {d : Float} :
    d ∈ depthsAt x y c (ps ++ qs) ↔
      d = c.depth ∨ d ∈ levelsAt x y ps ∨ d ∈ levelsAt x y qs := by
  rw [depthsAt, List.filter_append, List.map_append, List.filter_append, List.mem_cons,
    List.mem_append]
  rfl

/-- The same depths compete when two histories change places. -/
theorem mem_depthsAt_swap {d : Float} :
    d ∈ depthsAt x y c (ps ++ qs) ↔ d ∈ depthsAt x y c (qs ++ ps) := by
  rw [mem_depthsAt_append, mem_depthsAt_append, or_comm (a := d ∈ levelsAt x y ps)]

/-- The plot in front is the last one that leads. -/
theorem foremost?_eq_getLast? (x y : Int) (c : Cell) (ps : List Plot) :
    foremost? x y c ps = (leaders x y (depthsAt x y c ps) ps).getLast? := rfl

theorem leaders_append (x y : Int) (ds : List Float) (ps qs : List Plot) :
    leaders x y ds (ps ++ qs) = leaders x y ds ps ++ leaders x y ds qs := List.filter_append ..

/-- The order of the depths does not matter for who leads. -/
theorem leaders_congr (h : ∀ d, d ∈ ds ↔ d ∈ ds') (ps : List Plot) :
    leaders x y ds ps = leaders x y ds' ps :=
  List.filter_congr fun p _ =>
    congrArg (p.isAt x y && ·) (decide_eq_decide.2 (forall_congr' fun d => by rw [h]))

/-- A plot that leads is at least as near as each of the depths. -/
theorem le_of_mem_leaders {z : Float} (hp : p ∈ leaders x y ds ps) (hz : z ∈ ds) : z ≤ p.level :=
  of_decide_eq_true (Bool.and_eq_true_iff.1 (List.mem_filter.1 hp).2).2 z hz

/-- A plot that leads is the nearest of its own history, if the depths of that are among those that
it was compared with. -/
theorem isNearest_of_mem_leaders (hc : c.depth ∈ ds) (hsub : levelsAt x y ps ⊆ ds)
    (hp : p ∈ leaders x y ds ps) : IsNearest x y ps p.level := by
  have hn : p.level.isNaN = false := isNaN_right (le_of_mem_leaders hp hc)
  obtain ⟨hps, hlead⟩ := List.mem_filter.1 hp
  have hat : p.isAt x y = true := (Bool.and_eq_true_iff.1 hlead).1
  refine ⟨List.mem_filter.2 ⟨List.mem_map_of_mem (List.mem_filter.2 ⟨hps, hat⟩), ?_⟩,
    fun d hd => le_of_mem_leaders hp (hsub hd)⟩
  rw [hn]
  rfl

/-- The plot in front is the same when two histories change places, unless they tie. -/
theorem foremost?_swap (h : ¬ Tie x y c ps qs) :
    foremost? x y c (ps ++ qs) = foremost? x y c (qs ++ ps) := by
  have hds : leaders x y (depthsAt x y c (qs ++ ps)) (qs ++ ps) =
      leaders x y (depthsAt x y c (ps ++ qs)) (qs ++ ps) :=
    leaders_congr (fun d => mem_depthsAt_swap) _
  rw [foremost?_eq_getLast?, foremost?_eq_getLast?, hds, leaders_append, leaders_append]
  have hc : c.depth ∈ depthsAt x y c (ps ++ qs) := List.mem_cons_self
  have hps : levelsAt x y ps ⊆ depthsAt x y c (ps ++ qs) :=
    fun d hd => mem_depthsAt_append.2 (.inr (.inl hd))
  have hqs : levelsAt x y qs ⊆ depthsAt x y c (ps ++ qs) :=
    fun d hd => mem_depthsAt_append.2 (.inr (.inr hd))
  -- who leads is found in one of the histories alone, or each has one who does
  by_cases hp : leaders x y (depthsAt x y c (ps ++ qs)) ps = []
  · rw [hp, List.nil_append, List.append_nil]
  by_cases hq : leaders x y (depthsAt x y c (ps ++ qs)) qs = []
  · rw [hq, List.nil_append, List.append_nil]
  obtain ⟨p, hp⟩ := List.exists_mem_of_ne_nil _ hp
  obtain ⟨q, hq⟩ := List.exists_mem_of_ne_nil _ hq
  have hpz := isNearest_of_mem_leaders hc hps hp
  have hqz := isNearest_of_mem_leaders hc hqs hq
  exact absurd ⟨p.level, q.level, hpz, hqz, le_of_mem_leaders hq (hps hpz.mem),
    le_of_mem_leaders hp (hqs hqz.mem), le_of_mem_leaders hp hc⟩ h

/-- A cell ends equally near when two histories change places, and in the same color unless they
tie. -/
theorem History.swap (h : History x y c (ps ++ qs) c₁) (h' : History x y c (qs ++ ps) c₂) :
    c₁.depth ≤ c₂.depth ∧ c₂.depth ≤ c₁.depth ∧
      (¬ Tie x y c ps qs → c₁.color = c₂.color) := by
  refine ⟨h'.le _ (mem_depthsAt_swap.1 h.mem), h.le _ (mem_depthsAt_swap.1 h'.mem), fun ht => ?_⟩
  rw [h.color, h'.color, foremost?_swap ht]

end Framebuffer

namespace Session

variable {σ : Type} {s : Session σ} {a b : Operation}

/-- A drawing leaves its plots, and changes nothing else. -/
theorem AtRest.execute_of_draws (hs : s.AtRest) (sink : Sink σ) (ha : a.draws = true) :
    (execute sink a s).2 = { s with framebuffer := s.framebuffer.plotAll (s.plots a) } := by
  rw [← Operation.isSome_figure? s.config.tessellation] at ha
  obtain ⟨f, hf⟩ := Option.isSome_iff_exists.1 ha
  rw [execute_of_figure? sink hf, hs.draw_eq, plots_of_figure? hf]

/-- What an operation plots does not depend on what is plotted already. -/
theorem plots_plotAll (s : Session σ) (op : Operation) (ps : List Plot) :
    plots op { s with framebuffer := s.framebuffer.plotAll ps } = s.plots op := by
  simp only [plots, Framebuffer.width_plotAll, Framebuffer.height_plotAll]

/-- Two drawings leave the plots of both, each as if it were alone. -/
theorem AtRest.after_pair (hs : s.AtRest) (sink : Sink σ) (ha : a.draws = true)
    (hb : b.draws = true) :
    after sink [a, b] s =
      { s with framebuffer := s.framebuffer.plotAll (s.plots a ++ s.plots b) } := by
  have hs' := atRest_execute hs sink a
  rw [after_cons, after_cons, after_nil, hs'.execute_of_draws sink hb,
    hs.execute_of_draws sink ha, plots_plotAll, Framebuffer.plotAll_append]

/-- Operations lead from a new session to none but sessions at rest. In any of these two drawings in
either order leave the same coordinate systems, and a history of the plots of each. No cell ends
nearer in one order than in the other, and all cells end in the same colors but for those where the
drawings tie. -/
theorem drawings_commute (sink : Sink σ) (ha : a.draws = true) (hb : b.draws = true) :
    (∀ config start ops, (after sink ops (new config start)).AtRest) ∧
    ∀ s : Session σ, s.AtRest →
      let ab := after sink [a, b] s
      let ba := after sink [b, a] s
      ab.stack = ba.stack ∧
        ab.framebuffer = s.framebuffer.plotAll (s.plots a ++ s.plots b) ∧
        ba.framebuffer = s.framebuffer.plotAll (s.plots b ++ s.plots a) ∧
        ∀ x y, s.framebuffer.InRange x y → ∃ c c₁ c₂, s.framebuffer.cell? x y = some c ∧
          ab.framebuffer.cell? x y = some c₁ ∧ ba.framebuffer.cell? x y = some c₂ ∧
          c₁.depth ≤ c₂.depth ∧ c₂.depth ≤ c₁.depth ∧
          (¬ Framebuffer.Tie x y c (s.plots a) (s.plots b) → c₁.color = c₂.color) := by
  refine ⟨fun config start ops => atRest_after (atRest_new config start) sink ops, fun s hs => ?_⟩
  dsimp only
  rw [hs.after_pair sink ha hb, hs.after_pair sink hb ha]
  refine ⟨rfl, rfl, rfl, fun x y hr => ?_⟩
  obtain ⟨c, hc⟩ := Framebuffer.exists_cell? hr
  have hn := hs.isNumeric c (Framebuffer.mem_of_cell? hc)
  obtain ⟨c₁, hc₁, hist₁⟩ := Framebuffer.history_plotAll hc hn (s.plots a ++ s.plots b)
  obtain ⟨c₂, hc₂, hist₂⟩ := Framebuffer.history_plotAll hc hn (s.plots b ++ s.plots a)
  exact ⟨c, c₁, c₂, hc, hc₁, hc₂, hist₁.swap hist₂⟩

/-- A box and a line that goes through it, in a session under way. Where the line is behind the
front of the box, the box is seen in either order. -/
theorem drawings_commute_scene :
    let s := after .silent [.move ⟨1.0, 2.0, 0.0⟩, .line ⟨0.0, 6.0, -9.0⟩ ⟨8.0, 6.0, -9.0⟩]
      (new { Config.standard with width := 12, height := 12 } ())
    let a : Operation := .box ⟨0.0, 8.0, 2.0⟩ ⟨4.0, 4.0, 4.0⟩ none
    let b : Operation := .line ⟨0.0, 6.0, 0.0⟩ ⟨8.0, 6.0, 8.0⟩
    let ab := after .silent [a, b] s
    let ba := after .silent [b, a] s
    s.AtRest ∧ a.draws = true ∧ b.draws = true ∧ ab.stack = ba.stack ∧
      Framebuffer.levelsAt 2 8 (s.plots a) = [2.0] ∧
      Framebuffer.levelsAt 2 8 (s.plots b) = [1.0] ∧
      ∃ c₁ c₂, ab.framebuffer.cell? 2 8 = some c₁ ∧ ba.framebuffer.cell? 2 8 = some c₂ ∧
        c₁.depth ≤ c₂.depth ∧ c₂.depth ≤ c₁.depth ∧ c₁.color = c₂.color := by
  intro s a b ab ba
  have hs : s.AtRest := atRest_after (atRest_new _ ()) .silent _
  have ha : Framebuffer.levelsAt 2 8 (s.plots a) = [2.0] := by decide +kernel
  have hb : Framebuffer.levelsAt 2 8 (s.plots b) = [1.0] := by decide +kernel
  have hr : s.framebuffer.InRange 2 8 := by
    rw [Framebuffer.InRange, hs.width, hs.height]
    decide
  obtain ⟨hstack, -, -, hcells⟩ :=
    (drawings_commute .silent (rfl : a.draws = true) (rfl : b.draws = true)).2 s hs
  obtain ⟨c, c₁, c₂, -, hc₁, hc₂, hle, hge, hcolor⟩ := hcells 2 8 hr
  refine ⟨hs, rfl, rfl, hstack, ha, hb, c₁, c₂, hc₁, hc₂, hle, hge, hcolor ?_⟩
  -- the drawings do not tie there, since the box is nearer
  rintro ⟨z, z', hz, hz', hzz', -, -⟩
  obtain rfl : z = 2.0 := List.mem_singleton.1 (ha ▸ hz.mem)
  obtain rfl : z' = 1.0 := List.mem_singleton.1 (hb ▸ hz'.mem)
  exact absurd hzz' (by decide +kernel)

end Session

end SceneScript
