import SceneScript.Proofs.Config.Requirements
import SceneScript.Proofs.Framebuffer.Drawing
import SceneScript.Proofs.Session.Steps

/-!
# Sessions between operations

Before and after every operation a session is at rest: nothing is gathered, the picture has the size
that the configuration asks for, and every depth is a number (`AtRest`). A new session is at rest,
every operation keeps it so, and so does every run (`atRest_new`, `atRest_execute`,
`atRest_after`).

What an operation does to the picture of a session at rest is one of two things
(`AtRest.framebuffer_execute`). Emptying empties it. Any other operation leaves it with a history of
plots, those of the figure that it draws (`Session.plots`), so nothing that is shown goes farther
away; and an operation without a figure plots nothing.
-/

namespace SceneScript

/-- The plots of a figure that a coordinate system places in a picture of the given size. -/
def Figure.plots (config : Config) (system : Matrix) (width height : Nat) : Figure → List Plot
  | solid profile ts =>
    let lighting := config.lighting
    let placed := ts.map (Triangle.map system.point)
    (placed.filter lighting.shows).flatMap
      (Triangle.plots lighting (profile.getD lighting.reflectance) width height)
  | curve es => (es.map (Edge.map system.point)).flatMap (Edge.plots config.foreground width height)

/-- A configuration without a problem asks for a picture with cells, and not for too many. -/
theorem Config.cells_of_problem?_eq_none {c : Config} (h : c.problem? = none) :
    0 < c.width * c.height ∧ c.width * c.height ≤ maxCells := by
  have husable := problem?_eq_none_iff.1 h
  exact ⟨Nat.mul_pos husable.width husable.height, husable.cells⟩

namespace Session

variable {σ : Type} {sink : Sink σ} {s : Session σ} {op : Operation}

/-- What holds of a session before and after every operation. -/
structure AtRest (s : Session σ) : Prop where
  edges : s.edges = []
  polygons : s.polygons = []
  width : s.framebuffer.width = s.config.width
  height : s.framebuffer.height = s.config.height
  isNumeric : s.framebuffer.IsNumeric

/-- What an operation plots. -/
def plots (op : Operation) (s : Session σ) : List Plot :=
  match op.figure? s.config.tessellation with
  | some f => f.plots s.config s.stack.top s.framebuffer.width s.framebuffer.height
  | none => []

theorem plots_of_figure? {f : Figure} (h : op.figure? s.config.tessellation = some f) :
    s.plots op = f.plots s.config s.stack.top s.framebuffer.width s.framebuffer.height := by
  rw [plots, h]

theorem plots_of_figure?_eq_none (h : op.figure? s.config.tessellation = none) :
    s.plots op = [] := by
  rw [plots, h]

/-! ## Single operations -/

/-- Drawing a figure with nothing gathered leaves its plots, and nothing gathered again. -/
theorem AtRest.draw_eq (hs : s.AtRest) (f : Figure) :
    s.draw f = { s with
      framebuffer := s.framebuffer.plotAll
        (f.plots s.config s.stack.top s.framebuffer.width s.framebuffer.height) } := by
  cases f with
  | solid profile ts =>
    simp only [draw, drawSolid, flushPolygons, hs.polygons, List.nil_append,
      Triangle.ofPoints_map_points, Framebuffer.drawSurface_eq_plotAll, Figure.plots]
  | curve es =>
    simp only [draw, drawCurve, flushEdges, hs.edges, List.nil_append, Edge.ofPoints_map_points,
      Framebuffer.drawEdges_eq_plotAll, Figure.plots]

/-- An operation empties the picture or leaves its plots on it. -/
theorem AtRest.framebuffer_execute (hs : s.AtRest) (sink : Sink σ) (op : Operation) :
    (execute sink op s).2.framebuffer =
      if op = .clear then s.framebuffer.clear else s.framebuffer.plotAll (s.plots op) := by
  have ho := outcome_execute sink op s
  generalize (execute sink op s).1 = r, (execute sink op s).2 = s' at ho ⊢
  cases ho with
  | figure hf =>
    have hop : op ≠ .clear := by
      rintro rfl
      cases hf
    rw [hs.draw_eq, if_neg hop, plots_of_figure? hf]
  | transform ht =>
    cases op with
    | move | rotate | scale => rfl
    | _ => cases ht
  | delivery hd =>
    cases op with
    | save | display => rfl
    | _ => cases hd
  | _ => rfl

/-- An operation leaves nothing gathered. -/
theorem AtRest.gathered_execute (hs : s.AtRest) (sink : Sink σ) (op : Operation) :
    (execute sink op s).2.edges = [] ∧ (execute sink op s).2.polygons = [] := by
  have ho := outcome_execute sink op s
  generalize (execute sink op s).1 = r, (execute sink op s).2 = s' at ho ⊢
  cases ho with
  | figure =>
    rw [hs.draw_eq]
    exact ⟨hs.edges, hs.polygons⟩
  | _ => exact ⟨hs.edges, hs.polygons⟩

/-- An operation does not change the size of the picture. -/
theorem AtRest.size_execute (hs : s.AtRest) (sink : Sink σ) (op : Operation) :
    (execute sink op s).2.framebuffer.width = s.framebuffer.width ∧
      (execute sink op s).2.framebuffer.height = s.framebuffer.height := by
  rw [hs.framebuffer_execute]
  split
  · exact ⟨rfl, rfl⟩
  · exact ⟨Framebuffer.width_plotAll .., Framebuffer.height_plotAll ..⟩

/-- An operation keeps a session at rest. -/
theorem atRest_execute (hs : s.AtRest) (sink : Sink σ) (op : Operation) :
    (execute sink op s).2.AtRest where
  edges := (hs.gathered_execute sink op).1
  polygons := (hs.gathered_execute sink op).2
  width := by rw [(hs.size_execute sink op).1, config_execute, hs.width]
  height := by rw [(hs.size_execute sink op).2, config_execute, hs.height]
  isNumeric := by
    rw [hs.framebuffer_execute]
    split
    · exact Framebuffer.isNumeric_clear _
    · exact hs.isNumeric.plotAll _

/-! ## Runs -/

/-- A new session is at rest. -/
theorem atRest_new (config : Config) (start : σ) : (new config start).AtRest where
  edges := rfl
  polygons := rfl
  width := rfl
  height := rfl
  isNumeric := Framebuffer.isNumeric_new _ _ _

/-- A run keeps a session at rest. -/
theorem atRest_after (hs : s.AtRest) (sink : Sink σ) (ops : List Operation) :
    (after sink ops s).AtRest := by
  induction ops generalizing s with
  | nil => exact hs
  | cons op ops ih =>
    rw [after_cons]
    exact ih (atRest_execute hs sink op)

/-- A run does not change the configuration. -/
theorem config_after (sink : Sink σ) (ops : List Operation) (s : Session σ) :
    (after sink ops s).config = s.config := by
  induction ops generalizing s with
  | nil => rfl
  | cons op ops ih => rw [after_cons, ih, config_execute]

/-- After any operations on a new session, whether they failed or not, nothing is gathered, the
configuration is the same, the picture has the size that it asks for, with one color and one depth
for each of its cells, there is a coordinate system to draw in, and no depth is something else than
a number. And one more operation takes nothing farther away that is shown, unless it empties the
picture; and unless it does so or draws a figure, it does not change the picture at all. -/
theorem invariant_of_run (sink : Sink σ) {config : Config} (hc : config.problem? = none)
    (start : σ) (ops : List Operation) :
    let s := after sink ops (new config start)
    let fb := s.framebuffer
    let cells := config.width * config.height
    (s.edges = [] ∧ s.polygons = [] ∧ s.config = config ∧
      fb.width = config.width ∧ fb.height = config.height ∧
      0 < cells ∧ cells ≤ Config.maxCells ∧
      fb.picture.pixels.length = cells ∧ (fb.cells.toList.map Cell.depth).length = cells ∧
      1 ≤ s.stack.depth ∧ ∀ c ∈ fb.cells, c.depth.isNaN = false) ∧
    ∀ op, op ≠ .clear →
      let fb' := (execute sink op s).2.framebuffer
      (∀ x y c, fb.cell? x y = some c → ∃ c', fb'.cell? x y = some c' ∧ c.depth ≤ c'.depth) ∧
        (op.draws = false → fb' = fb) := by
  have hs := atRest_after (atRest_new config start) sink ops
  have hconfig : (after sink ops (new config start)).config = config := config_after ..
  generalize after sink ops (new config start) = s at hs hconfig
  have hwidth := hs.width
  have hheight := hs.height
  rw [hconfig] at hwidth hheight
  obtain ⟨hpos, hmany⟩ := Config.cells_of_problem?_eq_none hc
  refine ⟨⟨hs.edges, hs.polygons, hconfig, hwidth, hheight, hpos, hmany, ?_, ?_,
    Nat.succ_pos _, hs.isNumeric⟩, fun op hop => ?_⟩
  · rw [← hwidth, ← hheight]
    simp [Framebuffer.picture]
  · rw [← hwidth, ← hheight]
    simp
  · dsimp only
    rw [hs.framebuffer_execute, if_neg hop]
    refine ⟨fun x y c h => Framebuffer.exists_cell?_plotAll_le hs.isNumeric h _, fun hd => ?_⟩
    rw [← Operation.isSome_figure? s.config.tessellation, Option.isSome_eq_false_iff,
      Option.isNone_iff_eq_none] at hd
    rw [plots_of_figure?_eq_none hd]
    rfl

/-- A line drawn after a closing too many, under a sink that takes nothing. -/
theorem invariant_of_run_scene :
    let sink : Sink Nat := ⟨fun _ _ n => (.error .encode, n + 1)⟩
    let ops : List Operation := [.pop, .save "a.png", .line ⟨0.0, 0.0, 1.0⟩ ⟨9.0, 5.0, 1.0⟩]
    let s := after sink ops (new .standard 0)
    Config.standard.problem? = none ∧ s.edges = [] ∧
      s.framebuffer.picture.pixels.length = 250000 := by
  intro sink ops s
  have hc : Config.standard.problem? = none := by decide
  have h := (invariant_of_run sink hc 0 ops).1
  exact ⟨hc, h.1, h.2.2.2.2.2.2.2.1⟩

end Session

end SceneScript
