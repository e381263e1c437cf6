import SceneScript.Session

/-!
# What a step can do

An operation does one of a few things to a session (`Outcome`, `outcome_execute`): it opens a
coordinate system or closes one, changes the one on top, draws a figure, empties the picture, hands
the picture to the sink, or does nothing. Only closing and delivering can fail, and a failure
leaves everything but the sink as it was (`execute_eq_of_error`).

Which of these it does depends on the operation alone (`Operation.transform?`, `Operation.figure?`,
`Operation.destination?`), and what it makes of a session apart from the sink depends on the session
apart from the sink (`scene_execute`). So what is to be shown of a run is shown of each outcome
first, and then along the list of operations (`after_cons`, `after_concat`).
-/

namespace SceneScript

/-- What is drawn in one go, in its own space. -/
inductive Figure where
  /-- The triangles of a solid, with the profile that it brings. -/
  | solid (profile : Option Reflectance) (triangles : List (Triangle (Vec3 Float)))
  | curve (edges : List (Edge (Vec3 Float)))

/-- The sink that takes every picture and keeps none. -/
def Sink.silent : Sink Unit := ⟨fun _ _ _ => (.ok (), ())⟩

namespace Operation

/-- The transform that an operation composes into the top coordinate system. -/
def transform? : Operation → Option Matrix
  | move offset => some (.translation offset)
  | rotate axis degrees => some (.rotation axis degrees)
  | scale factors => some (.scaling factors)
  | _ => none

/-- The figure that an operation draws. -/
def figure? (steps : Tessellation) : Operation → Option Figure
  | box corner size k => some (.solid k (Shape.box corner size))
  | sphere center radius k => some (.solid k (Shape.sphere center radius steps.sphere))
  | torus center minor major k => some (.solid k (Shape.torus center minor major steps.torus))
  | circle center radius => some (.curve (Shape.circle center radius steps.curve))
  | hermite p0 p1 r0 r1 => some (.curve (Shape.hermite p0 p1 r0 r1 steps.curve))
  | bezier p0 p1 p2 p3 => some (.curve (Shape.bezier p0 p1 p2 p3 steps.curve))
  | line p0 p1 => some (.curve [⟨p0, p1⟩])
  | _ => none

/-- The destination that an operation delivers the picture to. -/
def destination? : Operation → Option Destination
  | save path => some (.file path)
  | display => some .display
  | _ => none

/-- The operation draws a shape, a curve or a line. -/
def draws : Operation → Bool
  | box .. | sphere .. | torus .. | circle .. | hermite .. | bezier .. | line .. => true
  | _ => false

/-- An operation that draws has a figure. -/
theorem isSome_figure? (steps : Tessellation) (op : Operation) :
    (op.figure? steps).isSome = op.draws := by
  cases op <;> rfl

/-- An operation that delivers has a destination. -/
theorem isSome_destination? (op : Operation) : op.destination?.isSome = op.delivers := by
  cases op <;> rfl

end Operation

namespace CoordinateStack

/-- There is more than one system when there is one below the top. -/
theorem one_lt_depth_iff {s : CoordinateStack} : 1 < s.depth ↔ s.below ≠ [] := by
  rw [depth, frames, List.length_cons, ← List.length_pos_iff]
  omega

end CoordinateStack

namespace Session

variable {σ : Type}

/-- Draw a figure. -/
def draw (f : Figure) (s : Session σ) : Session σ :=
  match f with
  | .solid k ts => s.drawSolid k ts
  | .curve es => s.drawCurve es

/-- All of a session but its sink. -/
def scene (s : Session σ) : Session Unit := { s with delivered := () }

theorem stack_eq_of_scene_eq {s t : Session σ} (h : t.scene = s.scene) : t.stack = s.stack := by
  have hs : t.scene.stack = s.scene.stack := congrArg stack h
  exact hs

theorem framebuffer_eq_of_scene_eq {s t : Session σ} (h : t.scene = s.scene) :
    t.framebuffer = s.framebuffer := by
  have hs : t.scene.framebuffer = s.scene.framebuffer := congrArg framebuffer h
  exact hs

/-- The session after operations. -/
def after (sink : Sink σ) (ops : List Operation) (s : Session σ) : Session σ :=
  (executeAll sink ops s).2

/-! ## Single operations -/

/-- An operation with a figure draws it. -/
theorem execute_of_figure? {op : Operation} {f : Figure} {s : Session σ} (sink : Sink σ)
    (h : op.figure? s.config.tessellation = some f) : execute sink op s = (.ok (), s.draw f) := by
  cases op with
  | box | sphere | torus | circle | hermite | bezier | line =>
    cases h
    rfl
  | _ => cases h

/-- An operation with a destination asks the sink to take the picture. -/
theorem execute_of_destination? {op : Operation} {destination : Destination} (sink : Sink σ)
    (s : Session σ) (h : op.destination? = some destination) :
    execute sink op s = s.deliver sink destination := by
  cases op with
  | save | display =>
    cases h
    rfl
  | _ => cases h

/-- Closing goes back to the system below. -/
theorem execute_pop_of_cons {m : Matrix} {below : List Matrix} {s : Session σ} (sink : Sink σ)
    (h : s.stack.below = m :: below) :
    execute sink .pop s = (.ok (), { s with stack := ⟨m, below⟩ }) := by
  change s.pop = _
  rw [Session.pop, CoordinateStack.pop, h]

/-- The outermost system cannot be closed. -/
theorem execute_pop_of_nil {s : Session σ} (sink : Sink σ) (h : s.stack.below = []) :
    execute sink .pop s = (.error (.stack .underflow), s) := by
  change s.pop = _
  rw [Session.pop, CoordinateStack.pop, h]

/-- What carrying out an operation can come to. -/
inductive Outcome (sink : Sink σ) :
    Operation → Session σ → Except SessionError Unit → Session σ → Prop
  | push : Outcome sink .push s (.ok ()) { s with stack := s.stack.push }
  | pop : s.stack.below = m :: below → Outcome sink .pop s (.ok ()) { s with stack := ⟨m, below⟩ }
  | underflow : s.stack.below = [] → Outcome sink .pop s (.error (.stack .underflow)) s
  | transform : op.transform? = some m → Outcome sink op s (.ok ()) (s.compose m)
  | figure : op.figure? s.config.tessellation = some f → Outcome sink op s (.ok ()) (s.draw f)
  | clear : Outcome sink .clear s (.ok ()) { s with framebuffer := s.framebuffer.clear }
  | delivery : op.destination? = some destination →
      sink.deliver s.framebuffer destination s.delivered = (result, d) →
      Outcome sink op s (result.mapError .output) { s with delivered := d }
  | definition : Outcome sink (.constants name k) s (.ok ()) s

/-- Carrying out an operation comes to one of its outcomes. -/
theorem outcome_execute (sink : Sink σ) (op : Operation) (s : Session σ) :
    Outcome sink op s (execute sink op s).1 (execute sink op s).2 := by
  cases hf : op.figure? s.config.tessellation with
  | some f =>
    rw [execute_of_figure? sink hf]
    exact .figure hf
  | none =>
    cases op with
    | push => exact .push
    | pop =>
      cases hb : s.stack.below with
      | nil =>
        rw [execute_pop_of_nil sink hb]
        exact .underflow hb
      | cons m below =>
        rw [execute_pop_of_cons sink hb]
        exact .pop hb
    | move | rotate | scale => exact .transform rfl
    | clear => exact .clear
    | save | display => exact .delivery rfl rfl
    | constants => exact .definition
    | _ => cases hf

variable {sink : Sink σ} {op : Operation} {s : Session σ}

/-- An operation that fails has changed nothing but the sink. -/
theorem execute_eq_of_error {e : SessionError} (h : (execute sink op s).1 = .error e) :
    (execute sink op s).2 = { s with delivered := (execute sink op s).2.delivered } := by
  have ho := outcome_execute sink op s
  rw [h] at ho
  generalize (execute sink op s).2 = s' at ho
  generalize hr : Except.error e = r at ho
  cases ho with
  | underflow | delivery => rfl
  | _ => cases hr

/-- No operation changes the configuration. -/
@[simp] theorem config_execute (sink : Sink σ) (op : Operation) (s : Session σ) :
    (execute sink op s).2.config = s.config := by
  cases op with
  | pop =>
    change (pop s).2.config = s.config
    unfold pop
    split <;> rfl
  | _ => rfl

/-- An operation changes all but the sink in a way that the sink has no part in. -/
theorem scene_execute (sink : Sink σ) (op : Operation) (s : Session σ) :
    (execute sink op s).2.scene = (execute .silent op s.scene).2 := by
  cases op with
  | pop =>
    change s.pop.2.scene = s.scene.pop.2
    have hs : s.scene.stack = s.stack := rfl
    rw [Session.pop, Session.pop, hs]
    cases s.stack.pop <;> rfl
  | _ => rfl

/-! ## Opening and closing -/

/-- The top system can be closed when there is one below. -/
theorem execute_pop_fst (sink : Sink σ) (s : Session σ) :
    (execute sink .pop s).1 =
      if 1 < s.stack.depth then .ok () else .error (.stack .underflow) := by
  cases hb : s.stack.below with
  | nil =>
    rw [execute_pop_of_nil sink hb, if_neg (by simp [CoordinateStack.one_lt_depth_iff, hb])]
  | cons m below =>
    rw [execute_pop_of_cons sink hb, if_pos (by simp [CoordinateStack.one_lt_depth_iff, hb])]

/-- An operation that delivers nothing succeeds or fails whatever the sink is. -/
theorem execute_fst_of_scene_eq {t : Session σ} (h : t.scene = s.scene)
    (hd : op.delivers = false) : (execute sink op t).1 = (execute sink op s).1 := by
  cases op with
  | pop => rw [execute_pop_fst, execute_pop_fst, stack_eq_of_scene_eq h]
  | save | display => cases hd
  | _ => rfl

/-- Opening makes one system more and closing, where it can be done, makes one less. -/
theorem depth_execute_add (sink : Sink σ) (s : Session σ) (h : op = .pop → 1 < s.stack.depth) :
    (execute sink op s).2.stack.depth + [op].count .pop = s.stack.depth + [op].count .push := by
  cases op with
  | push => rfl
  | pop =>
    obtain ⟨m, below, hb⟩ := List.exists_cons_of_ne_nil (CoordinateStack.one_lt_depth_iff.1 (h rfl))
    rw [execute_pop_of_cons sink hb]
    simp [CoordinateStack.depth, CoordinateStack.frames, hb]
  | _ => rfl

/-- Nothing but opening makes more systems. -/
theorem depth_execute_le (sink : Sink σ) (s : Session σ) (h : op ≠ .push) :
    (execute sink op s).2.stack.depth ≤ s.stack.depth := by
  cases op with
  | push => exact absurd rfl h
  | pop =>
    cases hb : s.stack.below with
    | nil => exact Nat.le_of_eq (by rw [execute_pop_of_nil sink hb])
    | cons m below =>
      rw [execute_pop_of_cons sink hb]
      simp [CoordinateStack.depth, CoordinateStack.frames, hb]
  | _ => exact Nat.le_refl _

/-! ## Operations one after the other -/

@[simp] theorem after_nil (sink : Sink σ) (s : Session σ) : after sink [] s = s := rfl

/-- A run goes on from the session it has come to, whatever was counted. -/
theorem foldl_advance_snd (sink : Sink σ) (ops : List Operation) (run : Tally × Session σ) :
    (ops.foldl (advance sink) run).2 = after sink ops run.2 := by
  induction ops generalizing run with
  | nil => rfl
  | cons op ops ih =>
    rw [after, executeAll, List.foldl_cons, List.foldl_cons, ih, ih]
    rfl

@[simp] theorem after_cons (sink : Sink σ) (op : Operation) (ops : List Operation)
    (s : Session σ) : after sink (op :: ops) s = after sink ops (execute sink op s).2 :=
  foldl_advance_snd sink ops _

theorem after_append (sink : Sink σ) (ops ops' : List Operation) (s : Session σ) :
    after sink (ops ++ ops') s = after sink ops' (after sink ops s) := by
  rw [after, executeAll, List.foldl_append, foldl_advance_snd]
  rfl

theorem after_concat (sink : Sink σ) (ops : List Operation) (op : Operation)
    (s : Session σ) : after sink (ops ++ [op]) s = (execute sink op (after sink ops s)).2 :=
  after_append sink ops [op] s

/-- A run changes all but the sink in a way that the sink has no part in. -/
theorem scene_after (sink : Sink σ) (ops : List Operation) (s : Session σ) :
    (after sink ops s).scene = after .silent ops s.scene := by
  induction ops generalizing s with
  | nil => rfl
  | cons op ops ih => rw [after_cons, after_cons, ih, scene_execute]

end Session

end SceneScript
