import Mathlib.Data.List.Infix
import SceneScript.Proofs.Session.Backends

/-!
# Deliveries and drawing

What a sink does with the pictures has no part in what is drawn: two runs of the same operations
under different sinks go through the same coordinate systems and the same pictures (`scene_after`),
and so does a run of the operations without those that deliver (`after_silent_filter`).

What a sink is asked is known beforehand. The deliveries of a run are listed from the operations
alone (`deliveries`): one for each operation that delivers, in order, with the picture that the
operations before it have made. The state of the sink is what these leave (`delivered_after`), so a
sink that keeps a list of what it is asked ends with this one (`deliveries_leave_no_trace`).
-/

namespace SceneScript

variable {σ τ : Type}

/-- The state of a sink after one more delivery, whether it took the picture or not. -/
def Sink.receive (sink : Sink σ) (state : σ) (delivery : Destination × Framebuffer) : σ :=
  (sink.deliver delivery.2 delivery.1 state).2

/-- A sink that keeps a list of its deliveries keeps all of them, and is the same sink otherwise. -/
theorem Sink.foldl_receive_recording (sink : Sink σ) (deliveries : List (Destination × Framebuffer))
    (state : σ × List (Destination × Framebuffer)) :
    deliveries.foldl sink.recording.receive state =
      (deliveries.foldl sink.receive state.1, state.2 ++ deliveries) := by
  induction deliveries generalizing state with
  | nil => simp
  | cons delivery deliveries ih =>
    rw [List.foldl_cons, List.foldl_cons, ih]
    simp [receive, recording]

namespace Session

/-- What operations ask of a sink from a session on: a delivery for each of them that delivers, in
order, with the picture that the operations before it leave. -/
def deliveries (ops : List Operation) (s : Session Unit) : List (Destination × Framebuffer) :=
  (ops.inits.zip ops).filterMap fun (before, op) =>
    op.destination?.map fun destination => (destination, (after .silent before s).framebuffer)

example (s : Session Unit) :
    deliveries [.display, .push, .clear, .save "a.ppm"] s =
      [(.display, s.framebuffer), (.file "a.ppm", s.framebuffer.clear)] := rfl

variable {op : Operation}

/-! ## The picture -/

/-- A delivery that nobody takes changes nothing. -/
theorem execute_silent_of_delivers (h : op.delivers = true) (s : Session Unit) :
    (execute .silent op s).2 = s := by
  cases op with
  | save | display => rfl
  | _ => cases h

/-- Without the deliveries a run comes to the same, as far as the sink has no part in it. -/
theorem after_silent_filter (ops : List Operation) (s : Session Unit) :
    after .silent (ops.filter fun op => !op.delivers) s = after .silent ops s := by
  induction ops generalizing s with
  | nil => rfl
  | cons op ops ih =>
    cases h : op.delivers with
    | true =>
      rw [List.filter_cons_of_neg (by simp [h]), ih, after_cons, execute_silent_of_delivers h]
    | false => rw [List.filter_cons_of_pos (by simp [h]), after_cons, after_cons, ih]

/-! ## The deliveries -/

/-- The deliveries of a run are the one that its first operation asks for, if it does, and then
those of the others from there on. -/
theorem deliveries_cons (op : Operation) (ops : List Operation) (s : Session Unit) :
    deliveries (op :: ops) s =
      (op.destination?.map fun destination => (destination, s.framebuffer)).toList ++
        deliveries ops (execute .silent op s).2 := by
  have hrest : (ops.inits.map (op :: ·)).zip ops =
      (ops.inits.zip ops).map (Prod.map (op :: ·) id) := by
    rw [← List.zip_map, List.map_id]
  rw [deliveries, List.inits_cons, List.zip_cons_cons, hrest]
  cases hd : op.destination? <;> simp [deliveries, hd, List.filterMap_map]

/-- The deliveries go where the operations say. -/
theorem map_fst_deliveries (ops : List Operation) (s : Session Unit) :
    (deliveries ops s).map Prod.fst = ops.filterMap Operation.destination? := by
  induction ops generalizing s with
  | nil => rfl
  | cons op ops ih =>
    rw [deliveries_cons, List.map_append, ih]
    cases hd : op.destination? <;> simp [hd]

/-- An operation asks the sink for its delivery, if it has one, and for nothing else. -/
theorem delivered_execute (sink : Sink σ) (op : Operation) (s : Session σ) :
    (execute sink op s).2.delivered =
      (op.destination?.map fun destination => (destination, s.framebuffer)).toList.foldl
        sink.receive s.delivered := by
  cases op with
  | pop =>
    change s.pop.2.delivered = s.delivered
    unfold pop
    split <;> rfl
  | _ => rfl

/-- A run leaves the sink in the state that its deliveries lead to. -/
theorem delivered_after (sink : Sink σ) (ops : List Operation) (s : Session σ) :
    (after sink ops s).delivered = (deliveries ops s.scene).foldl sink.receive s.delivered := by
  induction ops generalizing s with
  | nil => rfl
  | cons op ops ih =>
    rw [after_cons, ih, scene_execute, delivered_execute, deliveries_cons, List.foldl_append]
    rfl

/-- Under any two sinks, whatever they do with the pictures, a run from a new session ends with the
same coordinate systems and the same picture, and it ends with these too when the operations that
deliver are left out. What it asks of the sink is one delivery for each of these operations, in
order, to the destination of the operation and with the picture that the operations before it make
on their own. -/
theorem deliveries_leave_no_trace (config : Config) (ops : List Operation) (sink : Sink σ)
    (start : σ) (sink' : Sink τ) (start' : τ) :
    let run := after sink ops (new config start)
    let run' := after sink' ops (new config start')
    let undelivered := after sink (ops.filter fun op => !op.delivers) (new config start)
    let asked := deliveries ops (new config ())
    run'.stack = run.stack ∧ run'.framebuffer = run.framebuffer ∧
      undelivered.stack = run.stack ∧ undelivered.framebuffer = run.framebuffer ∧
      asked.map Prod.fst = ops.filterMap Operation.destination? ∧
      run.delivered = asked.foldl sink.receive start ∧
      (after sink.recording ops (new config (start, []))).delivered = (run.delivered, asked) := by
  intro run run' undelivered asked
  have hscene : run'.scene = run.scene := by
    rw [scene_after, scene_after]
    rfl
  have hundelivered : undelivered.scene = run.scene := by
    rw [scene_after, scene_after, after_silent_filter]
  have hdelivered : run.delivered = asked.foldl sink.receive start := delivered_after sink ops _
  refine ⟨congrArg stack hscene, congrArg framebuffer hscene, stack_eq_of_scene_eq hundelivered,
    framebuffer_eq_of_scene_eq hundelivered, map_fst_deliveries ops _, hdelivered, ?_⟩
  rw [delivered_after, Sink.foldl_receive_recording, hdelivered]
  rfl

end Session

end SceneScript
